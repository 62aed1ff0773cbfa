/-!
Interrupts and the child they are passed on to. The first interrupt sets a flag and is sent to the
registered child; the next one ends the process. A child registered once the flag is set gets the
interrupt then.
-/

namespace SoloRun

/-- The flag, the registered child, and the children an interrupt was sent to. -/
structure Signals where
  flag : Bool
  slot? : Option Nat
  hit : List Nat
  deriving DecidableEq, Repr

namespace Signals

def quiet : Signals := ⟨false, none, []⟩

def forward (signals : Signals) : Signals :=
  { signals with flag := true, hit := signals.slot?.toList ++ signals.hit }

/-- An interrupt; none if it ends the process. -/
def interrupt? (signals : Signals) : Option Signals :=
  if signals.flag then none else some signals.forward

def register (signals : Signals) (child : Nat) : Signals :=
  let held := { signals with slot? := some child }
  if signals.flag then held.forward else held

def release (signals : Signals) : Signals :=
  { signals with slot? := none }

end Signals

/-- The status of a process that a second interrupt ends. -/
def interruptedStatus : Nat := 130

/-- Signals, and the running children by name; `held` are the names whose registration was kept. -/
structure Ward where
  signals : Signals
  children : List (String × Nat)
  held : List String
  spawned : Nat
  deriving DecidableEq, Repr

namespace Ward

inductive Step where
  | interrupt
  | write (flag : Bool)
  | spawn (name : String)
  | register (name : String)
  | unregister (name : String)
  | wait (name : String)
  deriving DecidableEq, Repr

/-- What a step shows: the status the process would end with, and the status of a child. -/
structure Answer where
  exits? : Option Nat
  exitCode? : Option Int
  deriving DecidableEq, Repr

def silent : Answer := ⟨none, none⟩

def empty : Ward := ⟨.quiet, [], [], 0⟩

def unregister (ward : Ward) (name : String) : Ward :=
  if name ∈ ward.held then
    { ward with signals := ward.signals.release, held := ward.held.filter (· ≠ name) }
  else ward

/-- Drops an older registration of the name only after making the new one. -/
def register (ward : Ward) (name : String) : Ward :=
  match ward.children.lookup name with
  | none => ward
  | some child =>
    let after := { ward with signals := ward.signals.register child }.unregister name
    { after with held := name :: after.held }

def step (ward : Ward) : Step → Ward × Answer
  | .interrupt =>
    match ward.signals.interrupt? with
    | some signals => ({ ward with signals }, silent)
    | none => (ward, ⟨some interruptedStatus, none⟩)
  | .write flag => ({ ward with signals := { ward.signals with flag } }, silent)
  | .spawn name =>
    ({ ward with
        children := (name, ward.spawned) :: ward.children.filter (·.1 ≠ name)
        spawned := ward.spawned + 1 }, silent)
  | .register name => (ward.register name, silent)
  | .unregister name => (ward.unregister name, silent)
  | .wait name =>
    match ward.children.lookup name with
    | none => (ward, silent)
    | some child =>
      ({ ward with children := ward.children.filter (·.1 ≠ name) },
        ⟨none, some (if child ∈ ward.signals.hit then -2 else 0)⟩)

/-- The states and answers of steps one after the other. -/
def walk (ward : Ward) : List Step → List (Ward × Answer)
  | [] => []
  | first :: rest =>
    let (after, answer) := ward.step first
    (after, answer) :: walk after rest

end Ward
end SoloRun
