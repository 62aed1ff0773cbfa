import SoloRun.CommandLine.Help
import SoloRun.Path

/-!
The command line: options with values, flags, and what is refused. The value of an option that
stands in the next argument counts only once a later argument has been understood or the line ends.
-/

namespace SoloRun

structure Options where
  manifestPath? : Option Path
  logDir? : Option Path
  integrationTest : String
  propertyTest : String
  verbose : Bool
  json : Bool
  deriving DecidableEq, Repr

namespace CommandLine

inductive Refusal where
  | missingSubcommand
  | invalidSubcommand
  | unknownArgument
  | invalidValue
  | invalidUtf8
  | conflict
  | tooManyValues
  deriving DecidableEq, Repr

/-- Why a command line asks for no run: it asks for help or for the version, or it is refused. -/
inductive Early where
  | help (page : Page)
  | version
  | refused (reason : Refusal)
  deriving DecidableEq, Repr

def Early.status : Early → Nat
  | .help _ | .version => 0
  | .refused _ => 2

def refuse {α : Type} (reason : Refusal) : Except Early α :=
  .error (.refused reason)

inductive Key where
  | manifestPath
  | logDir
  | integrationTest
  | propertyTest
  deriving DecidableEq, Repr

inductive Flag where
  | verbose
  | json
  | help
  | version
  deriving DecidableEq, Repr

namespace Key

def all : List Key := [.manifestPath, .logDir, .integrationTest, .propertyTest]

def name : Key → String
  | .manifestPath => "manifest-path"
  | .logDir => "log-dir"
  | .integrationTest => "integration-test"
  | .propertyTest => "property-test"

def ofName? (name : Bytes) : Option Key :=
  all.find? (Utf8.encode ·.name = name)

end Key

namespace Flag

def all : List Flag := [.verbose, .json, .help, .version]

def name : Flag → String
  | .verbose => "verbose"
  | .json => "json"
  | .help => "help"
  | .version => "version"

def letter : Flag → Char
  | .verbose => 'v'
  | .json => 'j'
  | .help => 'h'
  | .version => 'V'

def ofName? (name : Bytes) : Option Flag :=
  all.find? (Utf8.encode ·.name = name)

def ofPiece? : Utf8.Piece → Option Flag
  | .char c => all.find? (·.letter = c)
  | .broken _ => none

end Flag

/-- What an argument looks like. -/
inductive Word where
  | escape
  | long (name : Bytes) (value? : Option Bytes)
  | short (letters : List Utf8.Piece)
  | plain (value : Bytes)
  deriving DecidableEq, Repr

namespace Word

def equals : UInt8 := 0x3D

def ofBytes : Bytes → Word
  | [0x2D, 0x2D] => .escape
  | 0x2D :: 0x2D :: rest => .long (rest.takeWhile (· ≠ equals)) (rest.dropWhile (· ≠ equals)).tail?
  | 0x2D :: b :: rest => .short (Utf8.pieces (b :: rest))
  | value => .plain value

end Word

/-- What has been given so far. -/
structure Chosen where
  manifestPath? : Option Path
  logDir? : Option Path
  integrationTest? : Option String
  propertyTest? : Option String
  verbose : Bool
  json : Bool
  deriving DecidableEq, Repr

namespace Chosen

def nothing : Chosen := ⟨none, none, none, none, false, false⟩

def options (chosen : Chosen) : Options where
  manifestPath? := chosen.manifestPath?
  logDir? := chosen.logDir?
  integrationTest := chosen.integrationTest?.getD "integration_tests"
  propertyTest := chosen.propertyTest?.getD "prop_tests"
  verbose := chosen.verbose
  json := chosen.json

def path (value : Bytes) : Except Early Path :=
  if value = [] then refuse .invalidValue else .ok ⟨value⟩

def testName (value : Bytes) : Except Early String :=
  match Utf8.decode? value with
  | .ok name => .ok name
  | .error _ => refuse .invalidUtf8

/-- What is given once is not given again. -/
def fill {α : Type} (place? : Option α) (value : Except Early α) : Except Early (Option α) :=
  if place?.isSome then refuse .conflict else value.map some

def give (chosen : Chosen) (key : Key) (value : Bytes) : Except Early Chosen :=
  match key with
  | .manifestPath =>
    (fill chosen.manifestPath? (path value)).map ({ chosen with manifestPath? := · })
  | .logDir => (fill chosen.logDir? (path value)).map ({ chosen with logDir? := · })
  | .integrationTest =>
    (fill chosen.integrationTest? (testName value)).map ({ chosen with integrationTest? := · })
  | .propertyTest =>
    (fill chosen.propertyTest? (testName value)).map ({ chosen with propertyTest? := · })

def raise (chosen : Chosen) : Flag → Except Early Chosen
  | .verbose => if chosen.verbose then refuse .conflict else .ok { chosen with verbose := true }
  | .json => if chosen.json then refuse .conflict else .ok { chosen with json := true }
  | .help => .error (.help .testLogs)
  | .version => .error .version

end Chosen

/-- An option whose value is still to come, or has come and does not count yet. -/
inductive Pending where
  | idle
  | wanting (key : Key)
  | holding (key : Key) (value : Bytes)
  deriving DecidableEq, Repr

def settle (chosen : Chosen) : Pending → Except Early Chosen
  | .idle => .ok chosen
  | .wanting _ => refuse .invalidValue
  | .holding key value => chosen.give key value

def raiseAll (chosen : Chosen) (pending : Pending) : List Utf8.Piece → Except Early Chosen
  | [] => settle chosen pending
  | letter :: rest =>
    match Flag.ofPiece? letter with
    | none => refuse .unknownArgument
    | some flag => do
      let settled ← settle chosen pending
      let raised ← settled.raise flag
      raiseAll raised .idle rest

def readLong (chosen : Chosen) (pending : Pending) (name : Bytes) (value? : Option Bytes) :
    Except Early (Chosen × Pending) :=
  match Key.ofName? name, value? with
  | some key, some value => do
    let settled ← settle chosen pending
    return (← settled.give key value, .idle)
  | some key, none => do
    return (← settle chosen pending, .wanting key)
  | none, _ =>
    match Flag.ofName? name, value? with
    | none, _ => refuse .unknownArgument
    | some _, some _ => refuse .tooManyValues
    | some flag, none => do
      let settled ← settle chosen pending
      return (← settled.raise flag, .idle)

def readPlain (chosen : Chosen) (pending : Pending) (value : Bytes) :
    Except Early (Chosen × Pending) :=
  match pending with
  | .wanting key => .ok (chosen, .holding key value)
  | _ => refuse .unknownArgument

/-- Reads the arguments that follow the subcommand. -/
def readAll (chosen : Chosen) (pending : Pending) : List Bytes → Except Early Options
  | [] => do
    return (← settle chosen pending).options
  | arg :: rest =>
    match Word.ofBytes arg with
    | .escape =>
      if rest.isEmpty then (settle chosen pending).map Chosen.options else refuse .unknownArgument
    | .long name value? => do
      let (chosen, pending) ← readLong chosen pending name value?
      readAll chosen pending rest
    | .short letters => do
      let raised ← raiseAll chosen pending letters
      readAll raised .idle rest
    | .plain value => do
      let (chosen, pending) ← readPlain chosen pending value
      readAll chosen pending rest

def testLogs : Bytes := Utf8.encode "test-logs"

def help : Bytes := Utf8.encode "help"

def helpOn : List Bytes → Early
  | [] => .help .overview
  | [topic] =>
    if topic = testLogs then .help .testLogs
    else if topic = help then .help .help
    else .refused .invalidSubcommand
  | _ => .refused .invalidSubcommand

def readEscaped : List Bytes → Refusal
  | [] => .missingSubcommand
  | arg :: _ => if arg = testLogs ∨ arg = help then .unknownArgument else .invalidSubcommand

def readFirst (arg : Bytes) (rest : List Bytes) : Except Early Options :=
  match Word.ofBytes arg with
  | .plain name =>
    if name = testLogs then readAll .nothing .idle rest
    else if name = help then .error (helpOn rest)
    else refuse .invalidSubcommand
  | .escape => refuse (readEscaped rest)
  | .long name value? =>
    if name = help then
      if value?.isSome then refuse .tooManyValues else .error (.help .overview)
    else refuse .unknownArgument
  | .short letters =>
    if letters.head? = some (.char 'h') then .error (.help .overview) else refuse .unknownArgument

/-- Reads a command line, the name of the program first. -/
def read : List Bytes → Except Early Options
  | _ :: first :: rest => readFirst first rest
  | _ => refuse .missingSubcommand

end CommandLine
end SoloRun
