import Mathlib.Data.List.Nodup
import Mathlib.Logic.Function.Basic
import SoloRun.CommandLine
import SoloRun.Proofs.BrokenParts

/-!
Options and switches as they can be spelled on the command line. Reading a spelling gives them one
by one; what is chosen in the end shows which ones were given, but not in which order.
-/

namespace SoloRun.CommandLine

/-- The flags that change a run. -/
inductive Switch where
  | verbose
  | json
  deriving DecidableEq, Repr

def Switch.flag : Switch → Flag
  | .verbose => .verbose
  | .json => .json

/-- One option with its value, or one switch. -/
inductive Gift where
  | value (key : Key) (bytes : Bytes)
  | on (switch : Switch)
  deriving DecidableEq, Repr

namespace Gift

def kind : Gift → Key ⊕ Switch
  | .value key _ => .inl key
  | .on switch => .inr switch

/-- A path is not empty, and the name of a test is a text. -/
def Sound : Gift → Prop
  | .value .manifestPath bytes | .value .logDir bytes => bytes ≠ []
  | .value .integrationTest bytes | .value .propertyTest bytes => ∃ name, bytes = Utf8.encode name
  | .on _ => True

end Gift

def assigned (key : Key) (value : Bytes) : Bytes :=
  Utf8.encode ("--" ++ key.name ++ "=") ++ value

def apart (key : Key) : Bytes :=
  Utf8.encode ("--" ++ key.name)

def long (switch : Switch) : Bytes :=
  Utf8.encode ("--" ++ switch.flag.name)

def letters (switches : List Switch) : String :=
  String.ofList (switches.map (·.flag.letter))

def bundle (switches : List Switch) : Bytes :=
  Utf8.encode ("-" ++ letters switches)

/-- The arguments spell what is given, in this order. A value follows its option's name after `=`,
or in the next argument if it looks like no option; switches can share one argument. -/
inductive Spells : List Gift → List Bytes → Prop where
  | nil : Spells [] []
  | assigned (key : Key) (value : Bytes) {gifts : List Gift} {args : List Bytes} :
    Spells gifts args → Spells (.value key value :: gifts) (assigned key value :: args)
  | apart (key : Key) {value : Bytes} {gifts : List Gift} {args : List Bytes} :
    Word.ofBytes value = .plain value → Spells gifts args →
      Spells (.value key value :: gifts) (apart key :: value :: args)
  | long (switch : Switch) {gifts : List Gift} {args : List Bytes} :
    Spells gifts args → Spells (.on switch :: gifts) (long switch :: args)
  | bundle {switches : List Switch} {gifts : List Gift} {args : List Bytes} :
    switches ≠ [] → Spells gifts args →
      Spells (switches.map .on ++ gifts) (bundle switches :: args)

def kinds : List (Key ⊕ Switch) :=
  Key.all.map .inl ++ [.inr .verbose, .inr .json]

namespace Chosen

def take (chosen : Chosen) : Gift → Except Early Chosen
  | .value key bytes => chosen.give key bytes
  | .on switch => chosen.raise switch.flag

/-- What was given of this kind. -/
def gift? (chosen : Chosen) : Key ⊕ Switch → Option Gift
  | .inl .manifestPath => chosen.manifestPath?.map (.value .manifestPath ·.bytes)
  | .inl .logDir => chosen.logDir?.map (.value .logDir ·.bytes)
  | .inl .integrationTest => chosen.integrationTest?.map (.value .integrationTest <| Utf8.encode ·)
  | .inl .propertyTest => chosen.propertyTest?.map (.value .propertyTest <| Utf8.encode ·)
  | .inr .verbose => if chosen.verbose then some (.on .verbose) else none
  | .inr .json => if chosen.json then some (.on .json) else none

/-- All that was given. -/
def gifts (chosen : Chosen) : List Gift :=
  kinds.filterMap chosen.gift?

end Chosen

theorem ofBytes_assigned (key : Key) (value : Bytes) :
    Word.ofBytes (assigned key value) = .long (Utf8.encode key.name) (some value) := by
  cases key <;> rfl

theorem ofBytes_apart (key : Key) :
    Word.ofBytes (apart key) = .long (Utf8.encode key.name) none := by
  cases key <;> rfl

theorem ofBytes_long (switch : Switch) :
    Word.ofBytes (long switch) = .long (Utf8.encode switch.flag.name) none := by
  cases switch <;> rfl

theorem ofName?_key (key : Key) : Key.ofName? (Utf8.encode key.name) = some key := by
  cases key <;> decide

theorem ofName?_flag (switch : Switch) :
    Key.ofName? (Utf8.encode switch.flag.name) = none ∧
      Flag.ofName? (Utf8.encode switch.flag.name) = some switch.flag := by
  cases switch <;> decide

theorem ofPiece?_letter (switch : Switch) :
    Flag.ofPiece? (.char switch.flag.letter) = some switch.flag := by
  cases switch <;> rfl

theorem encode_letters (switches : List Switch) :
    Utf8.encode (letters switches) =
      switches.flatMap fun switch => String.utf8EncodeChar switch.flag.letter := by
  rw [Utf8.encode, letters, String.toList_ofList, List.flatMap_map]

theorem pieces_letters (switches : List Switch) :
    Utf8.pieces (Utf8.encode (letters switches)) = switches.map (.char ·.flag.letter) := by
  rw [Utf8.pieces_encode, letters, String.toList_ofList, List.map_map]
  rfl

theorem ofBytes_bundle {switches : List Switch} (h : switches ≠ []) :
    Word.ofBytes (bundle switches) = .short (switches.map (.char ·.flag.letter)) := by
  obtain ⟨switch, more, rfl⟩ := List.exists_cons_of_ne_nil h
  rw [← pieces_letters, bundle, Utf8.encode_append, encode_letters]
  cases switch <;> rfl

section Reading

variable (chosen : Chosen) (pending : Pending)

theorem raiseAll_letters (switches : List Switch) :
    raiseAll chosen pending (switches.map (.char ·.flag.letter)) =
      settle chosen pending >>= fun settled => (switches.map .on).foldlM Chosen.take settled := by
  induction switches generalizing chosen pending with
  | nil => simp [raiseAll]
  | cons switch more ih =>
    simp only [List.map_cons, raiseAll, ofPiece?_letter, ih, settle, List.foldlM_cons, Chosen.take]
    rfl

/-- Reading a spelling gives what it spells, one by one. -/
theorem readAll_of_spells {gifts : List Gift} {args : List Bytes} (h : Spells gifts args) :
    readAll chosen pending args = do
      let settled ← settle chosen pending
      let final ← gifts.foldlM Chosen.take settled
      return final.options := by
  induction h generalizing chosen pending with
  | nil => simp [readAll]
  | assigned key value h ih =>
    simp only [readAll, ofBytes_assigned, readLong, ofName?_key, bind_assoc, pure_bind, ih, settle,
      List.foldlM_cons, Chosen.take]
    rfl
  | apart key hvalue h ih =>
    simp only [readAll, ofBytes_apart, readLong, ofName?_key, hvalue, readPlain, bind_assoc,
      pure_bind, ih, settle, List.foldlM_cons, Chosen.take]
    rfl
  | long switch h ih =>
    simp only [readAll, ofBytes_long, readLong, ofName?_flag, bind_assoc, pure_bind, ih, settle,
      List.foldlM_cons, Chosen.take]
    rfl
  | bundle hne h ih =>
    simp only [readAll, ofBytes_bundle hne, raiseAll_letters, bind_assoc, ih, settle,
      List.foldlM_append]
    rfl

end Reading

theorem mem_kinds (kind : Key ⊕ Switch) : kind ∈ kinds := by
  rcases kind with key | switch
  · cases key <;> simp [kinds, Key.all]
  · cases switch <;> simp [kinds]

theorem path_cases (value : Bytes) :
    (∃ path, Chosen.path value = .ok path ∧ path.bytes = value) ∨
      (¬value ≠ [] ∧ ∃ reason, Chosen.path value = refuse reason) := by
  rw [Chosen.path]
  split
  · next h => exact .inr ⟨not_not.mpr h, _, rfl⟩
  · next h => exact .inl ⟨_, rfl, rfl⟩

theorem testName_cases (value : Bytes) :
    (∃ name, Chosen.testName value = .ok name ∧ Utf8.encode name = value) ∨
      ((¬∃ name, value = Utf8.encode name) ∧ ∃ reason, Chosen.testName value = refuse reason) := by
  rw [Chosen.testName]
  cases h : Utf8.decode? value with
  | ok name => exact .inl ⟨name, rfl, (Utf8.decode?_eq_ok_iff.mp h).symm⟩
  | error fault =>
    refine .inr ⟨?_, _, rfl⟩
    rintro ⟨name, rfl⟩
    rw [Utf8.decode?_encode] at h
    cases h

namespace Chosen

variable {chosen other : Chosen} {gift : Gift}

theorem kind_of_gift? {kind : Key ⊕ Switch} (h : chosen.gift? kind = some gift) :
    gift.kind = kind := by
  fun_cases gift? chosen kind <;>
    simp only [gift?, Option.map_eq_some_iff] at h <;> grind [Gift.kind]

theorem mem_gifts : gift ∈ chosen.gifts ↔ chosen.gift? gift.kind = some gift := by
  rw [gifts, List.mem_filterMap]
  constructor
  · rintro ⟨kind, -, h⟩
    rwa [kind_of_gift? h]
  · exact fun h => ⟨gift.kind, mem_kinds _, h⟩

theorem nodup_gifts (chosen : Chosen) : (chosen.gifts.map Gift.kind).Nodup := by
  have hkinds : kinds.Nodup := by simp [kinds, Key.all]
  have heq : chosen.gifts.map Gift.kind = kinds.filter (chosen.gift? · |>.isSome) := by
    rw [gifts, List.map_filterMap, ← List.filterMap_eq_filter]
    refine List.filterMap_congr fun kind _ => ?_
    cases h : chosen.gift? kind with
    | none => simp [h, Option.guard]
    | some gift => simp [h, kind_of_gift? h, Option.guard]
  rw [heq]
  exact hkinds.filter _

theorem eq_of_gift? (h : chosen.gift? = other.gift?) : chosen = other := by
  have hpaths (key : Key) (first second : Path)
      (heq : Gift.value key first.bytes = .value key second.bytes) : first = second :=
    congrArg Path.mk (Gift.value.inj heq).2
  have hnames (key : Key) (first second : String)
      (heq : Gift.value key (Utf8.encode first) = .value key (Utf8.encode second)) :
      first = second :=
    Utf8.encode_injective (Gift.value.inj heq).2
  have hswitches (switch : Switch) (first second : Bool)
      (heq : (if first then some (Gift.on switch) else none) =
        if second then some (Gift.on switch) else none) : first = second := by
    cases first <;> cases second <;> first | rfl | cases heq
  have hmanifest := (Option.map_inj_right (hpaths _)).mp (congrFun h (.inl .manifestPath))
  have hlog := (Option.map_inj_right (hpaths _)).mp (congrFun h (.inl .logDir))
  have hintegration := (Option.map_inj_right (hnames _)).mp (congrFun h (.inl .integrationTest))
  have hproperty := (Option.map_inj_right (hnames _)).mp (congrFun h (.inl .propertyTest))
  have hverbose := hswitches _ _ _ (congrFun h (.inr .verbose))
  have hjson := hswitches _ _ _ (congrFun h (.inr .json))
  obtain ⟨manifestPath?, logDir?, integrationTest?, propertyTest?, verbose, json⟩ := chosen
  obtain ⟨_, _, _, _, _, _⟩ := other
  dsimp only at hmanifest hlog hintegration hproperty hverbose hjson
  rw [hmanifest, hlog, hintegration, hproperty, hverbose, hjson]

/-- What taking a gift can do: it is kept, or it was given before, or it cannot be right. -/
inductive Taken (chosen : Chosen) (gift : Gift) : Except Early Chosen → Prop where
  | kept {after : Chosen} : chosen.gift? gift.kind = none →
    after.gift? = Function.update chosen.gift? gift.kind (some gift) → Taken chosen gift (.ok after)
  | conflict (old : Gift) : chosen.gift? gift.kind = some old →
    Taken chosen gift (refuse .conflict)
  | unsound (reason : Refusal) : ¬gift.Sound → Taken chosen gift (refuse reason)

theorem taken_fill {α : Type} {key : Key} {bytes : Bytes} {place? : Option α} {shown : α → Bytes}
    {value : Except Early α} {set : Option α → Chosen}
    (hplace : chosen.gift? (.inl key) = place?.map (.value key <| shown ·))
    (hset : ∀ x, (set (some x)).gift? =
      Function.update chosen.gift? (.inl key) (some (.value key (shown x))))
    (hvalue : (∃ x, value = .ok x ∧ shown x = bytes) ∨
      (¬(Gift.value key bytes).Sound ∧ ∃ reason, value = refuse reason)) :
    Taken chosen (.value key bytes) ((fill place? value).map set) := by
  cases place? with
  | some old => exact .conflict _ hplace
  | none =>
    rcases hvalue with ⟨x, rfl, rfl⟩ | ⟨hnot, reason, rfl⟩
    · exact .kept hplace (hset x)
    · exact .unsound reason hnot

theorem taken_raise {switch : Switch} {raised : Bool} {after : Chosen}
    (hraised : chosen.gift? (.inr switch) = if raised then some (.on switch) else none)
    (hafter : after.gift? = Function.update chosen.gift? (.inr switch) (some (.on switch))) :
    Taken chosen (.on switch) (if raised then refuse .conflict else .ok after) := by
  cases raised with
  | true => exact .conflict _ hraised
  | false => exact .kept hraised hafter

theorem gift?_ext {first second : Key ⊕ Switch → Option Gift}
    (hmanifest : first (.inl .manifestPath) = second (.inl .manifestPath))
    (hlog : first (.inl .logDir) = second (.inl .logDir))
    (hintegration : first (.inl .integrationTest) = second (.inl .integrationTest))
    (hproperty : first (.inl .propertyTest) = second (.inl .propertyTest))
    (hverbose : first (.inr .verbose) = second (.inr .verbose))
    (hjson : first (.inr .json) = second (.inr .json)) : first = second := by
  funext kind
  match kind with
  | .inl .manifestPath => exact hmanifest
  | .inl .logDir => exact hlog
  | .inl .integrationTest => exact hintegration
  | .inl .propertyTest => exact hproperty
  | .inr .verbose => exact hverbose
  | .inr .json => exact hjson

theorem taken_take (chosen : Chosen) (gift : Gift) : Taken chosen gift (chosen.take gift) := by
  cases gift with
  | value key bytes =>
    cases key with
    | manifestPath =>
      exact taken_fill rfl (fun _ => gift?_ext rfl rfl rfl rfl rfl rfl) (path_cases bytes)
    | logDir =>
      exact taken_fill rfl (fun _ => gift?_ext rfl rfl rfl rfl rfl rfl) (path_cases bytes)
    | integrationTest =>
      exact taken_fill rfl (fun _ => gift?_ext rfl rfl rfl rfl rfl rfl) (testName_cases bytes)
    | propertyTest =>
      exact taken_fill rfl (fun _ => gift?_ext rfl rfl rfl rfl rfl rfl) (testName_cases bytes)
  | on switch =>
    cases switch with
    | verbose => exact taken_raise rfl (gift?_ext rfl rfl rfl rfl rfl rfl)
    | json => exact taken_raise rfl (gift?_ext rfl rfl rfl rfl rfl rfl)

theorem perm_of_update {after : Chosen} (hnone : chosen.gift? gift.kind = none)
    (h : after.gift? = Function.update chosen.gift? gift.kind (some gift)) :
    after.gifts.Perm (gift :: chosen.gifts) := by
  have hmem : ∀ other : Gift, other ∈ after.gifts ↔ other ∈ gift :: chosen.gifts := by
    intro other
    rw [List.mem_cons, mem_gifts, mem_gifts, h, Function.update_apply]
    split
    · next hkind =>
      rw [hkind, hnone, Option.some_inj, eq_comm]
      simp
    · next hkind =>
      refine ⟨.inr, fun hor => hor.resolve_left ?_⟩
      rintro rfl
      exact hkind rfl
  refine (List.perm_ext_iff_of_nodup after.nodup_gifts.of_map ?_).mpr hmem
  refine List.nodup_cons.mpr ⟨?_, chosen.nodup_gifts.of_map⟩
  rw [mem_gifts, hnone]
  nofun

theorem eq_of_perm (h : chosen.gifts.Perm other.gifts) : chosen = other := by
  refine eq_of_gift? (funext fun kind => Option.ext fun gift => ?_)
  constructor
  · intro hgift
    obtain rfl := kind_of_gift? hgift
    exact mem_gifts.mp (h.mem_iff.mp (mem_gifts.mpr hgift))
  · intro hgift
    obtain rfl := kind_of_gift? hgift
    exact mem_gifts.mp (h.mem_iff.mpr (mem_gifts.mpr hgift))

theorem exists_shown {α : Type} {key : Key} {bytes : Bytes} {place? : Option α}
    {shown : α → Bytes}
    (h : place?.map (Gift.value key <| shown ·) = some (.value key bytes)) :
    ∃ x, place? = some x ∧ shown x = bytes := by
  obtain ⟨x, hx, heq⟩ := Option.map_eq_some_iff.mp h
  exact ⟨x, hx, (Gift.value.inj heq).2⟩

theorem sound_of_mem_gifts (hmanifest : chosen.manifestPath? ≠ some ⟨[]⟩)
    (hlog : chosen.logDir? ≠ some ⟨[]⟩) (h : gift ∈ chosen.gifts) : gift.Sound := by
  rw [mem_gifts] at h
  match gift with
  | .on _ => exact trivial
  | .value .manifestPath _ =>
    obtain ⟨path, hpath, rfl⟩ := exists_shown h
    exact fun hnil => hmanifest (hpath.trans (congrArg (some <| Path.mk ·) hnil))
  | .value .logDir _ =>
    obtain ⟨path, hpath, rfl⟩ := exists_shown h
    exact fun hnil => hlog (hpath.trans (congrArg (some <| Path.mk ·) hnil))
  | .value .integrationTest _ | .value .propertyTest _ =>
    obtain ⟨name, -, rfl⟩ := exists_shown h
    exact ⟨name, rfl⟩

/-- Several gifts are either all kept, or refused; if each could be right, then because two of them
are of one kind. -/
theorem foldlM_take_cases (chosen : Chosen) (gifts : List Gift) :
    (∃ final, gifts.foldlM take chosen = .ok final ∧
      final.gifts.Perm (gifts ++ chosen.gifts)) ∨
    ∃ reason, gifts.foldlM take chosen = refuse reason ∧
      ((∀ gift ∈ gifts, gift.Sound) →
        reason = .conflict ∧ ¬((gifts ++ chosen.gifts).map Gift.kind).Nodup) := by
  induction gifts generalizing chosen with
  | nil => exact .inl ⟨chosen, rfl, .refl _⟩
  | cons gift more ih =>
    rw [List.foldlM_cons]
    have htaken := taken_take chosen gift
    generalize chosen.take gift = result at htaken
    cases htaken with
    | @kept after hnone hupdate =>
      have hperm : (more ++ after.gifts).Perm (gift :: more ++ chosen.gifts) :=
        ((perm_of_update hnone hupdate).append_left more).trans List.perm_middle
      rcases ih after with ⟨final, hfinal, hgifts⟩ | ⟨reason, hreason, hsound⟩
      · exact .inl ⟨final, hfinal, hgifts.trans hperm⟩
      · refine .inr ⟨reason, hreason, fun h => ?_⟩
        obtain ⟨hconflict, hnodup⟩ := hsound fun other hother => h other (.tail _ hother)
        exact ⟨hconflict, fun h => hnodup ((hperm.map _).nodup_iff.mpr h)⟩
    | conflict old hold =>
      refine .inr ⟨_, rfl, fun _ => ⟨rfl, fun hnodup => ?_⟩⟩
      have hmem : old ∈ chosen.gifts := by
        rw [mem_gifts, kind_of_gift? hold, hold]
      refine (List.nodup_cons.mp hnodup).1 ?_
      rw [← kind_of_gift? hold]
      exact List.mem_map_of_mem (List.mem_append_right _ hmem)
    | unsound reason hnot =>
      exact .inr ⟨reason, rfl, fun h => absurd (h gift List.mem_cons_self) hnot⟩

end Chosen

theorem read_of_spells (program : Bytes) {gifts : List Gift} {args : List Bytes}
    (h : Spells gifts args) :
    read (program :: testLogs :: args) =
      (gifts.foldlM Chosen.take .nothing).map Chosen.options := by
  have hread : read (program :: testLogs :: args) = readAll .nothing .idle args := rfl
  rw [hread, readAll_of_spells _ _ h]
  change (gifts.foldlM Chosen.take .nothing >>= fun final => pure final.options) = _
  cases gifts.foldlM Chosen.take .nothing <;> rfl

/-- Arguments that spell a choice are read back as that choice, in whatever order and spelling they
give it, and what they do not choose stands at its default. Arguments that spell two gifts of one
kind are refused. -/
theorem reads_back_in_every_order (program : Bytes) {gifts : List Gift} {args : List Bytes}
    (hspells : Spells gifts args) :
    (∀ chosen : Chosen, chosen.manifestPath? ≠ some ⟨[]⟩ → chosen.logDir? ≠ some ⟨[]⟩ →
      gifts.Perm chosen.gifts →
        read (program :: testLogs :: args) = .ok {
          manifestPath? := chosen.manifestPath?
          logDir? := chosen.logDir?
          integrationTest := chosen.integrationTest?.getD "integration_tests"
          propertyTest := chosen.propertyTest?.getD "prop_tests"
          verbose := chosen.verbose
          json := chosen.json }) ∧
    (¬(gifts.map Gift.kind).Nodup →
      ∃ reason, read (program :: testLogs :: args) = .error (.refused reason) ∧
        ((∀ gift ∈ gifts, gift.Sound) → reason = .conflict)) := by
  rw [read_of_spells program hspells]
  have hcases := Chosen.foldlM_take_cases .nothing gifts
  have hnothing : gifts ++ Chosen.gifts .nothing = gifts := List.append_nil gifts
  rw [hnothing] at hcases
  constructor
  · intro chosen hmanifest hlog hperm
    rcases hcases with ⟨final, hfinal, hgifts⟩ | ⟨reason, -, hsound⟩
    · obtain rfl := Chosen.eq_of_perm (hgifts.trans hperm)
      rw [hfinal]
      rfl
    · obtain ⟨-, hnodup⟩ := hsound fun gift hgift =>
        Chosen.sound_of_mem_gifts hmanifest hlog (hperm.mem_iff.mp hgift)
      exact absurd ((hperm.map _).nodup_iff.mpr chosen.nodup_gifts) hnodup
  · intro hnodup
    rcases hcases with ⟨final, -, hgifts⟩ | ⟨reason, hreason, hsound⟩
    · exact absurd ((hgifts.map _).nodup_iff.mp final.nodup_gifts) hnodup
    · rw [hreason]
      exact ⟨reason, rfl, fun h => (hsound h).1⟩

/-- A directory that is no text and looks like a switch, a test's name that looks like an option;
then the directory once more. -/
theorem reads_back_awkward_values :
    let log : Bytes := [0x2D, 0xFF, 0x3D, 0x3D]
    let name := "--json=b"
    let args := [long .json, assigned .logDir log, assigned .propertyTest (Utf8.encode name),
      bundle [.verbose]]
    read ([] :: testLogs :: args) = .ok ⟨none, some ⟨log⟩, "integration_tests", name, true, true⟩ ∧
      read ([] :: testLogs :: (args ++ [apart .logDir, Utf8.encode "logs"])) =
        .error (.refused .conflict) := by
  intro log name args
  have hname : Word.ofBytes (Utf8.encode "logs") = .plain (Utf8.encode "logs") := rfl
  have hone : Spells _ args :=
    .long .json (.assigned .logDir log (.assigned .propertyTest (Utf8.encode name)
      (.bundle (List.cons_ne_nil Switch.verbose []) .nil)))
  have htwo : Spells _ (args ++ [apart .logDir, Utf8.encode "logs"]) :=
    .long .json (.assigned .logDir log (.assigned .propertyTest (Utf8.encode name)
      (.bundle (List.cons_ne_nil Switch.verbose []) (.apart .logDir hname .nil))))
  refine ⟨(reads_back_in_every_order [] hone).1 ⟨none, some ⟨log⟩, none, some name, true, true⟩
    (by decide) (by decide) (by decide), ?_⟩
  obtain ⟨reason, hread, hreason⟩ := (reads_back_in_every_order [] htwo).2 (by simp [Gift.kind])
  rw [hread, hreason]
  simp only [List.map_cons, List.map_nil, List.cons_append, List.nil_append, List.forall_mem_cons]
  exact ⟨trivial, List.cons_ne_nil _ _, ⟨name, rfl⟩, trivial, List.cons_ne_nil _ _, nofun⟩

end SoloRun.CommandLine
