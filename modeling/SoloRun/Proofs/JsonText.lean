import SoloRun.Proofs.Numerals
import SoloRun.Proofs.Quoting

/-!
JSON text: a value whose numbers are numerals reads back from its text, which has no line feed.
-/

namespace SoloRun.Json

mutual

/-- All numbers in it are numerals. -/
def Numeric : Json → Prop
  | .number text => IsNumeral text
  | .array items => NumericItems items
  | .object members => NumericMembers members
  | _ => True

def NumericItems : List Json → Prop
  | [] => True
  | item :: more => Numeric item ∧ NumericItems more

def NumericMembers : List (String × Json) → Prop
  | [] => True
  | (_, value) :: more => Numeric value ∧ NumericMembers more

end

section Heads

variable {c d : Char} {fuel : Nat} {text rest : List Char}

theorem skip_cons (h : isBlank c = false) (rest : List Char) : skip (c :: rest) = c :: rest := by
  simp [skip, h]

/-- What a number starts with. -/
def Leads (c : Char) : Prop :=
  c.isDigit = true ∨ c = '-'

theorem Leads.ne (h : Leads c) (hdigit : ¬ d.isDigit = true) (hminus : d ≠ '-') : c ≠ d := by
  rintro rfl
  exact h.elim hdigit hminus

theorem Leads.isBlank (h : Leads c) : isBlank c = false := by
  simp [Json.isBlank, h.ne (d := ' ') (by decide) (by decide),
    h.ne (d := '\n') (by decide) (by decide), h.ne (d := '\t') (by decide) (by decide),
    h.ne (d := '\r') (by decide) (by decide)]

theorem Numeral.Proper.leads {numeral : Numeral} (h : numeral.Proper) :
    ∃ c more, numeral.text = c :: more ∧ Leads c := by
  obtain ⟨minus, whole, fraction, exponent⟩ := numeral
  obtain ⟨hminus, hwhole, -, -⟩ := h
  rcases hminus with rfl | rfl
  · cases whole with
    | nil => exact absurd rfl hwhole.ne_nil
    | cons digit more => exact ⟨digit, _, rfl, .inl (hwhole.digits digit List.mem_cons_self)⟩
  · exact ⟨'-', _, rfl, .inr rfl⟩

theorem tree?_array (hblank : isBlank c = false) (hc : c ≠ ']') :
    tree? (fuel + 1) ('[' :: c :: rest) =
      (items? fuel (c :: rest)).map fun (items, rest) => (.array items, rest) := by
  simp [tree?, skip_cons (show isBlank '[' = false by decide), skip_cons hblank, hc]

theorem tree?_object (hblank : isBlank c = false) (hc : c ≠ '\x7d') :
    tree? (fuel + 1) ('\x7b' :: c :: rest) =
      (members? fuel (c :: rest)).map fun (members, rest) => (.object members, rest) := by
  simp [tree?, skip_cons (show isBlank '\x7b' = false by decide), skip_cons hblank, hc]

theorem tree?_quote : tree? (fuel + 1) ('"' :: rest) =
    (inside? rest).map fun (inner, rest) => (.string inner, rest) := by
  simp (disch := decide) [tree?, skip_cons]

theorem tree?_number (h : Leads c) :
    tree? (fuel + 1) (c :: rest) =
      (numeral? (c :: rest)).map fun (numeral, rest) => (.number numeral, rest) := by
  have hmarks : c ≠ '\x7b' ∧ c ≠ '[' ∧ c ≠ '"' ∧ c ≠ 'n' ∧ c ≠ 't' ∧ c ≠ 'f' :=
    ⟨h.ne (by decide) (by decide), h.ne (by decide) (by decide), h.ne (by decide) (by decide),
      h.ne (by decide) (by decide), h.ne (by decide) (by decide), h.ne (by decide) (by decide)⟩
  simp [tree?, skip_cons h.isBlank, hmarks]

/-- The text of a value starts neither with a blank nor with the end of an array. -/
theorem written_leads {value : Json} (h : value.Numeric) :
    ∃ c more, written value = c :: more ∧ isBlank c = false ∧ c ≠ ']' := by
  cases value with
  | null => exact ⟨'n', _, rfl, rfl, by decide⟩
  | bool value => cases value <;> exact ⟨_, _, rfl, by decide, by decide⟩
  | number text =>
    obtain ⟨numeral, hproper, htext⟩ := h
    obtain ⟨c, more, hleads, hc⟩ := hproper.leads
    exact ⟨c, more, htext.symm.trans hleads, hc.isBlank, hc.ne (by decide) (by decide)⟩
  | string text => exact ⟨'"', _, rfl, rfl, by decide⟩
  | array items => exact ⟨'[', _, rfl, rfl, by decide⟩
  | object members => exact ⟨'\x7b', _, rfl, rfl, by decide⟩

end Heads

/-- A text is read as the value, up to what comes after it. -/
def Reads (fuel : Nat) (text : List Char) (value : Json) : Prop :=
  ∀ rest, Closes rest →
    ∃ tree, tree? fuel (text ++ rest) = some (tree, rest) ∧ tree.value? = some value

def ReadsItems (fuel : Nat) (text : List Char) (items : List Json) : Prop :=
  ∀ rest, ∃ trees, items? fuel (text ++ ']' :: rest) = some (trees, rest) ∧
    Tree.values? trees = some items

def ReadsMembers (fuel : Nat) (text : List Char) (members : List (String × Json)) : Prop :=
  ∀ rest, ∃ trees, members? fuel (text ++ '\x7d' :: rest) = some (trees, rest) ∧
    Tree.valuesByName? trees = some members

section Steps

variable {fuel : Nat} {text more : List Char}

theorem closes_cons {c : Char} (h : c = ',' ∨ c = ']' ∨ c = '\x7d') (rest : List Char) :
    Closes (c :: rest) := by
  intro d hd
  obtain rfl := Option.some.inj hd
  rcases h with rfl | rfl | rfl <;> decide

theorem quoted_append (text : String) (rest : List Char) :
    quoted text ++ rest = '"' :: (text.toList.flatMap escaped ++ '"' :: rest) := by
  simp [quoted]

theorem reads_null : Reads (fuel + 1) "null".toList .null := by
  intro rest _
  refine ⟨.null, ?_, rfl⟩
  simp (disch := decide) [tree?, skip_cons, word?]
  rfl

theorem reads_bool (value : Bool) :
    Reads (fuel + 1) (if value then "true" else "false").toList (.bool value) := by
  intro rest _
  refine ⟨.bool value, ?_, rfl⟩
  cases value <;> simp (disch := decide) [tree?, skip_cons, word?] <;> rfl

theorem reads_number {text : String} (h : IsNumeral text) :
    Reads (fuel + 1) text.toList (.number text) := by
  intro rest hrest
  obtain ⟨numeral, hproper, htext⟩ := h
  obtain ⟨c, more, hleads, hc⟩ := hproper.leads
  refine ⟨.number numeral, ?_, ?_⟩
  · have hread := hproper.numeral?_append hrest
    rw [← htext, hleads, List.cons_append] at *
    rw [tree?_number hc, hread]
    rfl
  · rw [Tree.value?, htext, String.ofList_toList]

theorem reads_string (text : String) : Reads (fuel + 1) (quoted text) (.string text) := by
  intro rest hrest
  refine ⟨.string (text.toList.flatMap escaped), ?_, ?_⟩
  · rw [quoted_append, tree?_quote, inside?_quoted]
    rfl
  · rw [Tree.value?, text?_quoted, Option.map_some, String.ofList_toList]

theorem reads_emptyArray : Reads (fuel + 1) ['[', ']'] (.array []) := by
  intro rest _
  refine ⟨.array [], ?_, rfl⟩
  simp (disch := decide) [tree?, skip_cons]

theorem reads_emptyObject : Reads (fuel + 1) ['\x7b', '\x7d'] (.object []) := by
  intro rest _
  refine ⟨.object [], ?_, rfl⟩
  simp (disch := decide) [tree?, skip_cons]

theorem reads_array {items : List Json}
    (hhead : ∃ c rest, text = c :: rest ∧ isBlank c = false ∧ c ≠ ']')
    (h : ReadsItems fuel text items) : Reads (fuel + 1) ('[' :: text ++ [']']) (.array items) := by
  intro rest hrest
  obtain ⟨c, more, rfl, hblank, hc⟩ := hhead
  obtain ⟨trees, hread, hvalues⟩ := h rest
  refine ⟨.array trees, ?_, ?_⟩
  · rw [List.append_assoc, List.singleton_append, List.cons_append, List.cons_append,
      tree?_array hblank hc]
    rw [List.cons_append] at hread
    rw [hread]
    rfl
  · rw [Tree.value?, hvalues]
    rfl

theorem reads_object {members : List (String × Json)}
    (h : ReadsMembers fuel ('"' :: text) members) :
    Reads (fuel + 1) ('\x7b' :: '"' :: text ++ ['\x7d']) (.object members) := by
  intro rest hrest
  obtain ⟨trees, hread, hvalues⟩ := h rest
  refine ⟨.object trees, ?_, ?_⟩
  · rw [List.append_assoc, List.singleton_append, List.cons_append, List.cons_append,
      tree?_object (by decide) (by decide)]
    rw [List.cons_append] at hread
    rw [hread]
    rfl
  · rw [Tree.value?, hvalues]
    rfl

theorem readsItems_one {item : Json} (h : Reads fuel text item) :
    ReadsItems (fuel + 1) text [item] := by
  intro rest
  obtain ⟨tree, hread, hvalue⟩ := h (']' :: rest) (closes_cons (by decide) rest)
  refine ⟨[tree], ?_, ?_⟩
  · simp (disch := decide) [items?, hread, skip_cons]
  · simp [Tree.values?, hvalue]

theorem readsItems_more {item : Json} {items : List Json} (h : Reads fuel text item)
    (hmore : ReadsItems fuel more items) :
    ReadsItems (fuel + 1) (text ++ ',' :: more) (item :: items) := by
  intro rest
  obtain ⟨tree, hread, hvalue⟩ := h (',' :: (more ++ ']' :: rest)) (closes_cons (by decide) _)
  obtain ⟨trees, htrees, hvalues⟩ := hmore rest
  refine ⟨tree :: trees, ?_, ?_⟩
  · simp (disch := decide) [items?, hread, htrees, skip_cons]
  · simp [Tree.values?, hvalue, hvalues]

theorem readsMembers_one {name : String} {value : Json} (h : Reads fuel text value) :
    ReadsMembers (fuel + 1) (quoted name ++ ':' :: text) [(name, value)] := by
  intro rest
  obtain ⟨tree, hread, hvalue⟩ := h ('\x7d' :: rest) (closes_cons (by decide) rest)
  refine ⟨[(name.toList.flatMap escaped, tree)], ?_, ?_⟩
  · simp (disch := decide) [members?, quoted_append, name?, inside?_quoted, hread, skip_cons]
  · simp [Tree.valuesByName?, text?_quoted, hvalue]

theorem readsMembers_more {name : String} {value : Json} {members : List (String × Json)}
    (h : Reads fuel text value) (hmore : ReadsMembers fuel more members) :
    ReadsMembers (fuel + 1) (quoted name ++ ':' :: text ++ ',' :: more)
      ((name, value) :: members) := by
  intro rest
  obtain ⟨tree, hread, hvalue⟩ := h (',' :: (more ++ '\x7d' :: rest)) (closes_cons (by decide) _)
  obtain ⟨trees, htrees, hvalues⟩ := hmore rest
  refine ⟨(name.toList.flatMap escaped, tree) :: trees, ?_, ?_⟩
  · simp (disch := decide) [members?, quoted_append, name?, inside?_quoted, hread, htrees,
      skip_cons]
  · simp [Tree.valuesByName?, text?_quoted, hvalue, hvalues]

end Steps

theorem writtenItems_more (item next : Json) (more : List Json) :
    writtenItems (item :: next :: more) = written item ++ ',' :: writtenItems (next :: more) := rfl

theorem writtenMembers_more (name : String) (value : Json) (next : String × Json)
    (more : List (String × Json)) : writtenMembers ((name, value) :: next :: more) =
      quoted name ++ ':' :: written value ++ ',' :: writtenMembers (next :: more) := rfl

theorem writtenItems_leads {item : Json} (more : List Json) (h : item.Numeric) :
    ∃ c rest, writtenItems (item :: more) = c :: rest ∧ isBlank c = false ∧ c ≠ ']' := by
  obtain ⟨c, rest, hwritten, hc⟩ := written_leads h
  cases more with
  | nil => exact ⟨c, rest, hwritten, hc⟩
  | cons next more => exact ⟨c, _, by rw [writtenItems_more, hwritten]; rfl, hc⟩

theorem writtenMembers_leads (name : String) (value : Json) (more : List (String × Json)) :
    ∃ rest, writtenMembers ((name, value) :: more) = '"' :: rest := by
  cases more <;> exact ⟨_, rfl⟩

theorem length_quoted (text : String) : 2 ≤ (quoted text).length := by
  simp [quoted]

theorem length_array (items : List Json) :
    (written (.array items)).length = (writtenItems items).length + 2 := by
  simp [written]

theorem length_object (members : List (String × Json)) :
    (written (.object members)).length = (writtenMembers members).length + 2 := by
  simp [written]

theorem exists_fuel {value : Json} {fuel : Nat} (h : value.Numeric)
    (hfuel : (written value).length ≤ fuel) : ∃ n, fuel = n + 1 := by
  obtain ⟨c, more, hwritten, -⟩ := written_leads h
  rw [hwritten, List.length_cons] at hfuel
  exact Nat.exists_eq_add_one_of_ne_zero (by omega)

-- What stands in brackets is shorter than the text with them, and a name takes more characters than
-- it takes steps, so the length of a text is fuel enough to read it.
mutual

theorem reads_written : ∀ {fuel : Nat} (value : Json), value.Numeric →
    (written value).length ≤ fuel + 1 → Reads (fuel + 1) (written value) value
  | _, .null, _, _ => reads_null
  | _, .bool value, _, _ => reads_bool value
  | _, .number _, h, _ => reads_number h
  | _, .string text, _, _ => reads_string text
  | _, .array [], _, _ => reads_emptyArray
  | _, .object [], _, _ => reads_emptyObject
  | fuel, .array (item :: more), h, hfuel => by
    rw [length_array] at hfuel
    obtain ⟨n, rfl⟩ := Nat.exists_eq_add_one_of_ne_zero (by omega : fuel ≠ 0)
    exact reads_array (writtenItems_leads more h.1) (readsItems_written item more h (by omega))
  | fuel, .object ((name, value) :: more), h, hfuel => by
    rw [length_object] at hfuel
    obtain ⟨rest, hleads⟩ := writtenMembers_leads name value more
    have hlength := congrArg List.length hleads
    rw [List.length_cons] at hlength
    obtain ⟨n, rfl⟩ := Nat.exists_eq_add_one_of_ne_zero (by omega : fuel ≠ 0)
    have hmembers : ReadsMembers (n + 1) _ _ := readsMembers_written name value more h (by omega)
    rw [hleads] at hmembers
    rw [written, hleads]
    exact reads_object hmembers

theorem readsItems_written : ∀ {fuel : Nat} (item : Json) (more : List Json),
    NumericItems (item :: more) → (writtenItems (item :: more)).length ≤ fuel →
      ReadsItems (fuel + 1) (writtenItems (item :: more)) (item :: more)
  | fuel, item, [], h, hfuel => by
    obtain ⟨n, rfl⟩ := exists_fuel h.1 hfuel
    exact readsItems_one (reads_written item h.1 hfuel)
  | fuel, item, next :: more, h, hfuel => by
    rw [writtenItems_more, List.length_append, List.length_cons] at hfuel
    obtain ⟨n, rfl⟩ := exists_fuel h.1 (by omega : _ ≤ fuel)
    exact readsItems_more (reads_written item h.1 (by omega))
      (readsItems_written next more h.2 (by omega))

theorem readsMembers_written : ∀ {fuel : Nat} (name : String) (value : Json)
    (more : List (String × Json)), NumericMembers ((name, value) :: more) →
      (writtenMembers ((name, value) :: more)).length ≤ fuel + 1 →
      ReadsMembers (fuel + 1) (writtenMembers ((name, value) :: more)) ((name, value) :: more)
  | fuel, name, value, [], h, hfuel => by
    rw [writtenMembers, List.length_append, List.length_cons] at hfuel
    have hname := length_quoted name
    obtain ⟨n, rfl⟩ := exists_fuel h.1 (by omega : _ ≤ fuel)
    exact readsMembers_one (reads_written value h.1 (by omega))
  | fuel, name, value, (other, item) :: more, h, hfuel => by
    rw [writtenMembers_more, List.length_append, List.length_append, List.length_cons,
      List.length_cons] at hfuel
    have hname := length_quoted name
    obtain ⟨n, rfl⟩ := exists_fuel h.1 (by omega : _ ≤ fuel)
    exact readsMembers_more (reads_written value h.1 (by omega))
      (readsMembers_written other item more h.2 (by omega))

end

theorem read?_written {value : Json} (h : value.Numeric) : read? (written value) = some value := by
  have hreads : Reads (2 * (written value).length + 2) (written value) value :=
    reads_written value h (by omega)
  obtain ⟨tree, hread, hvalue⟩ := hreads [] (by simp [Closes])
  rw [List.append_nil] at hread
  simp [read?, parsed?, hread, skip, hvalue]

mutual

theorem lineFeed_not_mem_written : ∀ (value : Json), value.Numeric → '\n' ∉ written value
  | .null, _ => by decide
  | .bool value, _ => by cases value <;> decide
  | .number _, h => IsNumeral.oneLine h
  | .string text, _ => lineFeed_not_mem_quoted text
  | .array items, h => by
    have hitems := lineFeed_not_mem_writtenItems items h
    simpa [written] using hitems
  | .object members, h => by
    have hmembers := lineFeed_not_mem_writtenMembers members h
    simpa [written] using hmembers

theorem lineFeed_not_mem_writtenItems : ∀ (items : List Json), NumericItems items →
    '\n' ∉ writtenItems items
  | [], _ => List.not_mem_nil
  | [item], h => lineFeed_not_mem_written item h.1
  | item :: next :: more, h => by
    have hitem := lineFeed_not_mem_written item h.1
    have hmore := lineFeed_not_mem_writtenItems (next :: more) h.2
    simp [writtenItems_more, hitem, hmore]

theorem lineFeed_not_mem_writtenMembers : ∀ (members : List (String × Json)),
    NumericMembers members → '\n' ∉ writtenMembers members
  | [], _ => List.not_mem_nil
  | [(name, value)], h => by
    have hvalue := lineFeed_not_mem_written value h.1
    simp [writtenMembers, lineFeed_not_mem_quoted, hvalue]
  | (name, value) :: next :: more, h => by
    have hvalue := lineFeed_not_mem_written value h.1
    have hmore := lineFeed_not_mem_writtenMembers (next :: more) h.2
    simp [writtenMembers_more, lineFeed_not_mem_quoted, hvalue, hmore]

end
end SoloRun.Json
