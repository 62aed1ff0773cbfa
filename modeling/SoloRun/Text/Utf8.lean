/-!
UTF-8 between bytes and text. `pieces` cuts any bytes into characters and broken parts, each as long
as it can be; `decode` writes U+FFFD for a broken part, `decode?` refuses at the first one.
-/

namespace SoloRun

abbrev Bytes := List UInt8

namespace Utf8

def encode (s : String) : Bytes :=
  s.toList.flatMap String.utf8EncodeChar

@[simp] theorem encode_append (s t : String) : encode (s ++ t) = encode s ++ encode t := by
  simp [encode]

inductive Piece where
  | char (c : Char)
  | broken (part : Bytes)
  deriving DecidableEq, Repr

def Piece.shown : Piece → Char
  | .char c => c
  | .broken _ => '\uFFFD'

def Piece.bytes : Piece → Bytes
  | .char c => String.utf8EncodeChar c
  | .broken part => part

/-- The character whose whole encoding the bytes start with; a byte below 0x80 is one by itself. -/
def firstChar? : Bytes → Option Char
  | [] => none
  | b :: rest =>
    if b < 0x80 then some (Char.ofNat b.toNat)
    else ((b :: rest).take 4).toByteArray.utf8DecodeChar? 0

/-- How many bytes follow a leading byte, and the range of the first of them. -/
def followers (lead : UInt8) : Nat × UInt8 × UInt8 :=
  if lead < 0xC2 then (0, 0, 0)
  else if lead < 0xE0 then (1, 0x80, 0xBF)
  else if lead = 0xE0 then (2, 0xA0, 0xBF)
  else if lead = 0xED then (2, 0x80, 0x9F)
  else if lead < 0xF0 then (2, 0x80, 0xBF)
  else if lead = 0xF0 then (3, 0x90, 0xBF)
  else if lead < 0xF4 then (3, 0x80, 0xBF)
  else if lead = 0xF4 then (3, 0x80, 0x8F)
  else (0, 0, 0)

/-- How many of the bytes can stand in the encoding that the leading byte opens. -/
def fitting : Nat → UInt8 → UInt8 → Bytes → Nat
  | 0, _, _, _ => 0
  | _, _, _, [] => 0
  | n + 1, low, high, b :: rest =>
    if low ≤ b ∧ b ≤ high then fitting n 0x80 0xBF rest + 1 else 0

def brokenFollowers (lead : UInt8) (rest : Bytes) : Nat :=
  let (count, low, high) := followers lead
  fitting count low high rest

/-- The pieces of the bytes behind those already cut off, which stand last one first. -/
def piecesAfter (done : List Piece) : Bytes → List Piece
  | [] => done.reverse
  | b :: rest =>
    match firstChar? (b :: rest) with
    | some c => piecesAfter (.char c :: done) (rest.drop (c.utf8Size - 1))
    | none =>
      let n := brokenFollowers b rest
      piecesAfter (.broken (b :: rest.take n) :: done) (rest.drop n)
termination_by bytes => bytes.length
decreasing_by all_goals rw [List.length_drop, List.length_cons]; omega

def pieces (bytes : Bytes) : List Piece :=
  piecesAfter [] bytes

theorem piecesAfter_append (done before : List Piece) (bytes : Bytes) :
    piecesAfter (done ++ before) bytes = before.reverse ++ piecesAfter done bytes := by
  fun_induction piecesAfter done bytes with
  | case1 done => simp [piecesAfter]
  | case2 done b rest c h ih => rw [piecesAfter, h]; exact ih
  | case3 done b rest h n ih => rw [piecesAfter, h]; exact ih

theorem piecesAfter_eq (done : List Piece) (bytes : Bytes) :
    piecesAfter done bytes = done.reverse ++ pieces bytes :=
  piecesAfter_append [] done bytes

theorem pieces_nil : pieces [] = [] := by
  simp [pieces, piecesAfter]

theorem pieces_cons (b : UInt8) (rest : Bytes) :
    pieces (b :: rest) =
      match firstChar? (b :: rest) with
      | some c => .char c :: pieces (rest.drop (c.utf8Size - 1))
      | none =>
        .broken (b :: rest.take (brokenFollowers b rest)) ::
          pieces (rest.drop (brokenFollowers b rest)) := by
  rw [pieces, piecesAfter]
  split <;> simp [piecesAfter_eq]

theorem char_of_lead_lt {c : Char} {b : UInt8} {more : Bytes}
    (h : String.utf8EncodeChar c = b :: more) (hb : b < 0x80) : Char.ofNat b.toNat = c := by
  have hlow : b.toNat < 0x80 := UInt8.lt_iff_toNat_lt.1 hb
  simp only [String.utf8EncodeChar] at h
  split at h
  · obtain ⟨rfl, -⟩ := List.cons.inj h
    rw [UInt8.toNat_ofNat', Nat.mod_eq_of_lt (by omega)]
    exact Char.ofNat_toNat c
  · repeat' split at h
    all_goals
      obtain ⟨rfl, -⟩ := List.cons.inj h
      rw [UInt8.toNat_ofNat'] at hlow
      omega

theorem firstChar?_append (c : Char) (rest : Bytes) :
    firstChar? (String.utf8EncodeChar c ++ rest) = some c := by
  have hsize : c.utf8Size ≤ 4 := Char.utf8Size_le_four c
  have hlength : (String.utf8EncodeChar c).length = c.utf8Size := String.length_utf8EncodeChar c
  have hdecode : ((String.utf8EncodeChar c ++ rest).take 4).toByteArray.utf8DecodeChar? 0 =
      some c := by
    rw [List.take_append, List.take_of_length_le (by omega), List.toByteArray_append]
    exact ByteArray.utf8DecodeChar?_utf8EncodeChar_append
  cases h : String.utf8EncodeChar c with
  | nil => have := Char.utf8Size_pos c; simp [h] at hlength; omega
  | cons b more =>
    rw [h] at hdecode
    by_cases hb : b < 0x80
    · simp [firstChar?, hb, char_of_lead_lt h hb]
    · simpa [firstChar?, hb] using hdecode

theorem pieces_char (c : Char) (rest : Bytes) :
    pieces (String.utf8EncodeChar c ++ rest) = .char c :: pieces rest := by
  have hlength : (String.utf8EncodeChar c).length = c.utf8Size := String.length_utf8EncodeChar c
  have hfirst := firstChar?_append c rest
  cases h : String.utf8EncodeChar c with
  | nil => have := Char.utf8Size_pos c; simp [h] at hlength; omega
  | cons b more =>
    rw [h] at hfirst hlength
    rw [List.cons_append] at hfirst
    rw [List.cons_append, pieces_cons, hfirst]
    simp only [List.cons.injEq, true_and]
    congr 1
    rw [← hlength, List.length_cons, Nat.add_sub_cancel, List.drop_left]

theorem pieces_encode (s : String) : pieces (encode s) = s.toList.map .char := by
  rw [encode]
  induction s.toList with
  | nil => simp [pieces_nil]
  | cons c rest ih => rw [List.flatMap_cons, pieces_char, ih, List.map_cons]

def decode (bytes : Bytes) : String :=
  String.ofList ((pieces bytes).map Piece.shown)

@[simp] theorem decode_encode (s : String) : decode (encode s) = s := by
  simp [decode, pieces_encode, Piece.shown, Function.comp_def]

theorem encode_injective {s t : String} (h : encode s = encode t) : s = t := by
  rw [← decode_encode s, h, decode_encode]

/-- Where strict decoding stops: after `validUpTo` good bytes comes a broken part, which is
incomplete if the bytes end inside an encoding that could still have become a character. -/
inductive Fault where
  | broken (size validUpTo : Nat)
  | incomplete (validUpTo : Nat)
  deriving DecidableEq, Repr

def Fault.message : Fault → String
  | .broken size validUpTo => s!"invalid utf-8 sequence of {size} bytes from index {validUpTo}"
  | .incomplete validUpTo => s!"incomplete utf-8 byte sequence from index {validUpTo}"

def Fault.ofPart (validUpTo : Nat) (part : Bytes) (last : Bool) : Fault :=
  match part with
  | lead :: rest =>
    if last && rest.length < (followers lead).1 then .incomplete validUpTo
    else .broken part.length validUpTo
  | [] => .incomplete validUpTo

/-- The characters of the pieces behind those already read, which stand last one first, and take
`n` bytes. -/
def collect (done : List Char) (n : Nat) : List Piece → Except Fault (List Char)
  | [] => .ok done.reverse
  | .char c :: rest => collect (c :: done) (n + c.utf8Size) rest
  | .broken part :: rest => .error (Fault.ofPart n part rest.isEmpty)

theorem collect_chars (done : List Char) (n : Nat) (cs : List Char) :
    collect done n (cs.map .char) = .ok (done.reverse ++ cs) := by
  induction cs generalizing done n with
  | nil => simp [collect]
  | cons c rest ih => simp [collect, ih]

def decode? (bytes : Bytes) : Except Fault String :=
  (collect [] 0 (pieces bytes)).map String.ofList

@[simp] theorem decode?_encode (s : String) : decode? (encode s) = .ok s := by
  simp [decode?, pieces_encode, collect_chars, Except.map]

end Utf8
end SoloRun
