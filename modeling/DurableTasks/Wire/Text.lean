import DurableTasks.Wire.Bytes

/-!
JavaScript strings, which are sequences of UTF-16 code units, and their UTF-8
bytes. What is not well formed is replaced by U+FFFD both ways.
-/

namespace DurableTasks.Wire

abbrev JsString := List UInt16

def isHighSurrogate (u : UInt16) : Bool := 0xd800 ≤ u && u < 0xdc00

def isLowSurrogate (u : UInt16) : Bool := 0xdc00 ≤ u && u < 0xe000

def chars : JsString → List Char
  | [] => []
  | [u] => if isHighSurrogate u || isLowSurrogate u then ['�'] else [Char.ofNat u.toNat]
  | u :: v :: s =>
    if isHighSurrogate u && isLowSurrogate v then
      Char.ofNat (0x10000 + (u.toNat - 0xd800) * 0x400 + (v.toNat - 0xdc00)) :: chars s
    else if isHighSurrogate u || isLowSurrogate u then '�' :: chars (v :: s)
    else Char.ofNat u.toNat :: chars (v :: s)

def units (c : Char) : JsString :=
  if c.toNat < 0x10000 then [.ofNat c.toNat]
  else [.ofNat (0xd800 + (c.toNat - 0x10000) / 0x400),
    .ofNat (0xdc00 + (c.toNat - 0x10000) % 0x400)]

def toWellFormed (s : JsString) : JsString := (chars s).flatMap units

/-- `Buffer.from(s, "utf8")`. -/
def toUtf8 (s : JsString) : Bytes := (chars s).flatMap String.utf8EncodeChar

/-- How many bytes after `b` are replaced together with it, where they make no
character: as many as could begin one. -/
def replaced (b : UInt8) (l : Bytes) : Nat :=
  let more := if 0xc2 ≤ b && b < 0xe0 then 1 else if 0xe0 ≤ b && b < 0xf0 then 2
    else if 0xf0 ≤ b && b < 0xf5 then 3 else 0
  let low : UInt8 := if b = 0xe0 then 0xa0 else if b = 0xf0 then 0x90 else 0x80
  let high : UInt8 := if b = 0xed then 0xa0 else if b = 0xf4 then 0x90 else 0xc0
  if (l.take more).head?.any fun c => low ≤ c && c < high then
    1 + ((l.take more).tail.takeWhile fun c => 0x80 ≤ c && c < 0xc0).length
  else 0

/-- `toString("utf8")`. -/
def ofUtf8 : Bytes → JsString
  | [] => []
  | b :: l =>
    match (b :: l).toByteArray.utf8DecodeChar? 0 with
    | some c => units c ++ ofUtf8 (l.drop (c.utf8Size - 1))
    | none => 0xfffd :: ofUtf8 (l.drop (replaced b l))
  termination_by l => l.length

theorem ofUtf8_append (c : Char) (l : Bytes) :
    ofUtf8 (String.utf8EncodeChar c ++ l) = units c ++ ofUtf8 l := by
  obtain ⟨b, l', hc⟩ := List.exists_cons_of_ne_nil (String.utf8EncodeChar_ne_nil (c := c))
  have hdecode : (b :: (l' ++ l)).toByteArray.utf8DecodeChar? 0 = some c := by
    rw [← List.cons_append, ← hc, List.toByteArray_append]
    exact ByteArray.utf8DecodeChar?_utf8EncodeChar_append
  have hlen : c.utf8Size - 1 = l'.length := by
    rw [← String.length_utf8EncodeChar, hc, List.length_cons, Nat.add_sub_cancel]
  rw [hc, List.cons_append, ofUtf8]
  simp only [hdecode, hlen, List.drop_left]

/-- What is written is read back, once it is well formed. -/
theorem ofUtf8_toUtf8 (s : JsString) : ofUtf8 (toUtf8 s) = toWellFormed s := by
  unfold toUtf8 toWellFormed
  induction chars s with
  | nil => rw [List.flatMap_nil, List.flatMap_nil, ofUtf8]
  | cons c cs ih => rw [List.flatMap_cons, List.flatMap_cons, ofUtf8_append, ih]

theorem length_toUtf8_le (s : JsString) : (toUtf8 s).length ≤ 4 * s.length := by
  have hchars : (chars s).length ≤ s.length := by
    fun_induction chars s <;> grind
  calc (toUtf8 s).length ≤ 4 * (chars s).length := by
        unfold toUtf8
        induction chars s with
        | nil => simp
        | cons c cs ih =>
          have := c.utf8Size_le_four
          rw [List.flatMap_cons, List.length_append, String.length_utf8EncodeChar, List.length_cons]
          omega
    _ ≤ 4 * s.length := Nat.mul_le_mul_left 4 hchars

theorem length_ofUtf8_le (l : Bytes) : (ofUtf8 l).length ≤ 2 * l.length := by
  fun_induction ofUtf8 l with
  | case1 => simp
  | case2 b l c hc ih =>
    have : (units c).length ≤ 2 := by
      unfold units
      split_ifs <;> simp
    simp at ih ⊢
    omega
  | case3 b l hc ih =>
    simp at ih ⊢
    omega

end DurableTasks.Wire
