import Mathlib.Data.String.Basic

/-!
# The order of texts by their bytes

Texts compare by their characters, and characters by their code points. The main statement
is that comparing the bytes of two texts in UTF-8 comes to the same. Of two characters the
greater one has the greater leading byte, or else a greater byte at the first place where
they differ, so what stands behind the two characters does not matter.
-/

namespace GrammarCensus

/-- The bytes of a text in UTF-8. -/
def utf8Bytes (text : String) : List UInt8 :=
  text.toByteArray.data.toList

/-- The bytes of a text are those of its characters, one after the other. -/
theorem utf8Bytes_eq_flatMap (text : String) :
    utf8Bytes text = text.toList.flatMap String.utf8EncodeChar := by
  rw [utf8Bytes,←String.utf8Encode_toList,List.utf8Encode,List.toList_data_toByteArray]

/-- The last bytes of a character: `count` digits of its code point to the base 64. -/
def continuationBytes : Nat → Nat → List UInt8
  | 0,_ => []
  | count+1,code => continuationBytes count (code/64)++[UInt8.ofNat (code%64+128)]

/-- Of two code points that differ in their last digits only, the greater one has a greater
byte at the first place where they differ. -/
theorem continuationBytes_append_lt {count code code' : Nat} (hlt : code < code')
    (hfront : code/64^count = code'/64^count) (rest rest' : List UInt8) :
    continuationBytes count code++rest < continuationBytes count code'++rest' := by
  induction count generalizing code code' rest rest' with
  | zero =>
    rw [Nat.pow_zero,Nat.div_one,Nat.div_one] at hfront
    exact absurd hfront (Nat.ne_of_lt hlt)
  | succ count ih =>
    rw [continuationBytes,continuationBytes,List.append_assoc,List.append_assoc]
    by_cases heq : code/64 = code'/64
    · have hlast : UInt8.ofNat (code%64+128) < UInt8.ofNat (code'%64+128) := by
        rw [UInt8.lt_iff_toNat_lt,UInt8.toNat_ofNat',UInt8.toNat_ofNat']
        omega
      rw [heq]
      exact List.append_left_lt (List.cons_lt_cons_iff.mpr (Or.inl hlast))
    · refine ih (by omega) ?_ _ _
      rwa [Nat.pow_succ',←Nat.div_div_eq_div_mul,←Nat.div_div_eq_div_mul] at hfront

/-- The number of bytes behind the leading one, and what is added to the first digits of the
code point to give the leading one. -/
def leadOf (code : Nat) : Nat × Nat :=
  if code ≤ 0x7f then (0,0)
  else if code ≤ 0x7ff then (1,0xc0)
  else if code ≤ 0xffff then (2,0xe0)
  else (3,0xf0)

/-- The leading byte of a code point, as a number. -/
def leadingByte (code : Nat) : Nat :=
  (leadOf code).2+code/64^(leadOf code).1

/-- Code points end below this number. -/
theorem toNat_lt (c : Char) : c.toNat < 0x110000 := by
  have hvalid : c.toNat.isValidChar := c.valid
  unfold Nat.isValidChar at hvalid
  omega

/-- A leading byte is a byte. -/
theorem leadingByte_lt {code : Nat} (h : code < 0x110000) : leadingByte code < 256 := by
  unfold leadingByte leadOf
  split_ifs <;> dsimp only <;> omega

/-- A greater code point has a greater leading byte, or else the same number of bytes and the
same first digits. -/
theorem leadingByte_lt_or {code code' : Nat} (hlt : code < code') :
    leadingByte code < leadingByte code' ∨
      leadOf code = leadOf code' ∧ code/64^(leadOf code).1 = code'/64^(leadOf code).1 := by
  unfold leadingByte leadOf
  split_ifs
  all_goals simp only [Prod.mk.injEq,Nat.reduceEqDiff,and_self,false_and,true_and,or_false]
  all_goals omega

/-- A character is written as its leading byte and the bytes behind it. -/
theorem utf8EncodeChar_eq (c : Char) : String.utf8EncodeChar c =
    UInt8.ofNat (leadingByte c.toNat)::continuationBytes (leadOf c.toNat).1 c.toNat := by
  have hmax := toNat_lt c
  have hval : c.val.toNat = c.toNat := rfl
  simp only [String.utf8EncodeChar,leadingByte,leadOf,hval]
  split_ifs
  all_goals
    simp only [continuationBytes,List.nil_append,List.cons_append,List.cons.injEq,
      ←UInt8.toNat_inj,UInt8.toNat_ofNat',and_true]
    omega

/-- The bytes of a smaller character come before those of a greater one, whatever stands
behind them. -/
theorem utf8EncodeChar_append_lt {c d : Char} (h : c < d) (rest rest' : List UInt8) :
    String.utf8EncodeChar c++rest < String.utf8EncodeChar d++rest' := by
  have hd : leadingByte d.toNat < 256 := leadingByte_lt (toNat_lt d)
  rw [utf8EncodeChar_eq,utf8EncodeChar_eq,List.cons_append,List.cons_append,
    List.cons_lt_cons_iff,UInt8.lt_iff_toNat_lt,UInt8.toNat_ofNat',UInt8.toNat_ofNat']
  have hlt : c.toNat < d.toNat := h
  rcases leadingByte_lt_or hlt with hlead|⟨hlead,hfront⟩
  · left
    omega
  · right
    rw [leadingByte,leadingByte,hfront,hlead]
    rw [hlead] at hfront
    exact ⟨rfl,continuationBytes_append_lt hlt hfront rest rest'⟩

/-- The bytes of some characters compare as the characters do. -/
theorem flatMap_utf8EncodeChar_lt {text other : List Char} (h : text < other) :
    text.flatMap String.utf8EncodeChar < other.flatMap String.utf8EncodeChar := by
  induction h with
  | @nil c text =>
    have hne : String.utf8EncodeChar c ≠ [] := String.utf8EncodeChar_ne_nil
    rw [List.flatMap_cons]
    cases hc : String.utf8EncodeChar c with
    | nil => exact absurd hc hne
    | cons byte bytes => exact List.nil_lt_cons _ _
  | cons _ ih => exact List.append_left_lt ih
  | rel h => exact utf8EncodeChar_append_lt h _ _

/-- Texts compare by their bytes as they do by their characters. -/
theorem utf8Bytes_lt_iff {text other : String} :
    utf8Bytes text < utf8Bytes other ↔ text < other := by
  have hmono {x y : String} (h : x < y) : utf8Bytes x < utf8Bytes y := by
    rw [utf8Bytes_eq_flatMap,utf8Bytes_eq_flatMap]
    exact flatMap_utf8EncodeChar_lt (String.lt_iff_toList_lt.mp h)
  refine ⟨fun h => ?_,hmono⟩
  rcases lt_trichotomy text other with hlt|rfl|hgt
  · exact hlt
  · exact absurd h (List.lt_irrefl _)
  · exact absurd h (List.lt_asymm (hmono hgt))

end GrammarCensus
