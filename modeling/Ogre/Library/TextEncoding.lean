import Mathlib.Tactic.Common

/-! Encodings of texts in units of a fixed size, among them a unit for the character NUL, which ends
a string that is given by a pointer alone. -/
namespace Ogre.Library

/-- The units of a text, which no other text has. -/
structure TextEncoding (α : Type) where
  nul : α
  encode : List Char → List α
  decode : List α → Option (List Char)
  decode_eq_some_iff : ∀ units text, decode units = some text ↔ encode text = units
  nul_mem_encode : ∀ text, nul ∈ encode text ↔ '\x00' ∈ text

namespace TextEncoding
variable {α : Type} (E : TextEncoding α) {text text' : List Char}

theorem decode_encode (text : List Char) : E.decode (E.encode text) = some text :=
  (E.decode_eq_some_iff _ _).mpr rfl

theorem encode_injective (h : E.encode text = E.encode text') : text = text' := by
  have := E.decode_encode text
  rw [h, E.decode_encode, Option.some.injEq] at this
  exact this.symm

end TextEncoding

section Utf8

private theorem zero_eq_ofNat (n : Nat) : (0 : UInt8) = UInt8.ofNat n ↔ n % 256 = 0 := by
  rw [← UInt8.toNat_inj, UInt8.toNat_ofNat']
  exact eq_comm

theorem zero_mem_utf8EncodeChar (c : Char) : 0 ∈ String.utf8EncodeChar c ↔ c = '\x00' := by
  have hval : c = '\x00' ↔ c.val.toNat = 0 := by
    rw [← Char.toNat_inj]
    rfl
  rw [hval]
  simp only [String.utf8EncodeChar]
  split_ifs <;> simp only [List.mem_cons, List.not_mem_nil, or_false, zero_eq_ofNat] <;> omega

def utf8 : TextEncoding UInt8 where
  nul := 0
  encode text := text.flatMap String.utf8EncodeChar
  decode units := units.toByteArray.utf8Decode?.map Array.toList
  decode_eq_some_iff units text := by
    constructor
    · intro h
      obtain ⟨chars, hchars, rfl⟩ := Option.map_eq_some_iff.mp h
      have hbytes := ByteArray.utf8Encode_get_utf8Decode? (b := units.toByteArray) (h := by rw [hchars]; rfl)
      simp only [hchars, Option.get_some] at hbytes
      exact List.toByteArray_inj.mp hbytes
    · rintro rfl
      exact Option.map_eq_some_iff.mpr ⟨text.toArray, List.utf8Decode?_utf8Encode, rfl⟩
  nul_mem_encode text := by
    simp only [List.mem_flatMap, zero_mem_utf8EncodeChar, exists_eq_right]

end Utf8

section Utf16

/-- A character outside of the first plane takes a high and a low surrogate. -/
def utf16EncodeChar (c : Char) : List UInt16 :=
  if c.toNat < 0x10000 then [UInt16.ofNat c.toNat]
  else [UInt16.ofNat (0xD800 + (c.toNat - 0x10000) / 0x400), UInt16.ofNat (0xDC00 + (c.toNat - 0x10000) % 0x400)]

def IsSurrogate (u : UInt16) : Prop := 0xD800 ≤ u.toNat ∧ u.toNat < 0xE000

def IsPair (high low : UInt16) : Prop := high.toNat < 0xDC00 ∧ 0xDC00 ≤ low.toNat ∧ low.toNat < 0xE000

instance (u : UInt16) : Decidable (IsSurrogate u) := inferInstanceAs (Decidable (_ ∧ _))

instance (high low : UInt16) : Decidable (IsPair high low) := inferInstanceAs (Decidable (_ ∧ _))

def pairChar (high low : UInt16) : Char :=
  Char.ofNat (0x10000 + (high.toNat - 0xD800) * 0x400 + (low.toNat - 0xDC00))

/-- Nothing is decoded where a surrogate is not part of a pair. -/
def utf16Decode : List UInt16 → Option (List Char)
  | [] => some []
  | [u] => if IsSurrogate u then none else some [Char.ofNat u.toNat]
  | u :: v :: rest =>
    if IsSurrogate u then
      if IsPair u v then (utf16Decode rest).map (pairChar u v :: ·) else none
    else (utf16Decode (v :: rest)).map (Char.ofNat u.toNat :: ·)

private theorem char_cases (c : Char) : c.toNat < 0xD800 ∨ 0xDFFF < c.toNat ∧ c.toNat < 0x110000 := c.valid

private theorem toNat_charOfNat {n : Nat} (h : n < 0xD800 ∨ 0xDFFF < n ∧ n < 0x110000) :
    (Char.ofNat n).toNat = n := by
  rw [Char.ofNat, dif_pos h]
  rfl

private theorem toNat_unit {n : Nat} (h : n < 0x10000) : (UInt16.ofNat n).toNat = n := by
  rw [UInt16.toNat_ofNat', Nat.mod_eq_of_lt h]

theorem utf16EncodeChar_ofNat {u : UInt16} (h : ¬ IsSurrogate u) : utf16EncodeChar (Char.ofNat u.toNat) = [u] := by
  have hlt := u.toNat_lt
  rw [IsSurrogate] at h
  have hnat := toNat_charOfNat (n := u.toNat) (by omega)
  rw [utf16EncodeChar, hnat, if_pos hlt, UInt16.ofNat_toNat]

theorem utf16EncodeChar_pairChar {high low : UInt16} (hhigh : IsSurrogate high) (h : IsPair high low) :
    utf16EncodeChar (pairChar high low) = [high, low] := by
  rw [IsSurrogate] at hhigh
  rw [IsPair] at h
  have hnat : (pairChar high low).toNat = 0x10000 + (high.toNat - 0xD800) * 0x400 + (low.toNat - 0xDC00) :=
    toNat_charOfNat (by omega)
  have hhigh' : 0xD800 + ((pairChar high low).toNat - 0x10000) / 0x400 = high.toNat := by omega
  have hlow : 0xDC00 + ((pairChar high low).toNat - 0x10000) % 0x400 = low.toNat := by omega
  rw [utf16EncodeChar, if_neg (by omega), hhigh', hlow, UInt16.ofNat_toNat, UInt16.ofNat_toNat]

theorem utf16Decode_append (c : Char) (units : List UInt16) :
    utf16Decode (utf16EncodeChar c ++ units) = (utf16Decode units).map (c :: ·) := by
  have hc := char_cases c
  unfold utf16EncodeChar
  split_ifs with hlt
  · have hunit : (UInt16.ofNat c.toNat).toNat = c.toNat := toNat_unit hlt
    have hplain : ¬ IsSurrogate (UInt16.ofNat c.toNat) := by
      rw [IsSurrogate, hunit]
      omega
    cases units with
    | nil =>
      change utf16Decode [UInt16.ofNat c.toNat] = some [c]
      rw [utf16Decode, if_neg hplain, hunit, Char.ofNat_toNat]
    | cons v rest => rw [List.singleton_append, utf16Decode, if_neg hplain, hunit, Char.ofNat_toNat]
  · have hhigh := toNat_unit (n := 0xD800 + (c.toNat - 0x10000) / 0x400) (by omega)
    have hlow := toNat_unit (n := 0xDC00 + (c.toNat - 0x10000) % 0x400) (by omega)
    generalize UInt16.ofNat (0xD800 + (c.toNat - 0x10000) / 0x400) = high at hhigh ⊢
    generalize UInt16.ofNat (0xDC00 + (c.toNat - 0x10000) % 0x400) = low at hlow ⊢
    have hsurrogate : IsSurrogate high := by rw [IsSurrogate]; omega
    have hpair : IsPair high low := by rw [IsPair]; omega
    have hchar : pairChar high low = c := by
      rw [pairChar, show 0x10000 + (high.toNat - 0xD800) * 0x400 + (low.toNat - 0xDC00) = c.toNat by omega,
        Char.ofNat_toNat]
    change utf16Decode (high :: low :: units) = _
    rw [utf16Decode, if_pos hsurrogate, if_pos hpair, hchar]

theorem utf16Encode_of_decode {units : List UInt16} {text : List Char} (h : utf16Decode units = some text) :
    text.flatMap utf16EncodeChar = units := by
  fun_induction utf16Decode units generalizing text with
  | case1 => cases h; rfl
  | case2 u hu => cases h
  | case3 u hu =>
    cases h
    rw [List.flatMap_singleton, utf16EncodeChar_ofNat hu]
  | case4 u v rest hu hpair ih =>
    obtain ⟨chars, hchars, rfl⟩ := Option.map_eq_some_iff.mp h
    rw [List.flatMap_cons, ih hchars, utf16EncodeChar_pairChar hu hpair]
    rfl
  | case5 u v rest hu hpair => cases h
  | case6 u v rest hu ih =>
    obtain ⟨chars, hchars, rfl⟩ := Option.map_eq_some_iff.mp h
    rw [List.flatMap_cons, ih hchars, utf16EncodeChar_ofNat hu]
    rfl

theorem utf16Decode_encode (text : List Char) : utf16Decode (text.flatMap utf16EncodeChar) = some text := by
  induction text with
  | nil => rfl
  | cons c text ih => rw [List.flatMap_cons, utf16Decode_append, ih]; rfl

theorem zero_mem_utf16EncodeChar (c : Char) : 0 ∈ utf16EncodeChar c ↔ c = '\x00' := by
  have hc := char_cases c
  have hval : c = '\x00' ↔ c.toNat = 0 := Char.toNat_inj.symm
  have hzero (n : Nat) : (0 : UInt16) = UInt16.ofNat n ↔ n % 65536 = 0 := by
    rw [← UInt16.toNat_inj, UInt16.toNat_ofNat']
    exact eq_comm
  rw [hval]
  unfold utf16EncodeChar
  split_ifs <;> simp only [List.mem_cons, List.not_mem_nil, or_false, hzero] <;> omega

def utf16 : TextEncoding UInt16 where
  nul := 0
  encode text := text.flatMap utf16EncodeChar
  decode := utf16Decode
  decode_eq_some_iff units text := by
    constructor
    · exact utf16Encode_of_decode
    · rintro rfl
      exact utf16Decode_encode text
  nul_mem_encode text := by
    simp only [List.mem_flatMap, zero_mem_utf16EncodeChar, exists_eq_right]

end Utf16
end Ogre.Library
