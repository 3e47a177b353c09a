import Ogre.Fml.BitConverter

/-! Base32 texts of byte strings: what the encoder writes is read back, and which texts the
decoder takes that the encoder never writes. -/
namespace Ogre.Fml
open Ogre.Library

abbrev Base32DecodeConverter := BitConverter 5 8 16
abbrev Base32EncodeConverter := BitConverter 8 5 16

namespace Base32

def kEncoding : List UInt8 :=
  ['A', 'B', 'C', 'D', 'E', 'F', 'G', 'H', 'I', 'J', 'K', 'L', 'M', 'N', 'O', 'P', 'Q', 'R', 'S', 'T', 'U', 'V', 'W',
    'X', 'Y', 'Z', '2', '3', '4', '5', '6', '7'].map Char.toUInt8

/-- From '2' on. -/
def kDecodeMap : List Int :=
  [26, 27, 28, 29, 30, 31, -1, -1, -1, -1, -1, -1, -1, -1,
    -1, 0, 1, 2, 3, 4, 5, 6, 7, 8, 9, 10, 11, 12,
    13, 14, 15, 16, 17, 18, 19, 20, 21, 22, 23, 24, 25]

/-- The encoded length that is reserved. -/
def encodedLength (input : List UInt8) : Nat := (input.length * 8 + 4) / 5

/-- `SIZE_MAX / 8`. -/
def maxSize : Nat := 18446744073709551615 / 8

/-- The loop of the encoder, with the bytes that are not yet appended. It takes fuel, and has
no result without it or where a debug check fails. -/
def encodeLoop : Nat → Base32EncodeConverter → List UInt8 → List UInt8 → Option (Base32EncodeConverter × List UInt8)
  | 0, _, _, _ => none
  | fuel + 1, converter, input, output =>
    if converter.canExtract then do
      let (symbol, converter) ← converter.extract
      let output := output ++ [kEncoding.getD symbol 0]
      match input with
      | byte :: rest =>
        if converter.canAppend then encodeLoop fuel (← converter.append byte.toNat) rest output
        else encodeLoop fuel converter input output
      | [] => encodeLoop fuel converter [] output
    else some (converter, output)

def base32Encode (input : List UInt8) : Option (Bool × List UInt8) :=
  match input with
  | [] => some (true, [])
  | first :: rest =>
    if maxSize < input.length then some (false, [])
    else do
      let converter ← ({} : Base32EncodeConverter).append first.toNat
      let (converter, output) ← encodeLoop (encodedLength input + 1) converter rest []
      if 0 < converter.bitsAvailable then some (true, output ++ [kEncoding.getD converter.peek 0])
      else some (true, output)

/-- The symbol of a character. A character from 128 on is outside of the map, whatever the sign of its type. -/
def symbol (c : UInt8) : Option Nat :=
  let mapIndex : Int := (c.toNat : Int) - '2'.toNat
  if mapIndex < 0 ∨ kDecodeMap.length ≤ mapIndex ∨ kDecodeMap.getD mapIndex.toNat (-1) = -1 then none
  else some (kDecodeMap.getD mapIndex.toNat (-1)).toNat

def decodeLoop (converter : Base32DecodeConverter) (result : List UInt8) : List UInt8 → Option (Bool × List UInt8)
  | [] => if converter.peek ≠ 0 then some (false, result) else some (true, result)
  | c :: input =>
    match symbol c with
    | none => some (false, result)
    | some bits => do
      let converter ← converter.append bits
      if converter.canExtract then
        let (byte, converter) ← converter.extract
        decodeLoop converter (result ++ [UInt8.ofNat byte]) input
      else decodeLoop converter result input

def base32Decode (input : List UInt8) : Option (Bool × List UInt8) := decodeLoop {} [] input

/-- A value of five bits in the alphabet. -/
def letter (v : Nat) : UInt8 := kEncoding.getD v 0

theorem symbol_letter {v : Nat} (h : v < 32) : symbol (letter v) = some v := by
  have hall : ∀ v < 32, symbol (letter v) = some v := by decide
  exact hall v h

theorem letter_of_symbol {c : UInt8} {v : Nat} (h : symbol c = some v) : v < 32 ∧ letter v = c := by
  have hall : ∀ n < 256, ∀ v ∈ symbol (UInt8.ofNat n), v < 32 ∧ letter v = UInt8.ofNat n := by
    decide +kernel
  have hc := hall c.toNat c.toNat_lt v
  rw [UInt8.ofNat_toNat] at hc
  exact hc h

section Encode
variable {input : List UInt8} {vals : List Nat}

/-- The bits of a byte string. -/
def byteBits (bytes : List UInt8) : List Bool := textBits 8 (bytes.map UInt8.toNat)

theorem byteBits_injective {xs ys : List UInt8} (h : byteBits xs = byteBits ys) : xs = ys := by
  have hlt (l : List UInt8) : ∀ n ∈ l.map UInt8.toNat, n < 2 ^ 8 := by
    intro n hn
    obtain ⟨b, _, rfl⟩ := List.mem_map.mp hn
    exact b.toNat_lt
  exact (List.map_inj_right fun _ _ => UInt8.toNat_inj.mp).mp (textBits_injective (by decide) (hlt xs) (hlt ys) h)

theorem length_byteBits (xs : List UInt8) : (byteBits xs).length = 8 * xs.length := by
  rw [byteBits, length_textBits, List.length_map]

/-- The bytes at the front of a text are told by its bits, and so is what is left. -/
theorem byteBits_append_injective {xs ys : List UInt8} {r q : List Bool} (hr : r.length < 8) (hq : q.length < 8)
    (h : byteBits xs ++ r = byteBits ys ++ q) : xs = ys ∧ r = q := by
  have hlength := congrArg List.length h
  rw [List.length_append, List.length_append, length_byteBits, length_byteBits] at hlength
  obtain ⟨hbytes, hrest⟩ := List.append_inj h (by rw [length_byteBits, length_byteBits]; omega)
  exact ⟨byteBits_injective hbytes, hrest⟩

/-- One symbol more of a text. -/
private theorem textBits_concat_value {first : List Bool} (h : first.length = 5) :
    textBits 5 (vals ++ [valueOf first]) = textBits 5 vals ++ first := by
  have hbits := bitsOf_valueOf first
  rw [h] at hbits
  rw [textBits_append, textBits_cons, textBits_nil, List.append_nil, hbits]

private theorem valueOf_lt_32 {first : List Bool} (h : first.length = 5) : valueOf first < 32 := by
  have hlt := valueOf_lt first
  rwa [h] at hlt

/-- With fuel for all bits the loop ends, and leaves less than one symbol. -/
private theorem encodeLoop_spec (fuel : Nat) (c : Base32EncodeConverter) (bits : List Bool) (input : List UInt8)
    (vals : List Nat) (h : c.Holds bits) (hbits : input ≠ [] → 5 ≤ bits.length)
    (hfuel : bits.length + 8 * input.length < 5 * fuel) (hvals : ∀ v ∈ vals, v < 32) :
    ∃ d rest out, encodeLoop fuel c input (vals.map letter) = some (d, out.map letter) ∧ d.Holds rest ∧
      rest.length < 5 ∧ (∀ v ∈ out, v < 32) ∧ textBits 5 out ++ rest = textBits 5 vals ++ (bits ++ byteBits input) := by
  induction fuel generalizing c bits input vals with
  | zero => omega
  | succ fuel ih =>
    by_cases hcan : 5 ≤ bits.length
    · obtain ⟨d, hd, hholds⟩ := h.extract hcan
      have hlength := hholds.length_add
      have hfirst : (bits.take 5).length = 5 := List.length_take_of_le hcan
      have hdrop : (bits.drop 5).length = bits.length - 5 := List.length_drop
      have hout : ∀ v ∈ vals ++ [valueOf (bits.take 5)], v < 32 := by
        intro v hv
        rcases List.mem_append.mp hv with hv | hv
        · exact hvals v hv
        · rw [List.mem_singleton.mp hv]
          exact valueOf_lt_32 hfirst
      have hmap : vals.map letter ++ [kEncoding.getD (valueOf (bits.take 5)) 0] =
          (vals ++ [valueOf (bits.take 5)]).map letter := by simp [letter]
      have hsplit (x : List Bool) : textBits 5 (vals ++ [valueOf (bits.take 5)]) ++ (bits.drop 5 ++ x) =
          textBits 5 vals ++ (bits ++ x) := by
        rw [textBits_concat_value hfirst, List.append_assoc, ← List.append_assoc (bits.take 5), List.take_append_drop]
      rw [encodeLoop, if_pos (h.canExtract.mpr hcan), hd]
      dsimp only [Option.bind_eq_bind, Option.bind_some]
      rw [hmap]
      cases input with
      | nil =>
        obtain ⟨e, rest, out, hloop, hrest⟩ := ih d _ [] _ hholds (by simp) (by simp at hfuel ⊢; omega) hout
        refine ⟨e, rest, out, hloop, ?_⟩
        rwa [hsplit] at hrest
      | cons byte input =>
        rw [List.length_cons] at hfuel
        dsimp only
        split
        next happend =>
          obtain ⟨e, he, heholds⟩ := hholds.append byte.toNat_lt (hholds.canAppend.mp happend)
          obtain ⟨g, rest, out, hloop, hrest⟩ := ih e _ input _ heholds
            (fun _ => by rw [List.length_append, length_bitsOf]; omega)
            (by rw [List.length_append, length_bitsOf, hdrop]; omega) hout
          refine ⟨g, rest, out, by rw [he]; exact hloop, ?_⟩
          rw [List.append_assoc, hsplit] at hrest
          exact hrest
        next happend =>
          have hfull : ¬ (bits.drop 5).length + 8 ≤ 16 := mt hholds.canAppend.mpr happend
          obtain ⟨g, rest, out, hloop, hrest⟩ := ih d _ (byte :: input) _ hholds (fun _ => by omega)
            (by rw [List.length_cons, hdrop]; omega) hout
          refine ⟨g, rest, out, hloop, ?_⟩
          rwa [hsplit] at hrest
    · have hempty : input = [] := by
        by_contra hne
        exact hcan (hbits hne)
      subst hempty
      have hstop : ¬ c.canExtract = true := fun hx => hcan (h.canExtract.mp hx)
      exact ⟨c, bits, vals, if_neg hstop, h, Nat.lt_of_not_le hcan, hvals, by simp [byteBits]⟩

/-- The text is that of the bits of the input, filled up with zeros to whole symbols. -/
theorem base32Encode_spec (h : input.length ≤ maxSize) :
    ∃ vals k, base32Encode input = some (true, vals.map letter) ∧ (∀ v ∈ vals, v < 32) ∧ k < 5 ∧
      textBits 5 vals = byteBits input ++ .replicate k false := by
  cases input with
  | nil => exact ⟨[], 0, rfl, by simp, by decide, rfl⟩
  | cons first input =>
    have hnew : ({} : Base32EncodeConverter).Holds [] := BitConverter.holds_new
    obtain ⟨c, hc, hholds⟩ := hnew.append first.toNat_lt (by decide)
    have hfuel : 8 + 8 * input.length < 5 * (encodedLength (first :: input) + 1) := by
      rw [encodedLength, List.length_cons]
      omega
    obtain ⟨d, rest, vals, hloop, hd, hrest, hvals, hbits⟩ :=
      encodeLoop_spec (encodedLength (first :: input) + 1) c _ input [] hholds (by simp) (by simpa using hfuel) (by simp)
    have hinput : textBits 5 vals ++ rest = byteBits (first :: input) := hbits
    simp only [base32Encode, Nat.not_lt.mpr h, if_false, hc, Option.bind_eq_bind, Option.bind_some]
    rw [show encodeLoop _ c input [] = _ from hloop, Option.bind_some, hd.bitsAvailable]
    dsimp only
    split
    next hpos =>
      have hfull : (rest ++ List.replicate (5 - rest.length) false).length = 5 := by simp; omega
      refine ⟨vals ++ [d.peek], 5 - rest.length, by simp [letter], ?_, by omega, ?_⟩
      · intro v hv
        rcases List.mem_append.mp hv with hv | hv
        · exact hvals v hv
        · rw [List.mem_singleton.mp hv, hd.peek_padded hrest.le (by decide)]
          exact valueOf_lt_32 hfull
      · rw [hd.peek_padded hrest.le (by decide), textBits_concat_value hfull, ← List.append_assoc, hinput]
    next hzero =>
      have hempty : rest = [] := List.length_eq_zero_iff.mp (by omega)
      rw [hempty, List.append_nil] at hinput
      exact ⟨vals, 0, rfl, hvals, by decide, by simpa using hinput⟩

end Encode

section Decode
variable {input : List UInt8} {vals : List Nat}

theorem mapM_symbol_letter (h : ∀ v ∈ vals, v < 32) : (vals.map letter).mapM symbol = some vals := by
  induction vals with
  | nil => rfl
  | cons v vals ih =>
    rw [List.map_cons, List.mapM_cons, symbol_letter (h v (by simp)), ih fun u hu => h u (by simp [hu])]
    rfl

theorem letter_of_mapM (h : input.mapM symbol = some vals) : (∀ v ∈ vals, v < 32) ∧ vals.map letter = input := by
  induction input generalizing vals with
  | nil =>
    obtain rfl : vals = [] := by simpa using h.symm
    simp
  | cons c input ih =>
    rw [List.mapM_cons] at h
    obtain ⟨v, hv, h⟩ := Option.bind_eq_some_iff.mp h
    obtain ⟨us, hus, h⟩ := Option.bind_eq_some_iff.mp h
    obtain rfl := Option.some.inj h
    obtain ⟨hlt, rfl⟩ := letter_of_symbol hv
    obtain ⟨hall, rfl⟩ := ih hus
    exact ⟨List.forall_mem_cons.mpr ⟨hlt, hall⟩, rfl⟩

/-- A symbol is appended, and a byte extracted once there is one. -/
private theorem decodeLoop_cons (c : Base32DecodeConverter) (bits : List Bool) (result : List UInt8) {a : UInt8} {v : Nat}
    (h : c.Holds bits) (hbits : bits.length < 8) (ha : symbol a = some v) :
    ∃ d out rest, decodeLoop c result (a :: input) = decodeLoop d (result ++ out) input ∧ d.Holds rest ∧
      rest.length < 8 ∧ bits ++ bitsOf 5 v = byteBits out ++ rest := by
  obtain ⟨d, hd, hholds⟩ := h.append (letter_of_symbol ha).1 (by omega)
  have hlength : (bits ++ bitsOf 5 v).length = bits.length + 5 := by rw [List.length_append, length_bitsOf]
  by_cases hcan : 8 ≤ (bits ++ bitsOf 5 v).length
  · obtain ⟨e, he, heholds⟩ := hholds.extract hcan
    have hfirst : ((bits ++ bitsOf 5 v).take 8).length = 8 := List.length_take_of_le hcan
    have hlt := valueOf_lt ((bits ++ bitsOf 5 v).take 8)
    rw [hfirst] at hlt
    refine ⟨e, [UInt8.ofNat (valueOf ((bits ++ bitsOf 5 v).take 8))], _, ?_, heholds, ?_, ?_⟩
    · simp only [decodeLoop, ha, hd, Option.bind_eq_bind, Option.bind_some, hholds.canExtract.mpr hcan, if_true, he]
    · rw [List.length_drop]
      omega
    · have hbyte : byteBits [UInt8.ofNat (valueOf ((bits ++ bitsOf 5 v).take 8))] = (bits ++ bitsOf 5 v).take 8 := by
        have hback := bitsOf_valueOf ((bits ++ bitsOf 5 v).take 8)
        rw [hfirst] at hback
        rw [byteBits, List.map_singleton, UInt8.toNat_ofNat_of_lt' hlt, textBits_cons, textBits_nil, List.append_nil, hback]
      rw [hbyte, List.take_append_drop]
  · have hstop : ¬ d.canExtract = true := fun hx => hcan (hholds.canExtract.mp hx)
    refine ⟨d, [], _, ?_, hholds, Nat.lt_of_not_le hcan, rfl⟩
    simp only [decodeLoop, ha, hd, Option.bind_eq_bind, Option.bind_some, if_neg hstop, List.append_nil]

/-- What the decoder reads of a text in the alphabet: whole bytes, and bits that are left. -/
private theorem decodeLoop_spec (c : Base32DecodeConverter) (bits : List Bool) (result : List UInt8)
    (h : c.Holds bits) (hbits : bits.length < 8) (hvals : input.mapM symbol = some vals) :
    ∃ out rest, decodeLoop c result input = some (decide (valueOf rest = 0), result ++ out) ∧ rest.length < 8 ∧
      bits ++ textBits 5 vals = byteBits out ++ rest := by
  induction input generalizing c bits result vals with
  | nil =>
    obtain rfl : vals = [] := by simpa using hvals.symm
    have hpeek : c.peek = valueOf bits * 2 ^ (8 - bits.length) := by
      rw [h.peek_padded hbits.le (by decide), valueOf_append, valueOf_zeros, List.length_replicate, Nat.add_zero]
    have hzero : c.peek = 0 ↔ valueOf bits = 0 := by
      rw [hpeek, Nat.mul_eq_zero, or_iff_left (Nat.two_pow_pos _).ne']
    refine ⟨[], bits, ?_, hbits, by simp [byteBits]⟩
    by_cases hvalue : valueOf bits = 0
    · simp [decodeLoop, hzero, hvalue]
    · simp [decodeLoop, hzero, hvalue]
  | cons a input ih =>
    rw [List.mapM_cons] at hvals
    obtain ⟨v, hv, hvals⟩ := Option.bind_eq_some_iff.mp hvals
    obtain ⟨us, hus, hvals⟩ := Option.bind_eq_some_iff.mp hvals
    obtain rfl := Option.some.inj hvals
    obtain ⟨d, out, rest, hloop, hd, hrest, hsplit⟩ := decodeLoop_cons c bits result h hbits hv
    obtain ⟨more, left, hmore, hleft, hbytes⟩ := ih d rest (result ++ out) hd hrest hus
    refine ⟨out ++ more, left, ?_, hleft, ?_⟩
    · rw [hloop, hmore, List.append_assoc]
    · rw [textBits_cons, ← List.append_assoc, hsplit, List.append_assoc, hbytes, byteBits, byteBits, byteBits,
        List.map_append, textBits_append, List.append_assoc]

private theorem decodeLoop_rejects (c : Base32DecodeConverter) (bits : List Bool) (result : List UInt8)
    (h : c.Holds bits) (hbits : bits.length < 8) (hvals : input.mapM symbol = none) :
    ∃ out, decodeLoop c result input = some (false, out) := by
  induction input generalizing c bits result with
  | nil => cases hvals
  | cons a input ih =>
    cases hv : symbol a with
    | none => exact ⟨result, by simp [decodeLoop, hv]⟩
    | some v =>
      obtain ⟨d, out, rest, hloop, hd, hrest, -⟩ := decodeLoop_cons c bits result h hbits hv
      have hnone : input.mapM symbol = none := by
        rw [List.mapM_cons, hv] at hvals
        cases hus : input.mapM symbol with
        | none => rfl
        | some us => simp [hus] at hvals
      rw [hloop]
      exact ih d rest (result ++ out) hd hrest hnone

end Decode

/-- Whatever bytes are encoded, the text decodes to them. -/
theorem base32Decode_base32Encode (x : List UInt8) (h : x.length ≤ maxSize) :
    ∃ s, base32Encode x = some (true, s) ∧ base32Decode s = some (true, x) := by
  obtain ⟨vals, k, hencode, hvals, hk, hbits⟩ := base32Encode_spec h
  refine ⟨_, hencode, ?_⟩
  obtain ⟨out, rest, hdecode, hrest, hout⟩ :=
    decodeLoop_spec {} [] [] BitConverter.holds_new (by decide) (mapM_symbol_letter hvals)
  have hboth : byteBits out ++ rest = byteBits x ++ .replicate k false := hout.symm.trans hbits
  obtain ⟨rfl, rfl⟩ := byteBits_append_injective hrest (by rw [List.length_replicate]; omega) hboth
  rw [base32Decode, hdecode, valueOf_zeros]
  rfl

/-- "hello" as bytes. -/
def hello : List UInt8 := [104, 101, 108, 108, 111]

theorem base32Decode_hello : ∃ s, base32Encode hello = some (true, s) ∧ base32Decode s = some (true, hello) :=
  base32Decode_base32Encode hello (by decide)

/-- The bits of a text that are left after its whole bytes. -/
def leftBits (s : List UInt8) : List Bool := (textBits 5 (s.filterMap symbol)).drop (8 * (5 * s.length / 8))

/-- A text that has the length of an encoding, of bytes that are not too many to be encoded, or
has a character outside of the alphabet, or a bit after its whole bytes. -/
def CanonicalText (s : List UInt8) : Prop :=
  s.length % 8 ∉ [1, 3, 6] ∧ 5 * s.length / 8 ≤ maxSize ∨ (∃ c ∈ s, symbol c = none) ∨ true ∈ leftBits s

private theorem mapM_eq_none {s : List UInt8} (h : s.mapM symbol = none) : ∃ c ∈ s, symbol c = none := by
  induction s with
  | nil => cases h
  | cons c s ih =>
    cases hc : symbol c with
    | none => exact ⟨c, by simp, hc⟩
    | some v =>
      rw [List.mapM_cons, hc] at h
      cases hs : s.mapM symbol with
      | none =>
        obtain ⟨d, hd, hnone⟩ := ih hs
        exact ⟨d, by simp [hd], hnone⟩
      | some vs => simp [hs] at h

private theorem symbols_letters {vals : List Nat} (h : ∀ v ∈ vals, v < 32) : (vals.map letter).filterMap symbol = vals := by
  induction vals with
  | nil => rfl
  | cons v vals ih =>
    rw [List.map_cons, List.filterMap_cons_some (symbol_letter (h v (by simp))), ih fun u hu => h u (by simp [hu])]

private theorem valueOf_eq_zero {rest : List Bool} : valueOf rest = 0 ↔ true ∉ rest := by
  rw [valueOf_eq_zero_iff, List.eq_replicate_iff]
  constructor
  · intro h hmem
    exact absurd (h.2 true hmem) (by decide)
  · intro h
    refine ⟨rfl, fun b hb => ?_⟩
    cases b with
    | false => rfl
    | true => exact absurd hb h

/-- A text in the alphabet decodes to the bytes at its front, if no bit is left after them. -/
private theorem base32Decode_spec {vals : List Nat} (hvals : ∀ v ∈ vals, v < 32) :
    ∃ x, base32Decode (vals.map letter) = some (decide (true ∉ leftBits (vals.map letter)), x) ∧
      textBits 5 vals = byteBits x ++ leftBits (vals.map letter) ∧ (leftBits (vals.map letter)).length < 8 := by
  obtain ⟨out, rest, hdecode, hrest, hout⟩ :=
    decodeLoop_spec {} [] [] BitConverter.holds_new (by decide) (mapM_symbol_letter hvals)
  have hbits : textBits 5 vals = byteBits out ++ rest := hout
  have hlength := congrArg List.length hbits
  rw [length_textBits, List.length_append, length_byteBits] at hlength
  have hleft : leftBits (vals.map letter) = rest := by
    rw [leftBits, symbols_letters hvals, List.length_map, hbits]
    apply List.drop_left'
    rw [length_byteBits]
    omega
  rw [hleft]
  refine ⟨out, ?_, hbits, hrest⟩
  rw [base32Decode, hdecode, List.nil_append, decide_eq_decide.mpr valueOf_eq_zero]

/-- An accepted text is that of its bytes, if it has as many letters as they need. -/
private theorem base32Encode_eq_iff {vals : List Nat} {x : List UInt8} {r : Nat} (hvals : ∀ v ∈ vals, v < 32)
    (hbits : textBits 5 vals = byteBits x ++ .replicate r false) (hr : r < 8) :
    base32Encode x = some (true, vals.map letter) ↔ r < 5 ∧ x.length ≤ maxSize := by
  by_cases hsize : x.length ≤ maxSize
  · obtain ⟨us, k, hencode, hus, hk, husbits⟩ := base32Encode_spec hsize
    have hlength := congrArg List.length hbits
    have huslength := congrArg List.length husbits
    rw [length_textBits, List.length_append, List.length_replicate] at hlength huslength
    rw [hencode, and_iff_left hsize]
    constructor
    · intro hsame
      have hsame := congrArg List.length (Prod.mk.inj (Option.some.inj hsame)).2
      rw [List.length_map, List.length_map] at hsame
      omega
    · intro hr
      obtain rfl : k = r := by omega
      rw [textBits_injective (by decide) hus hvals (husbits.trans hbits.symm)]
  · refine iff_of_false ?_ (fun h => hsize h.2)
    have hfails : base32Encode x = some (false, []) := by
      cases x with
      | nil => exact absurd (Nat.zero_le _) hsize
      | cons b x => exact if_pos (Nat.lt_of_not_le hsize)
    simp [hfails]

/-- By its length a text has less than one letter left after its bytes, or more. -/
private theorem left_lt_iff {n y r : Nat} (h : 5 * n = 8 * y + r) (hr : r < 8) : r < 5 ↔ n % 8 ∉ [1, 3, 6] := by
  have hn : n % 8 = 0 ∨ n % 8 = 1 ∨ n % 8 = 2 ∨ n % 8 = 3 ∨ n % 8 = 4 ∨ n % 8 = 5 ∨ n % 8 = 6 ∨ n % 8 = 7 := by omega
  rcases hn with hn | hn | hn | hn | hn | hn | hn | hn <;> simp [hn] <;> omega

/-- A text that is accepted is the encoding of what it decodes to, exactly for these texts. -/
theorem canonical_iff (s : List UInt8) :
    (∀ x, base32Decode s = some (true, x) → base32Encode x = some (true, s)) ↔ CanonicalText s := by
  cases hmap : s.mapM symbol with
  | none =>
    obtain ⟨out, hdecode⟩ := decodeLoop_rejects {} [] [] BitConverter.holds_new (by decide) hmap
    refine iff_of_true (fun x hx => ?_) (.inr (.inl (mapM_eq_none hmap)))
    rw [base32Decode, hdecode] at hx
    cases hx
  | some vals =>
    obtain ⟨hvals, rfl⟩ := letter_of_mapM hmap
    obtain ⟨y, hdecode, hbits, hleft⟩ := base32Decode_spec hvals
    by_cases hset : true ∈ leftBits (vals.map letter)
    · refine iff_of_true (fun x hx => ?_) (.inr (.inr hset))
      rw [hdecode] at hx
      simp [hset] at hx
    · have halphabet : ¬ ∃ c ∈ vals.map letter, symbol c = none := by
        rintro ⟨c, hc, hnone⟩
        obtain ⟨v, hv, rfl⟩ := List.mem_map.mp hc
        rw [symbol_letter (hvals v hv)] at hnone
        cases hnone
      have hzeros : leftBits (vals.map letter) = .replicate (leftBits (vals.map letter)).length false :=
        valueOf_eq_zero_iff.mp (valueOf_eq_zero.mpr hset)
      have hlength := congrArg List.length hbits
      rw [length_textBits, List.length_append, length_byteBits] at hlength
      rw [hzeros] at hbits
      have hencode := base32Encode_eq_iff hvals hbits hleft
      have hlhs : (∀ x, base32Decode (vals.map letter) = some (true, x) → base32Encode x = some (true, vals.map letter)) ↔
          base32Encode y = some (true, vals.map letter) := by
        rw [hdecode]
        simp [hset]
      rw [hlhs, hencode, CanonicalText, or_iff_left (not_or.mpr ⟨halphabet, hset⟩), List.length_map]
      have hy : 5 * vals.length / 8 = y.length := by omega
      rw [hy, left_lt_iff hlength hleft]

/-- One letter is accepted as the encoding of nothing. -/
theorem base32Decode_A : base32Decode [65] = some (true, []) ∧ base32Encode [] = some (true, []) := ⟨rfl, rfl⟩

end Base32
end Ogre.Fml
