import Mathlib.Algebra.Order.Ring.Int
import Mathlib.Tactic.Common

/-! Paths in URIs, and what is escaped in them. -/
namespace Ogre.Fml

/-- A `std::string`, which is not longer than `max_size`. -/
structure StdString where
  chars : List UInt8
  length_lt : chars.length < 2 ^ 63

namespace StdString

def size (s : StdString) : Nat := s.chars.length

/-- `operator[]`, which has a NUL at the size, and nothing after that. -/
def get (s : StdString) (i : Nat) : Option UInt8 := (s.chars ++ [0])[i]?

def substr (s : StdString) (position count : Nat) : List UInt8 := (s.chars.drop position).take count

end StdString

/-- Sizes are unsigned, and a difference wraps. -/
def sizeSub (a b : Nat) : Nat := (a + 2 ^ 64 - b) % 2 ^ 64

def percent : UInt8 := 0x25

/-- No byte is a digit but those of ASCII. -/
def isxdigit (c : UInt8) : Bool := (0x30 ≤ c && c ≤ 0x39) || (0x41 ≤ c && c ≤ 0x46) || (0x61 ≤ c && c ≤ 0x66)

def hexValue (c : UInt8) : Nat :=
  if c ≤ 0x39 then c.toNat - 0x30 else if c ≤ 0x46 then c.toNat - 0x37 else c.toNat - 0x57

/-- `strtoul` with the base 16, of a text with no blanks, sign or prefix before its digits. -/
def strtoul16 (text : List UInt8) : Nat := (text.takeWhile isxdigit).foldl (fun n c => 16 * n + hexValue c) 0

/-- The loop from an index on. There is no result where it reads what is not there. -/
def sanitizeLoop (str : StdString) (i : Nat) (result : List UInt8) : Option (List UInt8) :=
  if _hi : i < str.size then do
    let c ← str.get i
    if c = percent then
      if i > sizeSub str.size 3 then some []
      else do
        let first ← str.get (i + 1)
        if !isxdigit first then some []
        else do
          let second ← str.get (i + 2)
          if !isxdigit second then some []
          else
            let c := UInt8.ofNat (strtoul16 (str.substr (i + 1) 2))
            if c = 0 then some [] else sanitizeLoop str (i + 2 + 1) (result ++ [c])
    else sanitizeLoop str (i + 1) (result ++ [c])
  else some result
termination_by str.size - i

def sanitizeURIEscapedCharacters (str : StdString) : Option (List UInt8) := sanitizeLoop str 0 []

/-- Two digits of a byte that is not NUL. -/
def IsEscape (first second : UInt8) : Prop :=
  isxdigit first ∧ isxdigit second ∧ ¬ (first = 0x30 ∧ second = 0x30)

/-- Each `%` has an escape after it. -/
def EscapesWell (text : List UInt8) : Prop :=
  ∀ before after, text = before ++ percent :: after →
    ∃ first second rest, after = first :: second :: rest ∧ IsEscape first second

/-- Each `%` and the two digits after it are replaced by the byte that they stand for. -/
def percentDecoding : List UInt8 → List UInt8
  | c :: first :: second :: rest =>
    if c = percent then UInt8.ofNat (16 * hexValue first + hexValue second) :: percentDecoding rest
    else c :: percentDecoding (first :: second :: rest)
  | text => text

section Digits
variable {c first second : UInt8}

private theorem isxdigit_iff : isxdigit c ↔ (0x30 ≤ c.toNat ∧ c.toNat ≤ 0x39) ∨ (0x41 ≤ c.toNat ∧ c.toNat ≤ 0x46) ∨
    (0x61 ≤ c.toNat ∧ c.toNat ≤ 0x66) := by
  simp [isxdigit, UInt8.le_iff_toNat_le, or_assoc]

private theorem hexValue_eq : hexValue c = if c.toNat ≤ 0x39 then c.toNat - 0x30
    else if c.toNat ≤ 0x46 then c.toNat - 0x37 else c.toNat - 0x57 := by
  simp [hexValue, UInt8.le_iff_toNat_le]

theorem isxdigit_nul : isxdigit 0 = false := by decide

theorem hexValue_lt (h : isxdigit c) : hexValue c < 16 := by
  rw [isxdigit_iff] at h
  rw [hexValue_eq]
  split
  · omega
  split <;> omega

theorem hexValue_eq_zero (h : isxdigit c) : hexValue c = 0 ↔ c = 0x30 := by
  rw [isxdigit_iff] at h
  rw [hexValue_eq, ← UInt8.toNat_inj]
  change _ ↔ c.toNat = 48
  split
  · omega
  split <;> omega

theorem ne_percent_of_isxdigit (h : isxdigit c) : c ≠ percent := by
  rintro rfl
  cases h

/-- The byte that two digits stand for. -/
theorem strtoul16_digits (hfirst : isxdigit first) (hsecond : isxdigit second) :
    strtoul16 [first, second] = 16 * hexValue first + hexValue second := by
  simp [strtoul16, hfirst, hsecond]

theorem isEscape_iff (hfirst : isxdigit first) (hsecond : isxdigit second) :
    IsEscape first second ↔ UInt8.ofNat (16 * hexValue first + hexValue second) ≠ 0 := by
  have hlt := hexValue_lt hfirst
  have hlt' := hexValue_lt hsecond
  have hzero : UInt8.ofNat (16 * hexValue first + hexValue second) = 0 ↔
      16 * hexValue first + hexValue second = 0 := by
    rw [← UInt8.toNat_inj, UInt8.toNat_ofNat']
    change (16 * hexValue first + hexValue second) % 256 = 0 ↔ _
    omega
  rw [IsEscape, and_iff_right hfirst, and_iff_right hsecond, ne_eq, hzero, ← hexValue_eq_zero hfirst,
    ← hexValue_eq_zero hsecond]
  omega

end Digits

section Escapes
variable {c first second : UInt8} {rest text : List UInt8}

theorem escapesWell_nil : EscapesWell [] := by
  intro before after h
  cases before <;> cases h

theorem escapesWell_cons (h : c ≠ percent) : EscapesWell (c :: rest) ↔ EscapesWell rest := by
  constructor
  · intro hescapes before after heq
    exact hescapes (c :: before) after (congrArg (c :: ·) heq)
  · rintro hescapes (_ | ⟨d, before⟩) after heq
    · exact absurd (List.cons.inj heq).1 h
    · exact hescapes before after (List.cons.inj heq).2

theorem EscapesWell.exists_escape (h : EscapesWell (percent :: text)) :
    ∃ first second rest, text = first :: second :: rest ∧ IsEscape first second := h [] text rfl

/-- The digits are no `%`. -/
theorem escapesWell_percent : EscapesWell (percent :: first :: second :: rest) ↔
    IsEscape first second ∧ EscapesWell rest := by
  have hrest (h : IsEscape first second) : EscapesWell (first :: second :: rest) ↔ EscapesWell rest :=
    (escapesWell_cons (ne_percent_of_isxdigit h.1)).trans (escapesWell_cons (ne_percent_of_isxdigit h.2.1))
  constructor
  · intro h
    obtain ⟨a, b, others, heq, hescape⟩ := h.exists_escape
    obtain ⟨rfl, htail⟩ := List.cons.inj heq
    obtain ⟨rfl, -⟩ := List.cons.inj htail
    refine ⟨hescape, (hrest hescape).mp fun before after heq => ?_⟩
    exact h (percent :: before) after (congrArg (percent :: ·) heq)
  · rintro ⟨hescape, h⟩ (_ | ⟨d, before⟩) after heq
    · exact ⟨first, second, rest, (List.cons.inj heq).2.symm, hescape⟩
    · exact (hrest hescape).mpr h before after (List.cons.inj heq).2

theorem percentDecoding_cons (h : c ≠ percent) : percentDecoding (c :: rest) = c :: percentDecoding rest := by
  match rest with
  | [] => rfl
  | [_] => rfl
  | _ :: _ :: _ => rw [percentDecoding, if_neg h]

theorem percentDecoding_percent : percentDecoding (percent :: first :: second :: rest) =
    UInt8.ofNat (16 * hexValue first + hexValue second) :: percentDecoding rest := by
  rw [percentDecoding, if_pos rfl]

end Escapes

section Loop
variable {str : StdString} {processed rest result : List UInt8}

theorem get_append (h : str.chars = processed ++ rest) (k : Nat) :
    str.get (processed.length + k) = (rest ++ [0])[k]? := by
  rw [StdString.get, h, List.append_assoc, List.getElem?_append_right (Nat.le_add_right _ _), Nat.add_sub_cancel_left]

theorem substr_append (h : str.chars = processed ++ rest) (k count : Nat) :
    str.substr (processed.length + k) count = (rest.drop k).take count := by
  rw [StdString.substr, h, ← List.drop_drop, List.drop_left]

theorem size_append (h : str.chars = processed ++ rest) : str.size = processed.length + rest.length := by
  rw [StdString.size, h, List.length_append]

/-- What the loop makes of the characters that are left. -/
structure Decodes (result rest decoded : List UInt8) : Prop where
  decodes : EscapesWell rest → decoded = result ++ percentDecoding rest
  refuses : ¬ EscapesWell rest → decoded = []

theorem sizeSub_of_le {a b : Nat} (h : b ≤ a) (ha : a < 2 ^ 64) : sizeSub a b = a - b := by
  unfold sizeSub
  omega

/-- At another character. -/
private theorem decodes_cons {c : UInt8} (h : str.chars = processed ++ c :: rest) (hc : c ≠ percent)
    (ih : ∃ r, sanitizeLoop str (processed.length + 1) (result ++ [c]) = some r ∧ Decodes (result ++ [c]) rest r) :
    ∃ r, sanitizeLoop str processed.length result = some r ∧ Decodes result (c :: rest) r := by
  have hsize : processed.length < str.size := by
    rw [size_append h]
    exact Nat.lt_add_of_pos_right (Nat.zero_lt_succ _)
  have hget : str.get processed.length = some c := get_append h 0
  obtain ⟨r, hr, hdecodes⟩ := ih
  refine ⟨r, ?_, fun hescapes => ?_, fun hnot => ?_⟩
  · rw [sanitizeLoop, dif_pos hsize, hget]
    simp only [Option.bind_eq_bind, Option.bind_some, if_neg hc]
    exact hr
  · rw [hdecodes.decodes ((escapesWell_cons hc).mp hescapes), percentDecoding_cons hc, List.append_assoc]
    rfl
  · exact hdecodes.refuses fun hrest => hnot ((escapesWell_cons hc).mpr hrest)

/-- At a `%` with two characters after it. -/
private theorem decodes_percent {first second : UInt8}
    (h : str.chars = processed ++ percent :: first :: second :: rest)
    (ih : ∀ decoded, ∃ r, sanitizeLoop str (processed.length + 3) (result ++ [decoded]) = some r ∧
      Decodes (result ++ [decoded]) rest r) :
    ∃ r, sanitizeLoop str processed.length result = some r ∧
      Decodes result (percent :: first :: second :: rest) r := by
  have hsize : str.size = processed.length + (rest.length + 3) := size_append h
  have hlt : str.size < 2 ^ 63 := str.length_lt
  have hbound : ¬ processed.length > sizeSub str.size 3 := by
    rw [sizeSub_of_le (by omega) (by omega)]
    omega
  have hrefuse (hnot : ¬ IsEscape first second) : Decodes result (percent :: first :: second :: rest) [] :=
    ⟨fun hescapes => absurd (escapesWell_percent.mp hescapes).1 hnot, fun _ => rfl⟩
  have hget := get_append h
  have hget0 : str.get processed.length = some percent := hget 0
  have hget1 : str.get (processed.length + 1) = some first := hget 1
  have hget2 : str.get (processed.length + 2) = some second := hget 2
  have hsubstr : str.substr (processed.length + 1) 2 = [first, second] := substr_append h 1 2
  rw [sanitizeLoop, dif_pos (by omega)]
  simp only [hget0, hget1, hget2, hsubstr, Option.bind_eq_bind, Option.bind_some, ↓reduceIte, hbound]
  by_cases hfirst : isxdigit first
  case neg =>
    rw [if_pos (by simpa using hfirst)]
    exact ⟨[], rfl, hrefuse fun hescape => hfirst hescape.1⟩
  by_cases hsecond : isxdigit second
  case neg =>
    rw [if_neg (by simpa using hfirst), if_pos (by simpa using hsecond)]
    exact ⟨[], rfl, hrefuse fun hescape => hsecond hescape.2.1⟩
  rw [if_neg (by simpa using hfirst), if_neg (by simpa using hsecond), strtoul16_digits hfirst hsecond]
  by_cases hescape : IsEscape first second
  case neg =>
    rw [if_pos (by simpa [isEscape_iff hfirst hsecond] using hescape)]
    exact ⟨[], rfl, hrefuse hescape⟩
  rw [if_neg ((isEscape_iff hfirst hsecond).mp hescape)]
  obtain ⟨r, hr, hdecodes⟩ := ih (UInt8.ofNat (16 * hexValue first + hexValue second))
  refine ⟨r, hr, fun hescapes => ?_, fun hnot => hdecodes.refuses fun hrest => ?_⟩
  · rw [hdecodes.decodes (escapesWell_percent.mp hescapes).2, percentDecoding_percent, List.append_assoc]
    rfl
  · exact hnot (escapesWell_percent.mpr ⟨hescape, hrest⟩)

/-- The tests that come after the wrapped difference find the NUL at the size. -/
private theorem decodes_cut (h : str.chars = processed ++ percent :: rest) (hcut : rest.length < 2) :
    ∃ r, sanitizeLoop str processed.length result = some r ∧ Decodes result (percent :: rest) r := by
  have hrefuse : Decodes result (percent :: rest) [] := by
    refine ⟨fun hescapes => ?_, fun _ => rfl⟩
    obtain ⟨first, second, others, rfl, -⟩ := hescapes.exists_escape
    exact absurd hcut (Nat.not_lt.mpr (Nat.le_add_left 2 _))
  have hsize : str.size = processed.length + (rest.length + 1) := size_append h
  have hget := get_append h
  have hget0 : str.get processed.length = some percent := hget 0
  rw [sanitizeLoop, dif_pos (by omega), hget0, Option.bind_eq_bind, Option.bind_some, if_pos rfl]
  by_cases hbound : processed.length > sizeSub str.size 3
  case pos =>
    rw [if_pos hbound]
    exact ⟨[], rfl, hrefuse⟩
  rw [if_neg hbound]
  obtain _ | ⟨first, _ | ⟨second, others⟩⟩ := rest
  · have hget1 : str.get (processed.length + 1) = some 0 := hget 1
    simp only [hget1, Option.bind_some, isxdigit_nul, Bool.not_false, ↓reduceIte]
    exact ⟨[], rfl, hrefuse⟩
  · have hget1 : str.get (processed.length + 1) = some first := hget 1
    have hget2 : str.get (processed.length + 2) = some 0 := hget 2
    simp only [hget1, hget2, Option.bind_some, isxdigit_nul, Bool.not_false, ↓reduceIte, ite_self]
    exact ⟨[], rfl, hrefuse⟩
  · exact absurd hcut (Nat.not_lt.mpr (Nat.le_add_left 2 _))

/-- The processed characters are what is before the index. -/
theorem sanitizeLoop_decodes (processed result : List UInt8) (h : str.chars = processed ++ rest) :
    ∃ r, sanitizeLoop str processed.length result = some r ∧ Decodes result rest r := by
  induction hn : rest.length using Nat.strongRecOn generalizing processed rest result with
  | ind n ih =>
  subst hn
  have hlater (taken others decoded : List UInt8) (hrest : rest = taken ++ others) (htaken : 0 < taken.length) :
      ∃ r, sanitizeLoop str (processed.length + taken.length) decoded = some r ∧ Decodes decoded others r := by
    subst hrest
    have hnext : str.chars = (processed ++ taken) ++ others := by rw [h, List.append_assoc]
    have hless : others.length < (taken ++ others).length := by
      rw [List.length_append]
      exact Nat.lt_add_of_pos_left htaken
    rw [← List.length_append]
    exact ih others.length hless (processed ++ taken) decoded hnext rfl
  match rest with
  | [] =>
    have hsize : ¬ processed.length < str.size := by
      rw [size_append h]
      exact Nat.lt_irrefl _
    refine ⟨result, ?_, fun _ => (List.append_nil result).symm, fun hnot => absurd escapesWell_nil hnot⟩
    rw [sanitizeLoop, dif_neg hsize]
  | c :: rest =>
    by_cases hc : c = percent
    case neg => exact decodes_cons h hc (hlater [c] rest (result ++ [c]) rfl Nat.one_pos)
    subst hc
    match rest with
    | [] => exact decodes_cut h Nat.two_pos
    | [first] => exact decodes_cut h Nat.one_lt_two
    | first :: second :: rest =>
      exact decodes_percent h fun decoded =>
        hlater [percent, first, second] rest (result ++ [decoded]) rfl (Nat.zero_lt_succ 2)

end Loop

/-- No index after the size is read, and either all of the escapes are decoded or nothing is returned. -/
theorem sanitizeURIEscapedCharacters_decodes (str : StdString) :
    ∃ result, sanitizeURIEscapedCharacters str = some result ∧
      (EscapesWell str.chars → result = percentDecoding str.chars) ∧
      (¬ EscapesWell str.chars → result = []) := by
  obtain ⟨r, hr, hdecodes⟩ := sanitizeLoop_decodes [] [] (List.nil_append str.chars).symm
  exact ⟨r, hr, hdecodes.decodes, hdecodes.refuses⟩

end Ogre.Fml
