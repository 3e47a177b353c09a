import Mathlib.Data.List.Induction
import Mathlib.Logic.Function.Basic
import Ogre.Fml.CommandLine

/-! The options of a command line by name: one lookup goes through an index and a string that ends at
the first NUL, the other through the list. -/
namespace Ogre.Fml

def nul : Char := Char.ofNat 0

/-- A `std::string_view`: what can be read from its pointer on, unless that is null, and its size. -/
structure StringView where
  data : Option Chars
  size : Nat
  readable : size ≤ (data.getD []).length

namespace StringView

def chars (v : StringView) : Chars := (v.data.getD []).take v.size

/-- What a `std::string` makes of the pointer alone. Nothing is defined for a null pointer, and
where no NUL comes before the end of the memory. -/
def cString (v : StringView) : Option Chars := do
  let memory ← v.data
  let length ← memory.findIdx? (· = nul)
  some (memory.take length)

end StringView

/-- The loop of the constructor, which makes the index. Nothing else writes it or the options. -/
def optionIndex (options : List CommandLine.Option) : Chars → Option Nat :=
  options.zipIdx.foldl (fun index o => Function.update index o.1.name (some o.2)) fun _ => none

/-- The index of the option, if there is one. There is no result where the name is no string. -/
def hasOption (c : CommandLine) (name : StringView) : Option (Option Nat) := name.cString.map (optionIndex c.options)

/-- An index outside of the options has no result. -/
def getOptionValue (c : CommandLine) (name : StringView) : Option (Option Chars) := do
  match ← hasOption c name with
  | none => some none
  | some index => (c.options[index]?).map fun option => some option.value

def getOptionValues (c : CommandLine) (name : StringView) : List Chars :=
  (c.options.filter fun option => option.name = name.chars).map (·.value)

/-- The value of the last option of a name. -/
def lastValue (options : List CommandLine.Option) (name : Chars) : Option Chars :=
  (options.filter fun option => option.name = name).getLast?.map (·.value)

/-- The three lookups are what a scan of the options finds. -/
structure LookupsAgree (c : CommandLine) (name : StringView) : Prop where
  hasOption : ∃ index, hasOption c name = some index ∧ (index.isSome ↔ ∃ o ∈ c.options, o.name = name.chars)
  getOptionValue : getOptionValue c name = some (lastValue c.options name.chars)
  getOptionValues : getOptionValues c name = (c.options.filter fun option => option.name = name.chars).map (·.value)

/-- The string that the view is taken for is its own, or it makes no difference to these options. -/
def EndsAsRead (c : CommandLine) (name : StringView) : Prop :=
  ∃ s, name.cString = some s ∧ (s = name.chars ∨ lastValue c.options s = lastValue c.options name.chars)

variable {c : CommandLine} {name : StringView} {options : List CommandLine.Option} {o : CommandLine.Option}
  {s : Chars}

theorem optionIndex_concat :
    optionIndex (options ++ [o]) s = if s = o.name then some options.length else optionIndex options s := by
  rw [optionIndex, List.zipIdx_append, List.foldl_append]
  simp [Function.update_apply, optionIndex]

theorem lastValue_concat :
    lastValue (options ++ [o]) s = if o.name = s then some o.value else lastValue options s := by
  rw [lastValue, List.filter_append]
  by_cases h : o.name = s <;> simp [lastValue, h]

/-- The index has the last option of each name. -/
theorem optionIndex_value (options : List CommandLine.Option) (s : Chars) :
    (optionIndex options s = none ∧ lastValue options s = none) ∨
      ∃ i o, optionIndex options s = some i ∧ options[i]? = some o ∧ lastValue options s = some o.value := by
  induction options using List.reverseRecOn with
  | nil => exact .inl ⟨rfl, rfl⟩
  | append_singleton options o ih =>
    rw [optionIndex_concat, lastValue_concat]
    by_cases h : o.name = s
    · rw [if_pos h.symm, if_pos h]
      exact .inr ⟨_, o, rfl, by simp, rfl⟩
    · rw [if_neg (Ne.symm h), if_neg h]
      refine ih.imp_right ?_
      rintro ⟨i, p, hi, hp, hvalue⟩
      exact ⟨i, p, hi, by rw [List.getElem?_append_left (List.getElem?_eq_some_iff.mp hp).1, hp], hvalue⟩

theorem lastValue_isSome : (lastValue options s).isSome ↔ ∃ o ∈ options, o.name = s := by
  rw [lastValue, Option.isSome_map, List.getLast?_isSome]
  simp

theorem optionIndex_isSome : (optionIndex options s).isSome = (lastValue options s).isSome := by
  rcases optionIndex_value options s with ⟨hi, hv⟩ | ⟨i, o, hi, -, hv⟩ <;> rw [hi, hv] <;> rfl

/-- Through the index the last value is found that the C string has. -/
theorem getOptionValue_eq (h : name.cString = some s) : getOptionValue c name = some (lastValue c.options s) := by
  rw [getOptionValue, hasOption, h]
  rcases optionIndex_value c.options s with ⟨hi, hv⟩ | ⟨i, o, hi, ho, hv⟩
  · simp [hi, hv]
  · simp [hi, ho, hv]

/-- The lookups agree exactly where the view ends as it is read. -/
theorem lookupsAgree_iff (c : CommandLine) (name : StringView) : LookupsAgree c name ↔ EndsAsRead c name := by
  constructor
  · intro h
    obtain ⟨index, hindex, -⟩ := h.hasOption
    obtain ⟨s, hs, -⟩ := Option.map_eq_some_iff.mp hindex
    have hvalue := h.getOptionValue
    rw [getOptionValue_eq hs] at hvalue
    exact ⟨s, hs, .inr (Option.some.inj hvalue)⟩
  · rintro ⟨s, hs, heq⟩
    have hvalue : lastValue c.options s = lastValue c.options name.chars := by
      rcases heq with rfl | heq
      · rfl
      · exact heq
    refine ⟨⟨optionIndex c.options s, by rw [hasOption, hs]; rfl, ?_⟩, ?_, rfl⟩
    · rw [optionIndex_isSome, hvalue, lastValue_isSome]
    · rw [getOptionValue_eq hs, hvalue]

/-- A view of a whole string, as of a literal, ends as it is read. -/
theorem endsAsRead_of_terminated {rest : Chars} (hnul : nul ∉ s) (hdata : name.data = some (s ++ nul :: rest))
    (hsize : name.size = s.length) : EndsAsRead c name := by
  have hlength : (s ++ nul :: rest).findIdx? (· = nul) = some s.length := by
    have hnone : s.findIdx? (fun x => decide (x = nul)) = none := by
      rw [List.findIdx?_eq_none_iff]
      intro x hx
      exact decide_eq_false fun heq => hnul (heq ▸ hx)
    rw [List.findIdx?_append, hnone]
    simp [List.findIdx?_cons]
  refine ⟨s, ?_, .inl ?_⟩
  · simp [StringView.cString, hdata, hlength]
  · simp [StringView.chars, hdata, hsize]

/-- A command line with the option `foobar`, and the first three characters of its name. -/
theorem lookupsAgree_prefix :
    ¬ LookupsAgree (commandLineFromIterators ["prog".toList, "--foobar=1".toList])
      ⟨some ("foobar".toList ++ [nul]), 3, by decide⟩ := by
  intro h
  have hvalue := h.getOptionValue
  exact absurd hvalue (by decide)

end Ogre.Fml
