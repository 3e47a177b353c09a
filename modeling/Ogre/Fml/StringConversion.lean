import Mathlib.Tactic.Common
import Ogre.Library.TextEncoding

/-! Conversions between UTF-8 and UTF-16 of views, which are not always ended by a NUL. -/
namespace Ogre.Fml
open Ogre.Library

/-- A pointer that may be null, with the units that can be read from there on, and a size. -/
structure BasicStringView (α : Type) where
  data : Option (List α)
  size : Nat
  readable : size ≤ (data.getD []).length

namespace BasicStringView
variable {α : Type}

def units (v : BasicStringView α) : List α := (v.data.getD []).take v.size

/-- A string of the standard library has a NUL after its units. -/
def ofString (E : TextEncoding α) (units : List α) : BasicStringView α where
  data := some (units ++ [E.nul])
  size := units.length
  readable := by
    rw [Option.getD_some, List.length_append]
    exact Nat.le_add_right _ _

end BasicStringView

section Converter
variable {α β : Type} [DecidableEq α]

/-- The units up to the first NUL. There is no result where it is not in what can be read. -/
def cString (nul : α) : List α → Option (List α)
  | [] => none
  | u :: rest => if u = nul then some [] else (cString nul rest).map (u :: ·)

/-- A `wstring_convert` throws where the units encode no text. -/
def wstringConvert (E : TextEncoding α) (F : TextEncoding β) (pointer : Option (List α)) : Option (List β) := do
  let units ← cString E.nul (← pointer)
  let text ← E.decode units
  return F.encode text

end Converter

/-- The size is not passed on. -/
def utf16ToUtf8 (string : BasicStringView UInt16) : Option (List UInt8) := wstringConvert utf16 utf8 string.data

def utf8ToUtf16 (string : BasicStringView UInt8) : Option (List UInt16) := wstringConvert utf8 utf16 string.data

/-- A view of the units of a text. -/
structure WellFormedView {α : Type} (E : TextEncoding α) extends BasicStringView α where
  text : List Char
  units_eq : toBasicStringView.units = E.encode text

namespace WellFormedView
variable {α β : Type} {E : TextEncoding α} {F : TextEncoding β}

/-- The view is converted, and what `back` makes of the string is the view. -/
def RoundTrips (convert : BasicStringView α → Option (List β)) (back : BasicStringView β → Option (List α))
    (F : TextEncoding β) (v : WellFormedView E) : Prop :=
  convert v.toBasicStringView = some (F.encode v.text) ∧
    (convert v.toBasicStringView).bind (fun units => back (.ofString F units)) = some v.units

/-- The first NUL from the pointer on is what follows the view. -/
def Terminated (v : WellFormedView E) : Prop :=
  (∃ rest, v.data = some (v.units ++ E.nul :: rest)) ∧ E.nul ∉ v.units

end WellFormedView

section Converter
variable {α β : Type} [DecidableEq α] {E : TextEncoding α} {F : TextEncoding β}

theorem cString_eq_some_iff {nul : α} {memory units : List α} :
    cString nul memory = some units ↔ (∃ rest, memory = units ++ nul :: rest) ∧ nul ∉ units := by
  induction memory generalizing units with
  | nil =>
    constructor
    · intro h
      cases h
    · rintro ⟨⟨rest, h⟩, -⟩
      exact absurd h.symm (List.append_ne_nil_of_right_ne_nil _ (List.cons_ne_nil _ _))
  | cons u memory ih =>
    rw [cString]
    by_cases hu : u = nul
    · rw [if_pos hu, Option.some.injEq]
      subst hu
      constructor
      · rintro rfl
        exact ⟨⟨memory, rfl⟩, List.not_mem_nil⟩
      · rintro ⟨⟨rest, h⟩, hnot⟩
        cases units with
        | nil => rfl
        | cons w units => exact absurd (List.mem_cons.mpr (Or.inl (List.cons.inj h).1)) hnot
    · rw [if_neg hu, Option.map_eq_some_iff]
      constructor
      · rintro ⟨units, hunits, rfl⟩
        obtain ⟨⟨rest, rfl⟩, hnot⟩ := ih.mp hunits
        exact ⟨⟨rest, rfl⟩, List.not_mem_cons_of_ne_of_not_mem (Ne.symm hu) hnot⟩
      · rintro ⟨⟨rest, h⟩, hnot⟩
        cases units with
        | nil => exact absurd (List.cons.inj h).1 hu
        | cons w units =>
          obtain ⟨rfl, hrest⟩ := List.cons.inj h
          exact ⟨units, ih.mpr ⟨⟨rest, hrest⟩, fun hmem => hnot (List.mem_cons_of_mem _ hmem)⟩, rfl⟩

/-- What is converted is a text that the units before the first NUL encode. -/
theorem wstringConvert_eq_some_iff {pointer : Option (List α)} {text : List Char} :
    wstringConvert E F pointer = some (F.encode text) ↔
      (∃ rest, pointer = some (E.encode text ++ E.nul :: rest)) ∧ E.nul ∉ E.encode text := by
  constructor
  · intro h
    obtain ⟨memory, rfl, hconvert⟩ := Option.bind_eq_some_iff.mp h
    obtain ⟨units, hcString, htext⟩ := Option.bind_eq_some_iff.mp hconvert
    obtain ⟨text', hdecode, hencode⟩ := Option.bind_eq_some_iff.mp htext
    obtain rfl := F.encode_injective (Option.some.inj hencode)
    obtain rfl := (E.decode_eq_some_iff _ _).mp hdecode
    obtain ⟨⟨rest, rfl⟩, hnot⟩ := cString_eq_some_iff.mp hcString
    exact ⟨⟨rest, rfl⟩, hnot⟩
  · rintro ⟨⟨rest, rfl⟩, hnot⟩
    have hcString : cString E.nul (E.encode text ++ E.nul :: rest) = some (E.encode text) :=
      cString_eq_some_iff.mpr ⟨⟨rest, rfl⟩, hnot⟩
    simp only [wstringConvert, Option.bind_eq_bind, Option.bind_some, hcString, E.decode_encode]
    rfl

theorem roundTrips_of_wstringConvert [DecidableEq β] (v : WellFormedView E) :
    v.RoundTrips (fun s => wstringConvert E F s.data) (fun s => wstringConvert F E s.data) F ↔ v.Terminated := by
  rw [WellFormedView.RoundTrips, wstringConvert_eq_some_iff, ← v.units_eq]
  constructor
  · exact fun h => h.1
  · intro h
    refine ⟨h, ?_⟩
    have hconvert : wstringConvert E F v.data = some (F.encode v.text) :=
      wstringConvert_eq_some_iff.mpr (by rwa [← v.units_eq])
    have hnul : F.nul ∉ F.encode v.text := by
      rw [F.nul_mem_encode, ← E.nul_mem_encode, ← v.units_eq]
      exact h.2
    rw [hconvert, v.units_eq]
    exact wstringConvert_eq_some_iff.mpr ⟨⟨[], rfl⟩, hnul⟩

end Converter

/-- A view is converted and comes back exactly where the NUL that the pointer is read up to is right after it. -/
theorem conversions_roundTrip_iff (v : WellFormedView utf16) (w : WellFormedView utf8) :
    (v.RoundTrips utf16ToUtf8 utf8ToUtf16 utf8 ↔ v.Terminated) ∧
      (w.RoundTrips utf8ToUtf16 utf16ToUtf8 utf16 ↔ w.Terminated) :=
  ⟨roundTrips_of_wstringConvert v, roundTrips_of_wstringConvert w⟩

/-- The first three units of `u"foobar"`. -/
def fooView : WellFormedView utf16 where
  data := some (utf16.encode "foobar".toList ++ [0])
  size := 3
  readable := by decide
  text := "foo".toList
  units_eq := by decide

/-- All of `u"a\0b"`. -/
def nulView : WellFormedView utf16 where
  toBasicStringView := .ofString utf16 (utf16.encode ['a', '\x00', 'b'])
  text := ['a', '\x00', 'b']
  units_eq := by decide

/-- What follows a view is converted too, and nothing is converted after a NUL in it. -/
theorem conversions_not_of_view :
    (utf16ToUtf8 fooView.toBasicStringView = some (utf8.encode "foobar".toList) ∧
        ¬ fooView.RoundTrips utf16ToUtf8 utf8ToUtf16 utf8) ∧
      utf16ToUtf8 nulView.toBasicStringView = some (utf8.encode ['a']) ∧
        ¬ nulView.RoundTrips utf16ToUtf8 utf8ToUtf16 utf8 := by
  have hfoo : utf16ToUtf8 fooView.toBasicStringView = some (utf8.encode "foobar".toList) := by decide
  have hnul : utf16ToUtf8 nulView.toBasicStringView = some (utf8.encode ['a']) := by decide
  refine ⟨⟨hfoo, fun h => ?_⟩, hnul, fun h => ?_⟩
  · exact absurd (utf8.encode_injective (Option.some.inj (hfoo.symm.trans h.1))) (by decide)
  · exact absurd (utf8.encode_injective (Option.some.inj (hnul.symm.trans h.1))) (by decide)

end Ogre.Fml
