import Ogre.Hal.PipelineCongruence

/-! Runs of `GetPipeline` over descriptors with all their fields. -/
namespace Ogre.Hal.Descriptors
open Ogre.Core Ogre.Fml Ogre.Library

/-- A call of one of the overloads of `GetPipeline`. -/
inductive Request
  | render (descriptor : PipelineDescriptor)
  | compute (descriptor : ComputePipelineDescriptor)
  deriving DecidableEq, Repr

namespace Request

/-- The overloads look in different maps. -/
def isEqual : Request → Request → Bool
  | render d, render e => d.isEqual e
  | compute d, compute e => d.isEqual e
  | _, _ => false

def getHash (h : StdHash) : Request → BitVec 64
  | render d => d.getHash h
  | compute d => d.getHash h

def creationInputs : Request → Option CreationInputs
  | render d => d.creationInputs
  | compute d => d.creationInputs

def uncompared : Request → List DescriptorSetLayout × List (Option Nat) × List Scalar
  | render d => d.uncompared
  | compute d => d.uncompared

/-- What is not compared of the two is the same, if a pipeline can be created at all. -/
def SameUncompared (a b : Request) : Prop := a.creationInputs.isSome → a.uncompared = b.uncompared

def identity : Request → Option Request
  | render d => d.identity.map render
  | compute d => some (compute d.identity)

variable {a b i : Request}

theorem isEqual_iff : a.isEqual b ↔ ∃ i, a.identity = some i ∧ b.identity = some i := by
  cases a with
  | render d =>
    cases b with
    | render e =>
      simp only [isEqual, PipelineDescriptor.isEqual_iff, identity, Option.map_eq_some_iff]
      constructor
      · rintro ⟨i, hd, he⟩
        exact ⟨render i, ⟨i, hd, rfl⟩, i, he, rfl⟩
      · rintro ⟨_, ⟨i, hd, rfl⟩, j, he, heq⟩
        cases heq
        exact ⟨_, hd, he⟩
    | compute e => simp [isEqual, identity]
  | compute d =>
    cases b with
    | render e => simp [isEqual, identity]
    | compute e =>
      rw [isEqual, ComputePipelineDescriptor.isEqual_iff]
      constructor
      · intro h
        exact ⟨compute d.identity, rfl, congrArg (fun i => some (compute i)) h.symm⟩
      · rintro ⟨i, hd, he⟩
        exact compute.inj (Option.some.inj (hd.trans he.symm))

theorem isEqual_symm (h : a.isEqual b) : b.isEqual a := by
  obtain ⟨i, ha, hb⟩ := isEqual_iff.mp h
  exact isEqual_iff.mpr ⟨i, hb, ha⟩

theorem isEqual_trans {c : Request} (hab : a.isEqual b) (hbc : b.isEqual c) : a.isEqual c := by
  obtain ⟨i, ha, hb⟩ := isEqual_iff.mp hab
  obtain ⟨j, hb', hc⟩ := isEqual_iff.mp hbc
  obtain rfl : i = j := Option.some.inj (hb.symm.trans hb')
  exact isEqual_iff.mpr ⟨i, ha, hc⟩

theorem getHash_identity (h : StdHash) (hi : a.identity = some i) : i.getHash h = a.getHash h := by
  cases a with
  | render d =>
    obtain ⟨j, hj, rfl⟩ := Option.map_eq_some_iff.mp hi
    exact PipelineDescriptor.getHash_identity h hj
  | compute d =>
    cases hi
    exact ComputePipelineDescriptor.getHash_identity h

/-- Descriptors that are equal have equal hashes. -/
theorem getHash_eq (h : StdHash) (hab : a.isEqual b) : a.getHash h = b.getHash h := by
  obtain ⟨i, ha, hb⟩ := isEqual_iff.mp hab
  rw [← getHash_identity h ha, getHash_identity h hb]

/-- Creation reads the same of descriptors that are equal if and only if what is not
compared of them is the same. -/
theorem creationInputs_eq_iff (hab : a.isEqual b) :
    a.creationInputs = b.creationInputs ↔ SameUncompared a b := by
  obtain ⟨i, ha, hb⟩ := isEqual_iff.mp hab
  cases a with
  | render d =>
    obtain ⟨j, hd, rfl⟩ := Option.map_eq_some_iff.mp ha
    cases b with
    | render e =>
      obtain ⟨k, he, heq⟩ := Option.map_eq_some_iff.mp hb
      cases heq
      exact PipelineDescriptor.creationInputs_eq_iff hd he
    | compute e => cases hb
  | compute d =>
    cases ha
    cases b with
    | render e =>
      obtain ⟨k, -, heq⟩ := Option.map_eq_some_iff.mp hb
      cases heq
    | compute e =>
      simp only [identity, Option.some.injEq, compute.injEq] at hb
      exact ComputePipelineDescriptor.creationInputs_eq_iff hb.symm

end Request

/-- The maps of the library as one, with what the pipeline of each entry is created from. -/
structure PipelineMaps where
  entries : List (Request × Option CreationInputs) := []

namespace PipelineMaps
variable {h : StdHash} {s t : PipelineMaps} {a b : Request}

/-- `pipelines_.find`: hashes are compared before descriptors are. -/
def find (h : StdHash) (s : PipelineMaps) (a : Request) : Option (Option CreationInputs) :=
  (s.entries.find? fun e => e.1.getHash h = a.getHash h && e.1.isEqual a).map (·.2)

/-- `GetPipeline`: the pipeline that is found, or one that is created. -/
def getPipeline (h : StdHash) (s : PipelineMaps) (a : Request) : Option CreationInputs × PipelineMaps :=
  match s.find h a with
  | some found => (found, s)
  | none => (a.creationInputs, ⟨s.entries ++ [(a, a.creationInputs)]⟩)

def machine (h : StdHash) : Machine PipelineMaps Request where
  init := {}
  step s a := some (s.getPipeline h a).2

/-- The pipeline has the layout and the state of one that is created afresh. -/
def ReturnsFresh (h : StdHash) (s : PipelineMaps) (a : Request) (_ : PipelineMaps) : Prop :=
  (s.getPipeline h a).1 = a.creationInputs

/-- What the maps hold for an identity. -/
private def held (s : PipelineMaps) : Option Request → Option (Option CreationInputs)
  | none => none
  | some i => (s.entries.find? fun e => e.1.identity = some i).map (·.2)

/-- Requests that are equal to some request. -/
private def event (_ : PipelineMaps) (a : Request) : Option Request := if a.identity.isSome then some a else none

private theorem find_eq_held : s.find h a = s.held a.identity := by
  unfold find held
  cases ha : a.identity with
  | none =>
    simp only [Option.map_eq_none_iff, List.find?_eq_none, Bool.and_eq_true, not_and]
    rintro e - - heq
    obtain ⟨i, -, hi⟩ := Request.isEqual_iff.mp heq
    rw [ha] at hi
    cases hi
  | some i =>
    congr 2
    funext e
    rw [Bool.eq_iff_iff, Bool.and_eq_true, decide_eq_true_eq, decide_eq_true_eq]
    constructor
    · rintro ⟨-, heq⟩
      obtain ⟨j, he, hj⟩ := Request.isEqual_iff.mp heq
      rw [he, ← hj, ha]
    · intro he
      have heq := Request.isEqual_iff.mpr ⟨i, he, ha⟩
      exact ⟨Request.getHash_eq h heq, heq⟩

private theorem held_append {x : Request × Option CreationInputs} {i : Option Request} :
    held ⟨s.entries ++ [x]⟩ i =
      if i.isSome ∧ s.held i = none ∧ x.1.identity = i then some x.2 else s.held i := by
  unfold held
  cases i with
  | none => simp
  | some i =>
    simp only [List.find?_append, Option.isSome_some, true_and, Option.map_eq_none_iff]
    cases hfind : s.entries.find? fun e => e.1.identity = some i with
    | some found => simp
    | none =>
      rcases Decidable.em (x.1.identity = some i) with hx | hx <;> simp [hx]

private theorem step_fill (ht : (machine h).step s a = some t) :
    t.held = Machine.fill Request.identity Request.creationInputs s.held (event s a) := by
  cases ht
  unfold getPipeline event
  rw [find_eq_held]
  cases ha : a.identity with
  | none =>
    funext i
    have hne : ¬(i.isSome ∧ s.held i = none ∧ a.identity = i) := by
      rintro ⟨hi, -, rfl⟩
      rw [ha] at hi
      cases hi
    exact held_append.trans (if_neg hne)
  | some k =>
    simp only [Option.isSome_some, if_true, Machine.fill, ha]
    cases hheld : s.held (some k) with
    | some found =>
      have hkept : Function.update s.held (some k) (some found) = s.held := by
        rw [← hheld, Function.update_eq_self]
      exact hkept.symm
    | none =>
      funext i
      refine held_append.trans ?_
      rcases eq_or_ne i (some k) with rfl | hi
      · rw [if_pos ⟨rfl, hheld, ha⟩, Function.update_self]
        rfl
      · rw [if_neg fun h => hi (h.2.2.symm.trans ha), Function.update_of_ne hi]

private theorem returnsFresh_iff : ReturnsFresh h s a t ↔
    ∀ e ∈ event s a, Machine.Agrees Request.identity Request.creationInputs s.held e := by
  unfold ReturnsFresh getPipeline event
  rw [find_eq_held]
  cases ha : a.identity with
  | none => simp [held]
  | some k =>
    simp only [Option.isSome_some, if_true, Option.mem_def, Option.some.injEq, forall_eq', Machine.Agrees, ha]
    cases s.held (some k) <;> simp

/-- All calls of a run are requests, and those that equal some request fill the maps. -/
private theorem collect_eq (requests : List Request) :
    (machine h).collect event s requests = requests.filter fun a => a.identity.isSome := by
  induction requests generalizing s with
  | nil => rfl
  | cons a requests ih =>
    rw [Machine.collect_cons (t := (s.getPipeline h a).2) rfl, ih, event]
    split
    next ha => simp [ha]
    next ha => simp [ha]

private theorem sameUncompared_iff : (a.identity.isSome → b.identity.isSome → a.identity = b.identity →
    a.creationInputs = b.creationInputs) ↔ (a.isEqual b → Request.SameUncompared a b) := by
  constructor
  · intro h hab
    obtain ⟨i, ha, hb⟩ := Request.isEqual_iff.mp hab
    exact (Request.creationInputs_eq_iff hab).mp (h (by simp [ha]) (by simp [hb]) (ha.trans hb.symm))
  · intro h ha _ heq
    obtain ⟨i, hi⟩ := Option.isSome_iff_exists.mp ha
    have hab := Request.isEqual_iff.mpr ⟨i, hi, heq ▸ hi⟩
    exact (Request.creationInputs_eq_iff hab).mpr (h hab)

/-- Equal descriptors have equal hashes; creation reads the same of them if and only if
what is not compared is the same; and a sequence of calls returns pipelines as they
would be created afresh if and only if that is so for all equal descriptors in it. -/
theorem congruence_iff (h : StdHash) :
    (∀ a b : Request, a.isEqual b → a.getHash h = b.getHash h ∧
      (a.creationInputs = b.creationInputs ↔ Request.SameUncompared a b)) ∧
    ∀ requests, (machine h).Along (ReturnsFresh h) (machine h).init requests ↔
      requests.Pairwise fun a b => a.isEqual b → Request.SameUncompared a b := by
  refine ⟨fun a b hab => ⟨Request.getHash_eq h hab, Request.creationInputs_eq_iff hab⟩, fun requests => ?_⟩
  rw [Machine.along_iff_pairwise (I := fun _ => True) (fun _ _ _ _ _ => trivial) (fun _ _ _ _ => step_fill)
    (fun _ _ _ _ _ => returnsFresh_iff) trivial fun k => by cases k <;> rfl]
  rw [collect_eq, List.pairwise_filter]
  exact List.Pairwise.iff fun a b => sameUncompared_iff

instance (h : StdHash) (s t : PipelineMaps) (a : Request) : Decidable (ReturnsFresh h s a t) :=
  inferInstanceAs (Decidable (_ = _))

def attachmentVertices : VertexDescriptor :=
  VertexDescriptor.empty.registerDescriptorSetLayouts [⟨64, .kInputAttachment, .kFragment⟩]

/-- Two descriptors that differ in the set layouts of their vertex descriptors only. -/
def plainRequest : Request := .render { vertexDescriptor := some .empty }

def attachmentRequest : Request := .render { vertexDescriptor := some attachmentVertices }

def zeroHash : StdHash := ⟨fun _ => 0, fun _ => 0, 0⟩

/-- They are equal, and the pipeline of the first is returned for the second. -/
theorem layouts_ignored :
    plainRequest.isEqual attachmentRequest ∧ plainRequest.creationInputs ≠ attachmentRequest.creationInputs ∧
      ¬ (machine zeroHash).Along (ReturnsFresh zeroHash) (machine zeroHash).init
        [plainRequest, attachmentRequest] := by
  decide

end PipelineMaps
end Ogre.Hal.Descriptors
