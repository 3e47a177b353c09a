import Mathlib.Data.List.Basic
import Mathlib.Logic.Function.Basic

/-! The ASCII trie: how strings are added to it and how it is asked for a prefix. -/
namespace Ogre.Fml

/-- A C string: the characters before its terminating NUL. -/
structure AsciiString where
  chars : List (Fin 128)
  terminated : 0 ∉ chars

inductive TrieNode
  | mk (children : Fin 128 → Option TrieNode)

namespace TrieNode

def children : TrieNode → Fin 128 → Option TrieNode
  | mk children => children

/-- `std::make_unique<TrieNode>()`. -/
def new : TrieNode := ⟨fun _ => none⟩

end TrieNode

structure AsciiTrie where
  node : Option TrieNode := none

namespace AsciiTrie

/-- The characters of an entry, behind which `c_str` puts a NUL. One of its own stops the recursion as well. -/
def add (trie : Option TrieNode) : List (Fin 128) → Option TrieNode
  | [] => trie
  | ch :: entry =>
    if ch ≠ 0 then
      let node := trie.getD .new
      some ⟨Function.update node.children ch (add (node.children ch) entry)⟩
    else trie

def makeTrie (entries : List (List (Fin 128))) : Option TrieNode := entries.foldl add none

/-- What was filled in before is cleared. -/
def fill (_trie : AsciiTrie) (entries : List (List (Fin 128))) : AsciiTrie := ⟨makeTrie entries⟩

/-- The loop, with what it leaves in `child` and whether `trie_position` has left the root. -/
def queryLoop (triePosition : TrieNode) (child : Option TrieNode) (moved : Bool) :
    List (Fin 128) → Option TrieNode × Bool
  | [] => (child, moved)
  | ch :: query =>
    match triePosition.children ch with
    | none => (none, moved)
    | some next => queryLoop next (some next) true query

def queryFrom (trie : TrieNode) (query : List (Fin 128)) : Bool :=
  let (child, moved) := queryLoop trie none false query
  child.isNone && moved

def query (trie : AsciiTrie) (argument : AsciiString) : Bool :=
  match trie.node with
  | none => true
  | some node => queryFrom node argument.chars

/-- What can be read of a string through `c_str`. -/
def cStr (entry : List (Fin 128)) : List (Fin 128) := entry.takeWhile (· ≠ 0)

section Paths
variable {trie : Option TrieNode} {node : TrieNode} {path entry : List (Fin 128)} {entries : List (List (Fin 128))}

/-- The node that a path leads to. -/
def nodeAt (trie : Option TrieNode) : List (Fin 128) → Option TrieNode
  | [] => trie
  | ch :: path => trie.bind fun node => nodeAt (node.children ch) path

@[simp] theorem nodeAt_none : nodeAt none path = none := by cases path <;> rfl

@[simp] theorem cStr_cons_zero : cStr (0 :: entry) = [] := List.takeWhile_cons_of_neg (by simp)

theorem cStr_cons {ch : Fin 128} (h : ch ≠ 0) : cStr (ch :: entry) = ch :: cStr entry :=
  List.takeWhile_cons_of_pos (by simpa using h)

/-- An entry makes the nodes of the proper prefixes of what is read of it. -/
theorem nodeAt_add : (nodeAt (add trie entry) path).isSome ↔
    (nodeAt trie path).isSome ∨ path <+: cStr entry ∧ path ≠ cStr entry := by
  induction entry generalizing trie path with
  | nil =>
    have h : ¬ (path <+: cStr [] ∧ path ≠ cStr []) := by simp [cStr]
    rw [add, or_iff_left h]
  | cons ch entry ih =>
    by_cases hzero : ch = 0
    · subst hzero
      simp [add]
    rw [cStr_cons hzero]
    cases path with
    | nil => simp [add, hzero, nodeAt]
    | cons c path =>
      have hroot : (nodeAt ((trie.getD .new).children c) path).isSome ↔ (nodeAt trie (c :: path)).isSome := by
        cases trie with
        | none => simp [TrieNode.new, TrieNode.children, nodeAt]
        | some node => rfl
      by_cases hc : c = ch
      · subst hc
        have hstep : nodeAt (add trie (c :: entry)) (c :: path) =
            nodeAt (add ((trie.getD .new).children c) entry) path := by simp [add, hzero, nodeAt, TrieNode.children]
        rw [hstep, ih, hroot]
        simp
      · have hstep : nodeAt (add trie (ch :: entry)) (c :: path) = nodeAt ((trie.getD .new).children c) path := by
          simp [add, hzero, nodeAt, TrieNode.children, hc]
        rw [hstep, hroot]
        simp [hc]

private theorem nodeAt_foldl : (nodeAt (entries.foldl add trie) path).isSome ↔
    (nodeAt trie path).isSome ∨ ∃ e ∈ entries, path <+: cStr e ∧ path ≠ cStr e := by
  induction entries generalizing trie with
  | nil => simp
  | cons e entries ih =>
    rw [List.foldl_cons, ih, nodeAt_add, or_assoc, List.exists_mem_cons_iff]

theorem nodeAt_makeTrie : (nodeAt (makeTrie entries) path).isSome ↔
    ∃ e ∈ entries, path <+: cStr e ∧ path ≠ cStr e := by
  rw [makeTrie, nodeAt_foldl]
  simp

/-- The loop ends without a child exactly if it gets to a node of the trie at all, and not
through the whole query. -/
private theorem queryLoop_iff (node : TrieNode) (child : Option TrieNode) (moved : Bool) (query : List (Fin 128))
    (hc : moved = true → child.isSome) :
    ((queryLoop node child moved query).1.isNone && (queryLoop node child moved query).2) = true ↔
      ¬ (nodeAt (some node) query).isSome ∧
        (moved = true ∨ ∃ ch rest, query = ch :: rest ∧ (node.children ch).isSome) := by
  induction query generalizing node child moved with
  | nil =>
    cases moved with
    | false => simp [queryLoop, nodeAt]
    | true =>
      obtain ⟨next, rfl⟩ := Option.isSome_iff_exists.mp (hc rfl)
      simp [queryLoop, nodeAt]
  | cons ch query ih =>
    cases hchild : node.children ch with
    | none => simp [queryLoop, nodeAt, hchild]
    | some next =>
      have hnext := ih next (some next) true (fun _ => rfl)
      simp only [queryLoop, hchild]
      rw [hnext]
      simp [nodeAt, hchild]

end Paths

variable {entries : List (List (Fin 128))} {argument : AsciiString}

/-- What is read of some entry goes on after the first character of the query. -/
def BranchesAt (entries : List (List (Fin 128))) (argument : AsciiString) : Prop :=
  ∃ e ∈ entries, 2 ≤ (cStr e).length ∧ (cStr e).head? = argument.chars.head?

/-- The query stops inside of what is read of an entry. -/
def StopsInside (entries : List (List (Fin 128))) (argument : AsciiString) : Prop :=
  ∃ e ∈ entries, argument.chars <+: cStr e ∧ argument.chars ≠ cStr e

/-- Some entry, with all of its characters, is a prefix of the query. -/
def Prefixed (entries : List (List (Fin 128))) (argument : AsciiString) : Prop :=
  ∃ e ∈ entries, e <+: argument.chars

private theorem branchesAt_iff : BranchesAt entries argument ↔
    ∃ ch rest, argument.chars = ch :: rest ∧ (nodeAt (makeTrie entries) [ch]).isSome := by
  constructor
  · rintro ⟨e, he, hlength, hhead⟩
    obtain ⟨ch, next, rest, hchars⟩ : ∃ ch next rest, cStr e = ch :: next :: rest := by
      match hchars : cStr e, hlength with
      | ch :: next :: rest, _ => exact ⟨ch, next, rest, rfl⟩
    rw [hchars, List.head?_cons, eq_comm, List.head?_eq_some_iff] at hhead
    obtain ⟨query, hquery⟩ := hhead
    exact ⟨ch, query, hquery, nodeAt_makeTrie.mpr ⟨e, he, by simp [hchars]⟩⟩
  · rintro ⟨ch, query, hquery, hnode⟩
    obtain ⟨e, he, ⟨rest, hrest⟩, hne⟩ := nodeAt_makeTrie.mp hnode
    refine ⟨e, he, ?_, by simp [hquery, ← hrest]⟩
    cases rest with
    | nil => exact absurd hrest hne
    | cons next rest => simp [← hrest]

/-- The trie gets a root if something is read of some entry. -/
theorem isSome_makeTrie : (makeTrie entries).isSome ↔ ∃ e ∈ entries, cStr e ≠ [] := by
  have hnode : (nodeAt (makeTrie entries) []).isSome ↔ (makeTrie entries).isSome := Iff.rfl
  rw [← hnode, nodeAt_makeTrie]
  refine exists_congr fun e => and_congr_right fun _ => ?_
  rw [and_iff_right List.nil_prefix, ne_comm]

/-- What a query of a trie with nodes answers: it gets below the root, and leaves the trie. -/
theorem query_fill_iff (trie : AsciiTrie) (hread : ∃ e ∈ entries, cStr e ≠ []) :
    (trie.fill entries).query argument = true ↔ BranchesAt entries argument ∧ ¬ StopsInside entries argument := by
  have hroot : (makeTrie entries).isSome := isSome_makeTrie.mpr hread
  obtain ⟨node, hnode⟩ := Option.isSome_iff_exists.mp hroot
  have hquery : (trie.fill entries).query argument = queryFrom node argument.chars := by simp [query, fill, hnode]
  have hloop := queryLoop_iff node none false argument.chars (by simp)
  have hchild (ch) : nodeAt (some node) [ch] = node.children ch := rfl
  rw [hquery, branchesAt_iff, StopsInside, ← nodeAt_makeTrie, hnode, and_comm]
  simpa [hchild, queryFrom] using hloop

/-- A trie without nodes matches everything. -/
theorem query_fill_of_not_read (trie : AsciiTrie) (hread : ¬ ∃ e ∈ entries, cStr e ≠ []) :
    (trie.fill entries).query argument = true := by
  have hroot : makeTrie entries = none := by
    rw [← Option.not_isSome_iff_eq_none, isSome_makeTrie]
    exact hread
  simp [query, fill, hroot]

/-- Not all entries start with a NUL, unless there are none. A query that an entry is a prefix of
does not stop inside of what is read of a longer entry, and its first character is not an entry
that no other goes on from. A query without such an entry stops inside of one, or does not share
its first character with any that goes on. -/
structure ToldApart (entries : List (List (Fin 128))) (argument : AsciiString) : Prop where
  read : entries ≠ [] → ∃ e ∈ entries, e.head? ≠ some 0
  outside : Prefixed entries argument → ¬ StopsInside entries argument
  continued : Prefixed entries argument → BranchesAt entries argument
  unshared : ¬ Prefixed entries argument → ¬ StopsInside entries argument → ¬ BranchesAt entries argument

/-- The trie answers whether some entry is a prefix of the query exactly for the queries that
its nodes tell apart. -/
theorem query_iff_toldApart (trie : AsciiTrie) (entries : List (List (Fin 128))) (argument : AsciiString)
    (hne : ∀ e ∈ entries, e ≠ []) :
    ((trie.fill entries).query argument = true ↔ entries = [] ∨ Prefixed entries argument) ↔
      ToldApart entries argument := by
  by_cases hentries : entries = []
  · subst hentries
    have hnone : ¬ Prefixed [] argument := by simp [Prefixed]
    have hquery : (trie.fill []).query argument = true := query_fill_of_not_read trie (by simp)
    refine iff_of_true (by simp [hquery])
      ⟨fun h => absurd rfl h, fun hp => absurd hp hnone, fun hp => absurd hp hnone, fun _ _ => ?_⟩
    simp [BranchesAt]
  have hcStr (e : List (Fin 128)) (he : e ∈ entries) : cStr e ≠ [] ↔ e.head? ≠ some 0 := by
    obtain ⟨ch, rest, rfl⟩ := List.exists_cons_of_ne_nil (hne e he)
    by_cases hzero : ch = 0
    · simp [hzero]
    · simp [cStr_cons hzero, hzero]
  rw [or_iff_right hentries]
  by_cases hread : ∃ e ∈ entries, cStr e ≠ []
  · have hstart : ∃ e ∈ entries, e.head? ≠ some 0 := by
      obtain ⟨e, he, hne⟩ := hread
      exact ⟨e, he, (hcStr e he).mp hne⟩
    rw [query_fill_iff trie hread]
    constructor
    · intro h
      exact ⟨fun _ => hstart, fun hp => (h.mpr hp).2, fun hp => (h.mpr hp).1,
        fun hp hstops hbranches => hp (h.mp ⟨hbranches, hstops⟩)⟩
    · intro h
      refine ⟨fun ⟨hbranches, hstops⟩ => ?_, fun hp => ⟨h.continued hp, h.outside hp⟩⟩
      by_contra hp
      exact h.unshared hp hstops hbranches
  · -- every entry starts with a NUL, so none is a prefix of a C string
    refine iff_of_false (fun h => ?_) fun h => ?_
    · obtain ⟨e, he, hstarts⟩ := h.mp (query_fill_of_not_read trie hread)
      have hzero : e.head? = some 0 := by
        by_contra hstart
        exact hread ⟨e, he, (hcStr e he).mpr hstart⟩
      exact argument.terminated (hstarts.mem (List.mem_of_head? hzero))
    · obtain ⟨e, he, hstart⟩ := h.read hentries
      exact hread ⟨e, he, (hcStr e he).mpr hstart⟩

/-- "foo", "foobar", "f" and "fxyz". -/
def foo : AsciiString := ⟨[102, 111, 111], by decide⟩

def foobar : AsciiString := ⟨[102, 111, 111, 98, 97, 114], by decide⟩

def f : AsciiString := ⟨[102], by decide⟩

def fxyz : AsciiString := ⟨[102, 120, 121, 122], by decide⟩

theorem query_foobar : (AsciiTrie.fill {} [foo.chars]).query foobar = true ↔
    [foo.chars] = [] ∨ Prefixed [foo.chars] foobar := by
  refine (query_iff_toldApart {} [foo.chars] foobar (by simp [foo])).mpr ⟨?_, ?_, ?_, ?_⟩
  · simp [foo]
  · simp [StopsInside, cStr, foo, foobar]
  · simp [BranchesAt, cStr, foo, foobar]
  · simp [Prefixed, foo, foobar]

/-- One character in common is enough for a match, and an entry of one character never matches. -/
theorem query_fxyz : (AsciiTrie.fill {} [foo.chars]).query fxyz = true ∧ ¬ Prefixed [foo.chars] fxyz ∧
    (AsciiTrie.fill {} [f.chars]).query foo = false ∧ Prefixed [f.chars] foo := by
  refine ⟨rfl, ?_, rfl, ?_⟩
  · simp [Prefixed, foo, fxyz]
  · simp [Prefixed, foo, f]

end AsciiTrie
end Ogre.Fml
