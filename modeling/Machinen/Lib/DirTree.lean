import Mathlib

/-! Directory trees, and their walk: a directory before what is in it, the names in a directory in order, and
nothing of what is skipped. -/
namespace Machinen

inductive DirTree (N F D : Type) where
  | leaf (f : F)
  | directory (d : D) (entries : List (N × DirTree N F D))

namespace DirTree

variable {N F D : Type}

def label : DirTree N F D → F ⊕ D
  | leaf f => .inl f
  | directory d _ => .inr d

/-- From a path on, names lead on to a node, and none of the paths on the way is skipped. -/
inductive Leads (skip : List N → Bool) : List N → DirTree N F D → List N → F ⊕ D → Prop where
  | here {path node} : Leads skip path node [] node.label
  | inside {path d entries name child names l} (listed : (name, child) ∈ entries)
      (kept : skip (path ++ [name]) = false) (rest : Leads skip (path ++ [name]) child names l) :
      Leads skip path (directory d entries) (name :: names) l

/-- No name stands twice in a directory. -/
inductive Distinct : DirTree N F D → Prop where
  | leaf {f} : Distinct (leaf f)
  | directory {d entries} (names : (entries.map Prod.fst).Nodup) (all : ∀ e ∈ entries, Distinct e.2) :
      Distinct (directory d entries)

/-- Every name in the tree is of a kind. -/
inductive Named (P : N → Prop) : DirTree N F D → Prop where
  | leaf {f} : Named P (leaf f)
  | directory {d entries} (names : ∀ e ∈ entries, P e.1) (all : ∀ e ∈ entries, Named P e.2) :
      Named P (directory d entries)

theorem Leads.named {P : N → Prop} {skip : List N → Bool} {path names : List N} {node : DirTree N F D} {l : F ⊕ D}
    (leads : Leads skip path node names l) (named : Named P node) : ∀ name ∈ names, P name := by
  induction leads with
  | here => simp
  | inside listed kept rest ih =>
    cases named with
    | directory first all => exact List.forall_mem_cons.mpr ⟨first _ listed, ih (all _ listed)⟩

theorem induct {P : DirTree N F D → Prop} (leaf : ∀ f, P (leaf f))
    (directory : ∀ d entries, (∀ e ∈ entries, P e.2) → P (directory d entries)) (node : DirTree N F D) : P node :=
  @DirTree.rec N F D P (fun entries => ∀ e ∈ entries, P e.2) (fun e => P e.2) leaf directory (by simp)
    (fun _ _ first rest => List.forall_mem_cons.mpr ⟨first, rest⟩) (fun _ _ own => own) node

structure Orders (le : N → N → Bool) : Prop where
  trans : ∀ a b c, le a b = true → le b c = true → le a c = true
  total : ∀ a b, (le a b || le b a) = true
  antisymm : ∀ a b, le a b = true → le b a = true → a = b

/-- One path stands before another: it leads to it, or its name comes first where they part. -/
def Before (le : N → N → Bool) : List N → List N → Prop := List.Lex fun a b => le a b = true ∧ a ≠ b

mutual

def walk (le : N → N → Bool) (skip : List N → Bool) (path : List N) : DirTree N F D → List (List N × (F ⊕ D))
  | leaf f => [(path, .inl f)]
  | directory d entries => (path, .inr d) ::
      ((walkEntries le skip path entries).mergeSort fun a b => le a.1 b.1).flatMap Prod.snd

def walkEntries (le : N → N → Bool) (skip : List N → Bool) (path : List N) :
    List (N × DirTree N F D) → List (N × List (List N × (F ⊕ D)))
  | [] => []
  | (name, node) :: rest =>
    (name, if skip (path ++ [name]) then [] else node.walk le skip (path ++ [name])) :: walkEntries le skip path rest

end

/-- The walk of all that is in a directory. -/
def walkDirectory (le : N → N → Bool) (skip : List N → Bool) (path : List N) (entries : List (N × DirTree N F D)) :
    List (List N × (F ⊕ D)) :=
  ((walkEntries le skip path entries).mergeSort fun a b => le a.1 b.1).flatMap Prod.snd

variable {le : N → N → Bool} {skip : List N → Bool}

theorem walk_directory (path : List N) (d : D) (entries : List (N × DirTree N F D)) :
    (directory d entries).walk le skip path = (path, .inr d) ::
      walkDirectory le skip path entries := rfl

theorem walkEntries_mem {path : List N} {entries : List (N × DirTree N F D)} {name : N}
    {found : List (List N × (F ⊕ D))} : (name, found) ∈ walkEntries le skip path entries ↔
      ∃ node, (name, node) ∈ entries ∧
        found = if skip (path ++ [name]) then [] else node.walk le skip (path ++ [name]) := by
  induction entries with
  | nil => simp [walkEntries]
  | cons entry rest ih =>
    obtain ⟨other, node⟩ := entry
    rw [walkEntries, List.mem_cons, ih]
    constructor
    · rintro (same | ⟨node, listed, rfl⟩)
      · obtain ⟨rfl, rfl⟩ := Prod.mk.inj same
        exact ⟨node, List.mem_cons_self, rfl⟩
      · exact ⟨node, List.mem_cons_of_mem _ listed, rfl⟩
    · rintro ⟨child, listed, rfl⟩
      rcases List.mem_cons.mp listed with same | listed
      · obtain ⟨rfl, rfl⟩ := Prod.mk.inj same
        exact .inl rfl
      · exact .inr ⟨child, listed, rfl⟩

theorem walkEntries_names (path : List N) (entries : List (N × DirTree N F D)) :
    (walkEntries le skip path entries).map Prod.fst = entries.map Prod.fst := by
  induction entries with
  | nil => rfl
  | cons entry rest ih => simp [walkEntries, ih]

theorem walkDirectory_mem {path : List N} {entries : List (N × DirTree N F D)} {p : List N} {l : F ⊕ D} :
    (p, l) ∈ walkDirectory le skip path entries ↔ ∃ name node, (name, node) ∈ entries ∧ skip
    (path ++ [name]) = false ∧
      (p, l) ∈ node.walk le skip (path ++ [name]) := by
  rw [walkDirectory, List.mem_flatMap]
  simp only [List.mem_mergeSort]
  constructor
  · rintro ⟨⟨name, found⟩, listed, inside⟩
    obtain ⟨node, there, rfl⟩ := walkEntries_mem.mp listed
    cases kept : skip (path ++ [name]) with
    | true => simp [kept] at inside
    | false => exact ⟨name, node, there, kept, by simpa [kept] using inside⟩
  · rintro ⟨name, node, there, kept, inside⟩
    exact ⟨_, walkEntries_mem.mpr ⟨node, there, rfl⟩, by simpa [kept] using inside⟩

theorem walk_mem_iff (node : DirTree N F D) {path p : List N} {l : F ⊕ D} :
    (p, l) ∈ node.walk le skip path ↔ ∃ names, p = path ++ names ∧ Leads skip path node names l := by
  induction node using induct generalizing path with
  | leaf f =>
    rw [walk, List.mem_singleton]
    constructor
    · intro same
      obtain ⟨rfl, rfl⟩ := Prod.mk.inj same
      exact ⟨[], (List.append_nil _).symm, .here⟩
    · rintro ⟨names, rfl, leads⟩
      cases leads
      rw [List.append_nil]
      rfl
  | directory d entries ih =>
    rw [walk_directory, List.mem_cons, walkDirectory_mem]
    constructor
    · rintro (same | ⟨name, node, listed, kept, inside⟩)
      · obtain ⟨rfl, rfl⟩ := Prod.mk.inj same
        exact ⟨[], (List.append_nil _).symm, .here⟩
      · obtain ⟨names, rfl, leads⟩ := (ih _ listed).mp inside
        exact ⟨name :: names, List.append_assoc _ _ _, .inside listed kept leads⟩
    · rintro ⟨names, rfl, leads⟩
      cases leads with
      | here =>
        rw [List.append_nil]
        exact .inl rfl
      | inside listed kept leads =>
        exact .inr ⟨_, _, listed, kept, (ih _ listed).mpr ⟨_, by simp, leads⟩⟩

theorem walkDirectory_mem_iff {path p : List N} {d : D} {entries : List (N × DirTree N F D)} {l : F ⊕ D} :
    (p, l) ∈ walkDirectory le skip path entries ↔
      ∃ names, names ≠ [] ∧ p = path ++ names ∧ Leads skip path (directory d entries) names l := by
  rw [walkDirectory_mem]
  constructor
  · rintro ⟨name, node, listed, kept, inside⟩
    obtain ⟨names, rfl, leads⟩ := (walk_mem_iff node).mp inside
    exact ⟨name :: names, List.cons_ne_nil _ _, List.append_assoc _ _ _, .inside listed kept leads⟩
  · rintro ⟨names, some_, rfl, leads⟩
    cases leads with
    | here => exact absurd rfl some_
    | inside listed kept leads => exact ⟨_, _, listed, kept, (walk_mem_iff _).mpr ⟨_, by simp, leads⟩⟩

theorem walk_below (node : DirTree N F D) {path p : List N} {l : F ⊕ D} (met : (p, l) ∈ node.walk le skip path) :
    ∃ names, p = path ++ names := by
  obtain ⟨names, same, -⟩ := (walk_mem_iff node).mp met
  exact ⟨names, same⟩

theorem before_append (path : List N) (name : N) (names : List N) : Before le path (path ++ name :: names) := by
  induction path with
  | nil => exact List.Lex.nil
  | cons first path ih => exact List.Lex.cons ih

theorem before_irrefl (path : List N) : ¬ Before le path path := by
  induction path with
  | nil =>
    intro before
    cases before
  | cons name path ih =>
    intro before
    cases before with
    | rel less => exact less.2 rfl
    | cons step => exact ih step

theorem before_apart (path : List N) {a b : N} (less : le a b = true ∧ a ≠ b) (xs ys : List N) :
    Before le (path ++ a :: xs) (path ++ b :: ys) := by
  induction path with
  | nil => exact List.Lex.rel less
  | cons first path ih => exact List.Lex.cons ih

theorem entry_below {path p : List N} {name : N} {node : DirTree N F D} {l : F ⊕ D}
    (met : (p, l) ∈ if skip (path ++ [name]) then [] else node.walk le skip (path ++ [name])) :
    ∃ names, p = path ++ name :: names := by
  split at met
  · cases met
  · obtain ⟨names, rfl⟩ := walk_below node met
    exact ⟨names, by simp⟩

theorem sorted_names (orders : Orders le) (path : List N) {entries : List (N × DirTree N F D)}
    (names : (entries.map Prod.fst).Nodup) :
    ((walkEntries le skip path entries).mergeSort fun a b => le a.1 b.1).Pairwise
      fun a b => le a.1 b.1 = true ∧ a.1 ≠ b.1 := by
  have sorted := @List.pairwise_mergeSort (N × List (List N × (F ⊕ D))) (fun a b => le a.1 b.1)
    (fun a b c => orders.trans a.1 b.1 c.1) (fun a b => orders.total a.1 b.1) (walkEntries le skip path entries)
  have perm := (List.mergeSort_perm (walkEntries le skip path entries) fun a b => le a.1 b.1).map Prod.fst
  rw [walkEntries_names] at perm
  exact sorted.and (List.pairwise_map.mp (perm.nodup_iff.mpr names))

theorem walk_ordered (orders : Orders le) {node : DirTree N F D} (distinct : Distinct node) (path : List N) :
    (node.walk le skip path).Pairwise fun a b => Before le a.1 b.1 := by
  induction distinct generalizing path with
  | leaf => exact List.pairwise_singleton _ _
  | @directory d entries names all ih =>
    rw [walk_directory, List.pairwise_cons]
    refine ⟨?_, List.pairwise_flatMap.mpr ⟨?_, ?_⟩⟩
    · rintro ⟨p, l⟩ met
      obtain ⟨⟨name, found⟩, listed, inside⟩ := List.mem_flatMap.mp met
      obtain ⟨node, there, rfl⟩ := walkEntries_mem.mp (List.mem_mergeSort.mp listed)
      obtain ⟨names, rfl⟩ := entry_below inside
      exact before_append path name names
    · rintro ⟨name, found⟩ listed
      obtain ⟨node, there, rfl⟩ := walkEntries_mem.mp (List.mem_mergeSort.mp listed)
      dsimp only
      split
      · exact List.Pairwise.nil
      · exact ih _ there _
    · refine (sorted_names orders path names).imp_of_mem ?_
      rintro ⟨a, foundA⟩ ⟨b, foundB⟩ inA inB less ⟨p, k⟩ metA ⟨q, l⟩ metB
      obtain ⟨node, -, rfl⟩ := walkEntries_mem.mp (List.mem_mergeSort.mp inA)
      obtain ⟨other, -, rfl⟩ := walkEntries_mem.mp (List.mem_mergeSort.mp inB)
      obtain ⟨xs, rfl⟩ := entry_below metA
      obtain ⟨ys, rfl⟩ := entry_below metB
      exact before_apart path less xs ys

end DirTree
end Machinen
