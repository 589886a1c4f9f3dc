import Mathlib

/-! A tree of files, seen as a map from paths to files. A path is a string of symbols in
which a separator stands between names. -/
namespace Machinen.PathTree

variable {α : Type} (sep : α)

/-- What is left of a path after a directory's own path: nothing, or a separator and more. -/
def Tail (rest : List α) : Prop := rest = [] ∨ rest.head? = some sep

def Under (dir path : List α) : Prop := ∃ rest, path = dir ++ rest ∧ rest.head? = some sep

def AtOrUnder (dir path : List α) : Prop := ∃ rest, path = dir ++ rest ∧ Tail sep rest

variable {sep}

variable {path : List α}

theorem Under.atOrUnder {dir : List α} (under : Under sep dir path) : AtOrUnder sep dir path := by
  obtain ⟨rest, whole, cut⟩ := under
  exact ⟨rest, whole, .inr cut⟩

theorem AtOrUnder.refl (path : List α) : AtOrUnder sep path path := ⟨[], (List.append_nil _).symm, .inl rfl⟩

theorem atOrUnder_iff {dir : List α} :
    AtOrUnder sep dir path ↔ path = dir ∨ Under sep dir path := by
  constructor
  · rintro ⟨rest, whole, rfl | cut⟩
    · exact .inl (whole.trans (List.append_nil _))
    · exact .inr ⟨rest, whole, cut⟩
  · rintro (rfl | under)
    · exact AtOrUnder.refl path
    · exact under.atOrUnder

theorem Tail.append {s t : List α} (first : Tail sep s) (second : Tail sep t) : Tail sep (s ++ t) := by
  cases s with
  | nil => exact second
  | cons a s => exact first.elim nofun fun cut => .inr cut

theorem AtOrUnder.trans {a b c : List α} (first : AtOrUnder sep a b) (second : AtOrUnder sep b c) :
    AtOrUnder sep a c := by
  obtain ⟨s, rfl, cut⟩ := first
  obtain ⟨t, rfl, more⟩ := second
  exact ⟨s ++ t, List.append_assoc .., cut.append more⟩

theorem Under.length {dir : List α} (under : Under sep dir path) : dir.length < path.length := by
  obtain ⟨rest, rfl, cut⟩ := under
  cases rest with
  | nil => exact nomatch cut
  | cons a rest => simp

theorem Under.trans_at {a b c : List α} (first : Under sep a b) (second : AtOrUnder sep b c) :
    Under sep a c := by
  rcases atOrUnder_iff.mp (first.atOrUnder.trans second) with same | under
  · obtain ⟨t, whole, -⟩ := second
    have longer := first.length
    rw [← same, whole, List.length_append] at longer
    omega
  · exact under

theorem atOrUnder_total {a b : List α} (inA : AtOrUnder sep a path) (inB : AtOrUnder sep b path) :
    AtOrUnder sep a b ∨ AtOrUnder sep b a := by
  obtain ⟨s, rfl, cutS⟩ := inA
  obtain ⟨t, same, cutT⟩ := inB
  rcases List.append_eq_append_iff.mp same with ⟨mid, rfl, rfl⟩ | ⟨mid, rfl, rfl⟩
  · left
    refine ⟨mid, rfl, ?_⟩
    cases mid with
    | nil => exact .inl rfl
    | cons c mid => exact .inr (cutS.resolve_left nofun)
  · right
    refine ⟨mid, rfl, ?_⟩
    cases mid with
    | nil => exact .inl rfl
    | cons c mid => exact .inr (cutT.resolve_left nofun)

inductive Kind where
  | dir | symlink | other
deriving DecidableEq, Repr

/-- `id` names the file for its whole life. -/
structure File where
  id : Nat
  kind : Kind
deriving DecidableEq, Repr

abbrev FileTree (α : Type) := List α → Option File

variable (sep)

/-- One file per path, no identity given twice, and nothing inside what is not a directory. -/
structure WellFormed (tree : FileTree α) (next : Nat) : Prop where
  distinct : ∀ p q f g, tree p = some f → tree q = some g → f.id = g.id → p = q
  bounded : ∀ p f, tree p = some f → f.id < next
  parents : ∀ dir p f, Under sep dir p → tree p = some f → ∃ d, tree dir = some d ∧ d.kind = .dir

variable [DecidableEq α]

instance (rest : List α) : Decidable (Tail sep rest) := inferInstanceAs (Decidable (_ ∨ _))

instance (dir path : List α) : Decidable (AtOrUnder sep dir path) :=
  decidable_of_iff (dir <+: path ∧ Tail sep (path.drop dir.length)) (by
    constructor
    · rintro ⟨⟨rest, rfl⟩, cut⟩
      rw [List.drop_left] at cut
      exact ⟨rest, rfl, cut⟩
    · rintro ⟨rest, rfl, cut⟩
      rw [List.drop_left]
      exact ⟨List.prefix_append _ _, cut⟩)

instance (dir path : List α) : Decidable (Under sep dir path) :=
  decidable_of_iff (dir <+: path ∧ (path.drop dir.length).head? = some sep) (by
    constructor
    · rintro ⟨⟨rest, rfl⟩, cut⟩
      rw [List.drop_left] at cut
      exact ⟨rest, rfl, cut⟩
    · rintro ⟨rest, rfl, cut⟩
      rw [List.drop_left]
      exact ⟨List.prefix_append _ _, cut⟩)

/-- The tree after what is at `old` and inside it was moved to `new`. -/
def FileTree.move (tree : FileTree α) (old new : List α) : FileTree α := fun path =>
  if AtOrUnder sep new path then tree (old ++ path.drop new.length)
  else if AtOrUnder sep old path then none
  else tree path

variable {sep} {tree : FileTree α} {old new : List α} {next : Nat}

theorem move_new {rest : List α} (cut : Tail sep rest) :
    tree.move sep old new (new ++ rest) = tree (old ++ rest) := by
  rw [FileTree.move, if_pos ⟨rest, rfl, cut⟩, List.drop_left]

theorem move_self : tree.move sep old new new = tree old := by
  have moved : tree.move sep old new (new ++ []) = tree (old ++ []) := move_new (.inl rfl)
  rwa [List.append_nil, List.append_nil] at moved

theorem move_other (notNew : ¬ AtOrUnder sep new path) (notOld : ¬ AtOrUnder sep old path) :
    tree.move sep old new path = tree path := by
  rw [FileTree.move, if_neg notNew, if_neg notOld]

theorem move_some {f : File} (found : tree.move sep old new path = some f) :
    (∃ rest, Tail sep rest ∧ path = new ++ rest ∧ tree (old ++ rest) = some f) ∨
    (¬ AtOrUnder sep new path ∧ ¬ AtOrUnder sep old path ∧ tree path = some f) := by
  unfold FileTree.move at found
  split at found
  · rename_i inNew
    obtain ⟨rest, rfl, cut⟩ := inNew
    rw [List.drop_left] at found
    exact .inl ⟨rest, cut, rfl, found⟩
  · split at found
    · exact nomatch found
    · exact .inr ⟨‹_›, ‹_›, found⟩

namespace WellFormed

omit [DecidableEq α] in
theorem later {more : Nat} (wf : WellFormed sep tree next) (le : next ≤ more) : WellFormed sep tree more :=
  ⟨wf.distinct, fun p f found => Nat.lt_of_lt_of_le (wf.bounded p f found) le, wf.parents⟩

theorem add {file : File} {more : Nat} (wf : WellFormed sep tree next)
    (absent : tree path = none) (fresh : next ≤ file.id) (room : file.id < more)
    (inside : ∀ dir, Under sep dir path → ∃ d, tree dir = some d ∧ d.kind = .dir) :
    WellFormed sep (Function.update tree path (some file)) more where
  distinct := by
    intro p q f g atP atQ same
    by_cases hereP : p = path <;> by_cases hereQ : q = path
    · rw [hereP, hereQ]
    · subst hereP
      rw [Function.update_self] at atP
      rw [Function.update_of_ne hereQ] at atQ
      have old := wf.bounded q g atQ
      rw [← same, ← Option.some.inj atP] at old
      exact absurd old (Nat.not_lt.mpr fresh)
    · subst hereQ
      rw [Function.update_self] at atQ
      rw [Function.update_of_ne hereP] at atP
      have old := wf.bounded p f atP
      rw [same, ← Option.some.inj atQ] at old
      exact absurd old (Nat.not_lt.mpr fresh)
    · rw [Function.update_of_ne hereP] at atP
      rw [Function.update_of_ne hereQ] at atQ
      exact wf.distinct p q f g atP atQ same
  bounded := by
    intro p f found
    by_cases here : p = path
    · rw [here, Function.update_self] at found
      exact Option.some.inj found ▸ room
    · rw [Function.update_of_ne here] at found
      exact Nat.lt_trans (wf.bounded p f found) (Nat.lt_of_le_of_lt fresh room)
  parents := by
    intro dir p f under found
    have above : ∃ d, tree dir = some d ∧ d.kind = .dir := by
      by_cases here : p = path
      · exact inside dir (here ▸ under)
      · rw [Function.update_of_ne here] at found
        exact wf.parents dir p f under found
    obtain ⟨d, atDir, isDir⟩ := above
    have other : dir ≠ path := by
      rintro rfl
      rw [absent] at atDir
      exact nomatch atDir
    exact ⟨d, by rw [Function.update_of_ne other, atDir], isDir⟩

theorem remove (wf : WellFormed sep tree next) (leaf : ∀ p, Under sep path p → tree p = none) :
    WellFormed sep (Function.update tree path none) next := by
  have kept : ∀ p f, Function.update tree path none p = some f → p ≠ path ∧ tree p = some f := by
    intro p f found
    by_cases here : p = path
    · rw [here, Function.update_self] at found
      exact nomatch found
    · rw [Function.update_of_ne here] at found
      exact ⟨here, found⟩
  refine ⟨?_, ?_, ?_⟩
  · exact fun p q f g atP atQ same => wf.distinct p q f g (kept p f atP).2 (kept q g atQ).2 same
  · exact fun p f found => wf.bounded p f (kept p f found).2
  · intro dir p f under found
    obtain ⟨d, atDir, isDir⟩ := wf.parents dir p f under (kept p f found).2
    have other : dir ≠ path := by
      rintro rfl
      exact nomatch (leaf p under).symm.trans (kept p f found).2
    exact ⟨d, by rw [Function.update_of_ne other, atDir], isDir⟩

/-- A file with all that is inside it moves to a free path. -/
theorem move (wf : WellFormed sep tree next) {f : File} (present : tree old = some f)
    (free : tree new = none) (apart : ¬ AtOrUnder sep old new)
    (inside : ∀ dir, Under sep dir new → ∃ d, tree dir = some d ∧ d.kind = .dir) :
    WellFormed sep (tree.move sep old new) next := by
  have apart' : ¬ AtOrUnder sep new old := by
    intro inNew
    rcases atOrUnder_iff.mp inNew with rfl | under
    · rw [free] at present
      exact nomatch present
    · obtain ⟨d, atNew, -⟩ := wf.parents new old f under present
      rw [free] at atNew
      exact nomatch atNew
  -- What lies above the new path is not part of what moves.
  have above : ∀ dir, Under sep dir new →
      ∃ d, tree.move sep old new dir = some d ∧ d.kind = .dir := by
    intro dir under
    obtain ⟨d, atDir, isDir⟩ := inside dir under
    have notNew : ¬ AtOrUnder sep new dir := by
      rintro ⟨rest, rfl, -⟩
      have shorter := under.length
      rw [List.length_append] at shorter
      omega
    have notOld : ¬ AtOrUnder sep old dir := fun inOld => apart (inOld.trans under.atOrUnder)
    exact ⟨d, by rw [move_other notNew notOld, atDir], isDir⟩
  refine ⟨?_, ?_, ?_⟩
  · intro p q f g atP atQ same
    rcases move_some atP with ⟨s, cutS, rfl, wasP⟩ | ⟨newP, oldP, wasP⟩ <;>
      rcases move_some atQ with ⟨t, cutT, rfl, wasQ⟩ | ⟨newQ, oldQ, wasQ⟩
    · have tails := wf.distinct _ _ f g wasP wasQ same
      rw [List.append_cancel_left tails]
    · exact absurd ⟨s, (wf.distinct _ _ f g wasP wasQ same).symm, cutS⟩ oldQ
    · exact absurd ⟨t, wf.distinct _ _ f g wasP wasQ same, cutT⟩ oldP
    · exact wf.distinct _ _ f g wasP wasQ same
  · intro p f found
    rcases move_some found with ⟨s, -, -, was⟩ | ⟨-, -, was⟩
    · exact wf.bounded _ f was
    · exact wf.bounded _ f was
  · intro dir p g under found
    rcases move_some found with ⟨s, cut, rfl, was⟩ | ⟨notNew, notOld, was⟩
    · rcases atOrUnder_total under.atOrUnder ⟨s, rfl, cut⟩ with dirNew | newDir
      · rcases atOrUnder_iff.mp dirNew with rfl | dirUnder
        · obtain ⟨rest, tails, more⟩ := under
          rw [List.append_cancel_left tails] at was
          obtain ⟨d, atOld, isDir⟩ := wf.parents old _ g ⟨rest, rfl, more⟩ was
          refine ⟨d, ?_, isDir⟩
          rw [move_self, atOld]
        · exact above dir dirUnder
      · obtain ⟨u, rfl, cutU⟩ := newDir
        obtain ⟨rest, tails, more⟩ := under
        rw [List.append_assoc] at tails
        rw [List.append_cancel_left tails, ← List.append_assoc] at was
        obtain ⟨d, atDir, isDir⟩ := wf.parents (old ++ u) _ g ⟨rest, rfl, more⟩ was
        exact ⟨d, by rw [move_new cutU, atDir], isDir⟩
    · obtain ⟨d, atDir, isDir⟩ := wf.parents dir p g under was
      have dirNotNew : ¬ AtOrUnder sep new dir := fun inNew => notNew (inNew.trans under.atOrUnder)
      have dirNotOld : ¬ AtOrUnder sep old dir := fun inOld => notOld (inOld.trans under.atOrUnder)
      exact ⟨d, by rw [move_other dirNotNew dirNotOld, atDir], isDir⟩

end WellFormed

end Machinen.PathTree
