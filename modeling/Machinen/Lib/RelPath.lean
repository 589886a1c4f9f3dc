import Machinen.Lib.Bytes
import Machinen.Lib.DirTree
import Machinen.Lib.Words

/-! Paths below a directory, as names joined by slashes. -/
namespace Machinen

open Words

def makeChildRel (rel name : Bytes) : Bytes := if rel = [] then name else rel ++ 0x2f :: name

/-- A path as it is spelled. -/
def joined (names : List Bytes) : Bytes := names.foldl makeChildRel []

/-- A name of a directory's entry. -/
def IsName (name : Bytes) : Prop := name ≠ [] ∧ 0x2f ∉ name

instance (name : Bytes) : Decidable (IsName name) := inferInstanceAs (Decidable (_ ∧ _))

def byName (a b : Bytes) : Bool := decide (a ≤ b)

theorem byName_orders : DirTree.Orders byName where
  trans a b c ab bc := decide_eq_true (List.le_trans (of_decide_eq_true ab) (of_decide_eq_true bc))
  total a b := by simpa [byName] using List.le_total a b
  antisymm a b ab ba := List.le_antisymm (of_decide_eq_true ab) (of_decide_eq_true ba)

theorem joined_child (path : List Bytes) (name : Bytes) :
    joined (path ++ [name]) = makeChildRel (joined path) name :=
  List.foldl_append

theorem joined_ne_nil {names : List Bytes} (some_ : names ≠ []) (all : ∀ name ∈ names, name ≠ []) :
    joined names ≠ [] := by
  induction names using List.reverseRecOn with
  | nil => exact absurd rfl some_
  | append_singleton names name ih =>
    rw [joined_child, makeChildRel]
    split
    · exact all name (by simp)
    · simp

theorem IsName.isWord {name : Bytes} (named : IsName name) : IsWord (· == 0x2f) name :=
  ⟨named.1, fun _ listed => beq_eq_false_iff_ne.mpr fun same => named.2 (same ▸ listed)⟩

theorem words_joined_names {names : List Bytes} (named : ∀ name ∈ names, IsName name) :
    words (· == 0x2f) (joined names) = names := by
  induction names using List.reverseRecOn with
  | nil => exact words_nil
  | append_singleton names name ih =>
    rw [List.forall_mem_append, List.forall_mem_singleton] at named
    have front := ih named.1
    have last := words_word named.2.isWord
    rw [joined_child, makeChildRel]
    split
    · rename_i empty
      rw [empty, words_nil] at front
      rw [last, ← front]
      rfl
    · rw [words_append_cons _ _ (by decide), front, last]

theorem joined_injective {names others : List Bytes} (named : ∀ name ∈ names, IsName name)
    (also : ∀ name ∈ others, IsName name) (same : joined names = joined others) : names = others := by
  rw [← words_joined_names named, same, words_joined_names also]

theorem joined_free {byte : UInt8} (other : byte ≠ 0x2f) {names : List Bytes} (free : ∀ name ∈ names, byte ∉ name) :
    byte ∉ joined names := by
  induction names using List.reverseRecOn with
  | nil => exact List.not_mem_nil
  | append_singleton names name ih =>
    rw [List.forall_mem_append, List.forall_mem_singleton] at free
    rw [joined_child, makeChildRel]
    split
    · exact free.2
    · simp [ih free.1, free.2, other]

end Machinen
