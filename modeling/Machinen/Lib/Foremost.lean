import Mathlib

/-! The first of the greatest elements of a list, which a stable sort in descending order puts in front. -/
namespace Machinen.Foremost

variable {α : Type*} (f : α → Nat)

theorem head?_mergeSort {before after : List α} {x : α} (less : ∀ y ∈ before, f y < f x)
    (most : ∀ y ∈ after, f y ≤ f x) :
    ((before ++ x :: after).mergeSort fun a b => decide (f b ≤ f a)).head? = some x := by
  have trans : ∀ a b c : α, decide (f b ≤ f a) = true → decide (f c ≤ f b) = true → decide (f c ≤ f a) = true := by
    simp only [decide_eq_true_eq]
    omega
  have total : ∀ a b : α, (decide (f b ≤ f a) || decide (f a ≤ f b)) = true := by
    simp only [Bool.or_eq_true, decide_eq_true_eq]
    omega
  have sorted := List.pairwise_mergeSort trans total (before ++ x :: after)
  have perm := List.mergeSort_perm (before ++ x :: after) fun a b => decide (f b ≤ f a)
  -- The elements as great as this one keep their order, and it is the first of them.
  have equal : ((before ++ x :: after).filter fun y => f y = f x).Pairwise fun a b => decide (f b ≤ f a) = true := by
    refine List.pairwise_iff_forall_sublist.mpr fun {a b} sub => ?_
    have left := (List.mem_filter.mp (sub.subset (by simp : a ∈ [a, b]))).2
    have right := (List.mem_filter.mp (sub.subset (by simp : b ∈ [a, b]))).2
    simp only [decide_eq_true_eq] at left right ⊢
    omega
  have kept := (List.sublist_mergeSort trans total equal List.filter_sublist).filter fun y => f y = f x
  rw [List.filter_filter] at kept
  simp only [Bool.and_self] at kept
  have same := kept.eq_of_length (perm.filter _).length_eq.symm
  have none_ : before.filter (fun y => f y = f x) = [] := by
    refine List.filter_eq_nil_iff.mpr fun y mem => ?_
    simpa using (less y mem).ne
  rw [List.filter_append, none_, List.nil_append, List.filter_cons_of_pos (by simp)] at same
  cases is : (before ++ x :: after).mergeSort fun a b => decide (f b ≤ f a) with
  | nil =>
    rw [is] at same
    cases same
  | cons h t =>
    rw [is] at perm sorted same
    have upper : f h ≤ f x := by
      rcases List.mem_append.mp (perm.subset List.mem_cons_self) with mem | mem
      · exact (less h mem).le
      · rcases List.mem_cons.mp mem with rfl | mem
        · exact Nat.le_refl _
        · exact most h mem
    have lower : f x ≤ f h := by
      rcases List.mem_cons.mp (perm.symm.subset (by simp : x ∈ before ++ x :: after)) with rfl | mem
      · exact Nat.le_refl _
      · simpa using List.rel_of_pairwise_cons sorted mem
    rw [List.filter_cons_of_pos (by simpa using Nat.le_antisymm upper lower)] at same
    rw [List.head?_cons, (List.cons.inj same).1]

theorem exists_foremost {l : List α} (some_ : l ≠ []) : ∃ before x after, l = before ++ x :: after ∧
    (∀ y ∈ before, f y < f x) ∧ ∀ y ∈ after, f y ≤ f x := by
  induction l with
  | nil => exact absurd rfl some_
  | cons a l ih =>
    by_cases none : l = []
    · exact ⟨[], a, l, rfl, by simp, by simp [none]⟩
    · obtain ⟨before, x, after, rfl, less, most⟩ := ih none
      by_cases great : f x ≤ f a
      · refine ⟨[], a, before ++ x :: after, rfl, by simp, fun y mem => ?_⟩
        rcases List.mem_append.mp mem with mem | mem
        · exact (less y mem).le.trans great
        · rcases List.mem_cons.mp mem with rfl | mem
          · exact great
          · exact (most y mem).trans great
      · refine ⟨a :: before, x, after, rfl, fun y mem => ?_, most⟩
        rcases List.mem_cons.mp mem with rfl | mem
        · omega
        · exact less y mem

end Machinen.Foremost
