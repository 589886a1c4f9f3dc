import Machinen.Lib.Bytes

/-! A byte string laid over segments of memory, one after the other, and read back from them:
what a vectored read and a vectored write do, whatever the order and the sizes. -/
namespace Machinen.Scatter

open Bytes

structure Segment where
  off : Nat
  len : Nat
  deriving DecidableEq, Repr

/-- The index is outside of the segment. -/
def Segment.Misses (s : Segment) (i : Nat) : Prop := i < s.off ∨ s.off + s.len ≤ i

def Segment.Apart (s t : Segment) : Prop := s.off + s.len ≤ t.off ∨ t.off + t.len ≤ s.off

def capacity (segments : List Segment) : Nat := (segments.map Segment.len).sum

/-- Every segment takes what those before it have left over. -/
def scatter (xs : Bytes) : List Segment → Bytes → Bytes
  | [], _ => xs
  | s :: rest, data => scatter (store xs s.off (data.take s.len)) rest (data.drop s.len)

def gather (xs : Bytes) (segments : List Segment) : Bytes :=
  segments.flatMap fun s => slice xs s.off s.len

theorem capacity_cons (s : Segment) (rest : List Segment) : capacity (s :: rest) = s.len + capacity rest := by
  simp only [capacity, List.map_cons, List.sum_cons]

theorem gather_cons (xs : Bytes) (s : Segment) (rest : List Segment) :
    gather xs (s :: rest) = slice xs s.off s.len ++ gather xs rest := List.flatMap_cons

@[simp] theorem scatter_length (xs : Bytes) (segments : List Segment) (data : Bytes) :
    (scatter xs segments data).length = xs.length := by
  induction segments generalizing xs data with
  | nil => rfl
  | cons s rest ih => rw [scatter, ih, store_length]

theorem scatter_nil (xs : Bytes) (segments : List Segment) : scatter xs segments [] = xs := by
  induction segments generalizing xs with
  | nil => rfl
  | cons s rest ih => rw [scatter, List.take_nil, List.drop_nil, store_empty, ih]

theorem scatter_outside (xs : Bytes) (segments : List Segment) (data : Bytes) {i : Nat}
    (misses : ∀ s ∈ segments, s.Misses i) : (scatter xs segments data)[i]? = xs[i]? := by
  induction segments generalizing xs data with
  | nil => rfl
  | cons s rest ih =>
    have here := misses s List.mem_cons_self
    have taken := List.length_take_le s.len data
    rw [scatter, ih _ _ fun t listed => misses t (List.mem_cons_of_mem s listed)]
    unfold Segment.Misses at here
    exact store_outside xs s.off _ i (by omega)

theorem slice_scatter (xs : Bytes) (segments : List Segment) (data : Bytes) (s : Segment)
    (apart : ∀ t ∈ segments, s.Apart t) :
    slice (scatter xs segments data) s.off s.len = slice xs s.off s.len := by
  apply List.ext_getElem?
  intro k
  rw [slice_getElem?, slice_getElem?]
  split
  · rename_i below
    refine scatter_outside xs segments data fun t listed => ?_
    rcases apart t listed with before | behind
    · exact .inl (by omega)
    · exact .inr (by omega)
  · rfl

theorem slice_store (xs : Bytes) {off len : Nat} (data : Bytes) (short : data.length ≤ len)
    (fits : off + len ≤ xs.length) :
    slice (store xs off data) off len = data ++ (slice xs off len).drop data.length := by
  apply List.ext_getElem?
  intro k
  rw [slice_getElem?, List.getElem?_append, List.getElem?_drop, slice_getElem?]
  by_cases put : k < data.length
  · rw [if_pos (by omega), if_pos put, store_inside xs off data (off + k) (by omega) (by omega) (by omega),
      Nat.add_sub_cancel_left]
  · rw [if_neg put, show data.length + (k - data.length) = k by omega]
    split
    · exact store_outside _ _ _ _ (by omega)
    · rfl

theorem gather_scatter (xs : Bytes) (segments : List Segment) (data : Bytes)
    (inside : ∀ s ∈ segments, s.off + s.len ≤ xs.length) (apart : segments.Pairwise Segment.Apart) :
    gather (scatter xs segments data) segments =
      data.take (capacity segments) ++ (gather xs segments).drop data.length := by
  induction segments generalizing xs data with
  | nil => simp [gather, capacity]
  | cons s rest ih =>
    have here := inside s List.mem_cons_self
    rw [List.pairwise_cons] at apart
    have tail := ih (store xs s.off (data.take s.len)) (data.drop s.len)
      (fun t listed => by rw [store_length]; exact inside t (List.mem_cons_of_mem s listed)) apart.2
    have kept : slice (scatter xs (s :: rest) data) s.off s.len =
        slice (store xs s.off (data.take s.len)) s.off s.len := slice_scatter _ rest _ s apart.1
    have others : gather (store xs s.off (data.take s.len)) rest = gather xs rest := by
      refine List.flatMap_congr fun t listed => ?_
      have away := (apart.1 t listed).symm
      exact slice_scatter xs [⟨s.off, s.len⟩] data t (List.forall_mem_singleton.mpr away)
    have width : (slice xs s.off s.len).length = s.len := slice_length _ _ _ here
    rw [gather_cons, gather_cons, kept, capacity_cons, scatter, tail, others,
      slice_store xs _ (List.length_take_le _ _) here, List.length_take, List.length_drop]
    by_cases full : s.len ≤ data.length
    · have none_ : (slice xs s.off s.len).drop data.length = [] := List.drop_of_length_le (by omega)
      rw [Nat.min_eq_left full, List.drop_of_length_le (Nat.le_of_eq width), List.append_nil,
        List.take_add, List.drop_append, none_, List.nil_append, width, List.append_assoc]
    · have short : data.length ≤ s.len := Nat.le_of_not_le full
      have whole : data.take (s.len + capacity rest) = data := List.take_of_length_le (by omega)
      rw [Nat.min_eq_right short, List.drop_of_length_le short, List.take_of_length_le short, whole,
        List.take_nil, List.nil_append, Nat.sub_eq_zero_of_le short, List.drop_zero,
        List.drop_append_of_le_length (by omega), List.append_assoc]

end Machinen.Scatter
