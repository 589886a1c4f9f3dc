import Mathlib

/-! Streams that are copied hop by hop. A hop hands its source on in order; a copying loop has a
buffer between the two, and loses what is in it when its sink is gone. -/
namespace Machinen.Relay

variable {α : Type*}

/-- The sink after up to `n` more elements of the source. -/
def hop (source sink : List α) (n : Nat) : List α := source.take (sink.length + n)

theorem prefix_hop {source sink : List α} (behind : sink <+: source) (n : Nat) :
    sink <+: hop source sink n := by
  have longer : source.take sink.length <+: hop source sink n :=
    List.take_prefix_take_left (Nat.le_add_right _ _)
  rwa [← List.prefix_iff_eq_take.mp behind] at longer

theorem hop_prefix (source sink : List α) (n : Nat) : hop source sink n <+: source := List.take_prefix _ _

/-- A loop that reads into a buffer and writes the buffer out before it reads again. -/
structure Copy (α : Type*) where
  passed : List α := []
  buffer : List α := []
  taken : Nat := 0
  deriving DecidableEq

def Copy.read (copy : Copy α) (source : List α) (n : Nat) : Copy α :=
  { copy with buffer := (source.drop copy.taken).take n, taken := copy.taken + n }

def Copy.write (copy : Copy α) (n : Nat) : Copy α :=
  { copy with passed := copy.passed ++ copy.buffer.take n, buffer := copy.buffer.drop n }

def Copy.lose (copy : Copy α) : Copy α := { copy with buffer := [] }

structure Copy.Exact (copy : Copy α) (source : List α) : Prop where
  bound : copy.taken ≤ source.length
  split : copy.passed ++ copy.buffer = source.take copy.taken

theorem Copy.Exact.start (source : List α) : Copy.Exact {} source := ⟨Nat.zero_le _, rfl⟩

theorem Copy.Exact.passed_prefix {copy : Copy α} {source : List α} (exact_ : copy.Exact source) :
    copy.passed <+: source := by
  refine .trans ?_ (List.take_prefix copy.taken source)
  rw [← exact_.split]
  exact List.prefix_append _ _

theorem Copy.Exact.grow {copy : Copy α} {source source' : List α} (exact_ : copy.Exact source)
    (longer : source <+: source') : copy.Exact source' := by
  obtain ⟨more, rfl⟩ := longer
  refine ⟨?_, ?_⟩
  · rw [List.length_append]
    exact Nat.le_trans exact_.bound (Nat.le_add_right _ _)
  · rw [List.take_append_of_le_length exact_.bound]
    exact exact_.split

theorem Copy.Exact.read {copy : Copy α} {source : List α} {n : Nat} (exact_ : copy.Exact source)
    (done : copy.buffer = []) (there : copy.taken + n ≤ source.length) :
    (copy.read source n).Exact source := by
  refine ⟨there, ?_⟩
  have passed := exact_.split
  rw [done, List.append_nil] at passed
  unfold Copy.read
  dsimp only
  rw [passed, List.take_add]

theorem Copy.Exact.write {copy : Copy α} {source : List α} (exact_ : copy.Exact source) (n : Nat) :
    (copy.write n).Exact source := by
  refine ⟨exact_.bound, ?_⟩
  unfold Copy.write
  dsimp only
  rw [List.append_assoc, List.take_append_drop]
  exact exact_.split

end Machinen.Relay
