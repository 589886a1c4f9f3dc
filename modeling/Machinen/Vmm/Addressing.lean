import Machinen.Vmm.Notify

/-! Which guest addresses a device can compute with. The sums are checked, so an access that
would end past the 64-bit address space stops the process before its bounds are looked at. -/
namespace Machinen.Vmm

open Bytes

/-- The end of an access, from the start of RAM, is a 64-bit number. -/
def Memory.Ends (m : Memory) (addr len : Nat) : Prop := m.base ≤ addr → addr - m.base + len < 2 ^ 64

def Memory.Addressable (m : Memory) (addr len : Nat) : Prop := addr < 2 ^ 64 ∧ m.Ends addr len

/-- The access lies inside RAM. -/
def Memory.Contains (m : Memory) (addr len : Nat) : Prop :=
  m.base ≤ addr ∧ addr - m.base + len ≤ m.bytes.length

instance (m : Memory) (addr len : Nat) : Decidable (m.Ends addr len) := inferInstanceAs (Decidable (_ → _))
instance (m : Memory) (addr len : Nat) : Decidable (m.Addressable addr len) :=
  inferInstanceAs (Decidable (_ ∧ _))
instance (m : Memory) (addr len : Nat) : Decidable (m.Contains addr len) :=
  inferInstanceAs (Decidable (_ ∧ _))

variable {m : Memory} {addr len : Nat}

theorem Memory.guestSlice_isSome :
    (m.guestSlice addr len).isSome ↔ m.Ends addr len := by
  unfold Memory.guestSlice Memory.Ends
  split
  · exact iff_of_true rfl fun above => absurd above (by omega)
  · rename_i above
    unfold u64
    split
    · rename_i fits
      exact iff_of_true rfl fun _ => fits
    · rename_i big
      exact iff_of_false nofun fun fits => big (fits (Nat.le_of_not_lt above))

theorem Memory.guestSlice_contains {found : Option Nat} (sliced : m.guestSlice addr len = some found) :
    found = if m.Contains addr len then some (addr - m.base) else none := by
  unfold Memory.guestSlice at sliced
  split at sliced
  · rename_i below
    cases sliced
    exact (if_neg fun inside => absurd inside.1 (by omega)).symm
  · obtain ⟨stop, small, inside⟩ := Option.bind_eq_some_iff.mp sliced
    unfold u64 at small
    split at small
    · cases small
      cases inside
      split
      · rename_i outside
        exact (if_neg fun inside => absurd inside.2 (by omega)).symm
      · rename_i above _ within
        exact (if_pos ⟨Nat.le_of_not_lt above, Nat.le_of_not_lt within⟩).symm
    · exact nomatch small

theorem Memory.contains_of_sliced {off : Nat} (sliced : m.guestSlice addr len = some (some off)) :
    m.Contains addr len := by
  by_contra outside
  have found := Memory.guestSlice_contains sliced
  rw [if_neg outside] at found
  cases found

theorem Memory.outside_of_refused (sliced : m.guestSlice addr len = some none) :
    ¬ m.Contains addr len := by
  intro inside
  have found := Memory.guestSlice_contains sliced
  rw [if_pos inside] at found
  cases found

theorem u64_bind_isSome {A : Type} {n : Nat} {f : Nat → Option A} :
    ((u64 n).bind f).isSome ↔ n < 2 ^ 64 ∧ (f n).isSome := by
  unfold u64
  split
  · rename_i fits
    exact ⟨fun some_ => ⟨fits, some_⟩, And.right⟩
  · rename_i big
    exact iff_of_false nofun fun both => big both.1

theorem bind_isSome {A B : Type} {x : Option A} {f : A → Option B} :
    (x.bind f).isSome ↔ x.isSome ∧ ∀ a, x = some a → (f a).isSome := by
  cases x with
  | none => exact iff_of_false nofun fun both => nomatch both.1
  | some a => simp

theorem readDescriptor_isSome {q : Queue} {idx : Nat} :
    (readDescriptor m q idx).isSome ↔ q.num ≤ idx ∨ m.Addressable (q.descAddr + idx * 16) 16 := by
  unfold readDescriptor
  split
  · rename_i outside
    exact iff_of_true rfl (.inl outside)
  · rename_i inside
    rw [Option.bind_eq_bind, u64_bind_isSome, Option.bind_eq_bind, bind_isSome, Memory.guestSlice_isSome]
    constructor
    · rintro ⟨word, ends, -⟩
      exact .inr ⟨word, ends⟩
    · intro right
      obtain ⟨word, ends⟩ := right.resolve_left inside
      exact ⟨word, ends, fun _ _ => rfl⟩

theorem readAvailHeader_isSome {q : Queue} :
    (readAvailHeader m q).isSome ↔ m.Ends q.driverAddr 4 := by
  unfold readAvailHeader
  rw [Option.bind_eq_bind, bind_isSome, Memory.guestSlice_isSome]
  exact and_iff_left fun _ _ => rfl

/-- How many bytes a transmit buffer is asked for. -/
def wanted (desc : VringDesc) (count : Nat) : Nat :=
  if count < scratchLen then min desc.len (scratchLen - count) else 0

def gathered (m : Memory) (desc : VringDesc) (count : Nat) : Nat :=
  if m.Contains desc.addr (wanted desc count) then wanted desc count else 0

theorem takeBuffer_isSome {desc : VringDesc} {written : Bytes} :
    (takeBuffer m desc written).isSome ↔
      (wanted desc written.length ≠ 0 → m.Ends desc.addr (wanted desc written.length)) := by
  unfold takeBuffer wanted
  by_cases room : written.length < scratchLen
  · rw [if_pos room]
    by_cases empty : desc.len = 0
    · rw [if_neg (by omega)]
      exact iff_of_true rfl fun some_ => absurd (by omega) some_
    · rw [if_pos ⟨by omega, room⟩, Option.bind_eq_bind, bind_isSome, Memory.guestSlice_isSome]
      constructor
      · exact fun both _ => both.1
      · intro ends
        refine ⟨ends (by omega), fun found _ => ?_⟩
        cases found <;> rfl
  · rw [if_neg (fun both => room both.2), if_neg room]
    exact iff_of_true rfl fun some_ => absurd rfl some_

theorem takeBuffer_length {desc : VringDesc} {written more : Bytes}
    (taken : takeBuffer m desc written = some more) :
    more.length = written.length + gathered m desc written.length := by
  unfold takeBuffer at taken
  unfold gathered wanted
  split at taken
  · rename_i some_
    rw [if_pos some_.2]
    obtain ⟨found, sliced, rest⟩ := Option.bind_eq_some_iff.mp taken
    have found_eq := Memory.guestSlice_contains sliced
    split at found_eq
    · rename_i inside
      subst found_eq
      cases rest
      rw [List.length_append, slice_length _ _ _ inside.2, if_pos inside]
    · rename_i outside
      subst found_eq
      cases rest
      rw [if_neg outside]
      rfl
  · rename_i nothing
    cases taken
    split
    · split <;> omega
    · simp

/-- Along a transmit chain every descriptor and every buffer can be addressed. -/
def GatherSafe (m : Memory) (q : Queue) : Nat → Nat → Nat → Prop
  | 0, _, _ => True
  | steps + 1, idx, count =>
    (q.num ≤ idx ∨ m.Addressable (q.descAddr + idx * 16) 16) ∧
      ∀ desc, readDescriptor m q idx = some (some desc) →
        (wanted desc count ≠ 0 → m.Ends desc.addr (wanted desc count)) ∧
        (desc.hasNext = true → GatherSafe m q steps desc.next (count + gathered m desc count))

instance decidableGatherSafe (m : Memory) (q : Queue) :
    (steps idx count : Nat) → Decidable (GatherSafe m q steps idx count)
  | 0, _, _ => isTrue trivial
  | steps + 1, idx, count =>
    match read : readDescriptor m q idx with
    | none => decidable_of_iff (q.num ≤ idx ∨ m.Addressable (q.descAddr + idx * 16) 16) (by simp [GatherSafe, read])
    | some none => decidable_of_iff (q.num ≤ idx ∨ m.Addressable (q.descAddr + idx * 16) 16)
        (by simp [GatherSafe, read])
    | some (some desc) =>
      have := decidableGatherSafe m q steps desc.next (count + gathered m desc count)
      decidable_of_iff ((q.num ≤ idx ∨ m.Addressable (q.descAddr + idx * 16) 16) ∧
        (wanted desc count ≠ 0 → m.Ends desc.addr (wanted desc count)) ∧
        (desc.hasNext = true → GatherSafe m q steps desc.next (count + gathered m desc count)))
        (by simp only [GatherSafe, read, Option.some.injEq, forall_eq'])

theorem gatherChain_isSome {q : Queue} {steps idx : Nat} {written : Bytes} :
    (gatherChain m q steps idx written).isSome ↔ GatherSafe m q steps idx written.length := by
  induction steps generalizing idx written with
  | zero => exact iff_of_true rfl trivial
  | succ steps ih =>
    unfold gatherChain GatherSafe
    rw [Option.bind_eq_bind, bind_isSome, readDescriptor_isSome]
    refine and_congr_right fun _ => ?_
    have one : ∀ desc more, takeBuffer m desc written = some more →
        ((if desc.hasNext then gatherChain m q steps desc.next more else some more).isSome ↔
          (desc.hasNext = true → GatherSafe m q steps desc.next
            (written.length + gathered m desc written.length))) := by
      intro desc more taken
      rw [← takeBuffer_length taken, ← ih]
      split
      · rename_i next
        simp only [next, forall_const]
      · rename_i last
        exact iff_of_true rfl fun next => absurd next last
    constructor
    · intro goes desc read
      obtain ⟨buffer, rest⟩ := bind_isSome.mp (goes (some desc) read)
      obtain ⟨more, taken⟩ := Option.isSome_iff_exists.mp buffer
      exact ⟨takeBuffer_isSome.mp buffer, (one desc more taken).mp (rest more taken)⟩
    · intro safe found read
      cases found with
      | none => rfl
      | some desc =>
        obtain ⟨buffer, rest⟩ := safe desc read
        exact bind_isSome.mpr ⟨takeBuffer_isSome.mpr buffer,
          fun more taken => (one desc more taken).mpr rest⟩

end Machinen.Vmm
