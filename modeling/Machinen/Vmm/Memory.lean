import Machinen.Lib.Bytes

/-! Guest memory as the devices reach it, through `guest_slice`.
A safety check of the build that fails stops the process: such a computation has
the outer `none` as its result, while `some none` is the source's `null`.
The stores that devices made are kept beside the bytes, only to be reasoned about. -/
namespace Machinen.Vmm

open Bytes

/-- Results of checked arithmetic; an overflow stops the process. -/
def u64 (n : Nat) : Option Nat := if n < 2 ^ 64 then some n else none
def u32 (n : Nat) : Option Nat := if n < 2 ^ 32 then some n else none

/-- `@intCast` to a signed 64-bit value of something that is not negative. -/
def i64 (n : Nat) : Option Nat := if n < 2 ^ 63 then some n else none

structure Store where
  off : Nat
  data : Bytes
  deriving DecidableEq, Repr

def Store.places (s : Store) : List Nat := List.range' s.off s.data.length

variable {m m' : Memory} {off : Nat} {spots : List Nat}

structure Memory where
  base : Nat
  bytes : Bytes
  stores : List Store
  deriving DecidableEq, Repr

namespace Memory

def write (m : Memory) (off : Nat) (data : Bytes) : Memory :=
  { m with bytes := store m.bytes off data, stores := m.stores ++ [⟨off, data⟩] }

@[simp] theorem write_base (m : Memory) (off : Nat) (data : Bytes) : (m.write off data).base = m.base := rfl
@[simp] theorem write_bytes (m : Memory) (off : Nat) (data : Bytes) :
    (m.write off data).bytes = store m.bytes off data := rfl
@[simp] theorem write_stores (m : Memory) (off : Nat) (data : Bytes) :
    (m.write off data).stores = m.stores ++ [⟨off, data⟩] := rfl

/-- The offset into guest RAM of a range that lies inside it. -/
def guestSlice (m : Memory) (addr len : Nat) : Option (Option Nat) :=
  if addr < m.base then some none
  else do
    let stop ← u64 (addr - m.base + len)
    return if m.bytes.length < stop then none else some (addr - m.base)

theorem guestSlice_fits {addr len : Nat}
    (found : m.guestSlice addr len = some (some off)) : off + len ≤ m.bytes.length := by
  unfold guestSlice at found
  split at found
  · cases found
  · simp only [Option.bind_eq_bind, Option.bind_eq_some_iff, Option.pure_def, Option.some.injEq,
      u64] at found
    obtain ⟨stop, in_range, inside⟩ := found
    split at in_range
    · cases in_range
      split at inside
      · cases inside
      · cases inside
        omega
    · cases in_range

theorem guestSlice_off {addr len : Nat}
    (found : m.guestSlice addr len = some (some off)) : off = addr - m.base := by
  unfold guestSlice at found
  split at found
  · cases found
  · simp only [Option.bind_eq_bind, Option.bind_eq_some_iff, Option.pure_def,
      Option.some.injEq] at found
    obtain ⟨stop, _, inside⟩ := found
    split at inside
    · cases inside
    · exact (Option.some.inj inside).symm

theorem guestSlice_inside (word : m.bytes.length < 2 ^ 64) {len : Nat}
    (fits : off + len ≤ m.bytes.length) : m.guestSlice (m.base + off) len = some (some off) := by
  have small : off + len < 2 ^ 64 := by omega
  simp only [guestSlice, Nat.not_lt.mpr (Nat.le_add_right m.base off), if_false,
    Nat.add_sub_cancel_left, u64, if_pos small, Option.bind_eq_bind, Option.bind_some,
    Option.pure_def, if_neg (Nat.not_lt.mpr fits)]

/-- What a list of stores does to a byte string, the earliest first. -/
def replay (bytes : Bytes) (stores : List Store) : Bytes :=
  stores.foldl (fun b s => store b s.off s.data) bytes

@[simp] theorem replay_length (bytes : Bytes) (stores : List Store) :
    (replay bytes stores).length = bytes.length := by
  unfold replay
  induction stores generalizing bytes with
  | nil => rfl
  | cons s stores ih => rw [List.foldl_cons, ih, store_length]

theorem replay_append (bytes : Bytes) (earlier later : List Store) :
    replay bytes (earlier ++ later) = replay (replay bytes earlier) later := by
  simp only [replay, List.foldl_append]

/-- `m'` is `m` after some more stores, all of them inside guest RAM. -/
structure Extends (m m' : Memory) (added : List Store) : Prop where
  base_eq : m'.base = m.base
  stores_eq : m'.stores = m.stores ++ added
  bytes_eq : m'.bytes = replay m.bytes added
  inside : ∀ s ∈ added, s.off + s.data.length ≤ m.bytes.length

theorem Extends.length_eq {added : List Store} (ext : Extends m m' added) :
    m'.bytes.length = m.bytes.length := by
  rw [ext.bytes_eq, replay_length]

theorem Extends.refl (m : Memory) : Extends m m [] :=
  ⟨rfl, (List.append_nil _).symm, rfl, by simp⟩

theorem Extends.trans {m'' : Memory} {first second : List Store} (one : Extends m m' first)
    (two : Extends m' m'' second) : Extends m m'' (first ++ second) := by
  refine ⟨two.base_eq.trans one.base_eq, ?_, ?_, ?_⟩
  · rw [two.stores_eq, one.stores_eq, List.append_assoc]
  · rw [two.bytes_eq, one.bytes_eq, replay_append]
  · intro s member
    rcases List.mem_append.mp member with member | member
    · exact one.inside s member
    · exact one.length_eq ▸ two.inside s member

theorem Extends.write {data : Bytes}
    (fits : off + data.length ≤ m.bytes.length) : Extends m (m.write off data) [⟨off, data⟩] :=
  ⟨rfl, rfl, rfl, by simpa using fits⟩

/-- `m'` comes from `m` by device stores alone. -/
def DeviceOnly (m m' : Memory) : Prop := ∃ added, Extends m m' added

theorem DeviceOnly.refl (m : Memory) : DeviceOnly m m := ⟨[], Extends.refl m⟩

theorem DeviceOnly.trans {m'' : Memory} (one : DeviceOnly m m') (two : DeviceOnly m' m'') :
    DeviceOnly m m'' := by
  obtain ⟨first, one⟩ := one
  obtain ⟨second, two⟩ := two
  exact ⟨first ++ second, one.trans two⟩

theorem DeviceOnly.write {data : Bytes}
    (fits : off + data.length ≤ m.bytes.length) : DeviceOnly m (m.write off data) :=
  ⟨_, Extends.write fits⟩

def StoresAt (m m' : Memory) (spots : List Nat) : Prop :=
  ∃ added, Extends m m' added ∧ ∀ s ∈ added, s.places ⊆ spots

theorem StoresAt.deviceOnly (stores : m.StoresAt m' spots) :
    m.DeviceOnly m' := by
  obtain ⟨added, ext, -⟩ := stores
  exact ⟨added, ext⟩

theorem StoresAt.refl (m : Memory) (spots : List Nat) : m.StoresAt m spots :=
  ⟨[], Extends.refl m, fun _ listed => absurd listed List.not_mem_nil⟩

theorem StoresAt.trans {m'' : Memory} {more all : List Nat} (one : m.StoresAt m' spots)
    (two : m'.StoresAt m'' more) (first : spots ⊆ all) (second : more ⊆ all) : m.StoresAt m'' all := by
  obtain ⟨added, one, within⟩ := one
  obtain ⟨later, two, after_⟩ := two
  refine ⟨added ++ later, one.trans two, fun s listed => ?_⟩
  rcases List.mem_append.mp listed with early | late
  · exact List.Subset.trans (within s early) first
  · exact List.Subset.trans (after_ s late) second

theorem StoresAt.mono {more : List Nat} (stores : m.StoresAt m' spots)
    (fewer : spots ⊆ more) : m.StoresAt m' more :=
  stores.trans (StoresAt.refl m' more) fewer (List.Subset.refl more)

theorem StoresAt.write {data : Bytes}
    (fits : off + data.length ≤ m.bytes.length) : m.StoresAt (m.write off data) (List.range' off data.length) :=
  ⟨_, Extends.write fits, fun _ listed => by
    obtain rfl := List.mem_singleton.mp listed
    exact List.Subset.refl _⟩

theorem replay_missed {stores : List Store} {i : Nat} (missed : ∀ s ∈ stores, i ∉ s.places) (bytes : Bytes) :
    (replay bytes stores)[i]? = bytes[i]? := by
  induction stores generalizing bytes with
  | nil => rfl
  | cons s stores ih =>
    have first := missed s List.mem_cons_self
    rw [Store.places, List.mem_range'_1] at first
    exact (ih (fun t later => missed t (List.mem_cons_of_mem s later)) _).trans
      (store_outside _ _ _ _ (by omega))

theorem StoresAt.outside (stores : m.StoresAt m' spots) {i : Nat}
    (missed : i ∉ spots) : m'.bytes[i]? = m.bytes[i]? := by
  obtain ⟨added, ext, within⟩ := stores
  rw [ext.bytes_eq]
  exact replay_missed (fun s listed hit => missed (within s listed hit)) m.bytes

end Memory
end Machinen.Vmm
