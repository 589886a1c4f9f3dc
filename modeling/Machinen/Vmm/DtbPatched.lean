import Machinen.Vmm.DtbTree

/-! When patching a device tree is faithful: neither patch stops the process, and the size of the memory
is written exactly where the tree has a place for it. -/
namespace Machinen.Vmm.DtbPatch

open Bytes Framing Nesting

def HeaderOk (dtb : Bytes) : Prop :=
  FDT_HEADER_BYTES ≤ dtb.length ∧ ofBe (slice dtb 0 4) = FDT_MAGIC ∧
    (headerOf dtb).offStrings + (headerOf dtb).sizeStrings ≤ dtb.length ∧
    (headerOf dtb).offStruct ≤ dtb.length ∧ (headerOf dtb).sizeStrings ≠ 0 ∧
    FDT_HEADER_BYTES ≤ (headerOf dtb).offStruct ∧ FDT_HEADER_BYTES ≤ (headerOf dtb).offStrings

/-- Tokens that are passed open as many nodes as the walk may not count, and more bytes stand behind. -/
def TooDeep (dtb : Bytes) : Prop :=
  HeaderOk dtb ∧ ∃ r ts d, indexOf regName (stringsOf dtb) = some r ∧
    StandAt dtb (headerOf dtb).offStruct ts ∧ Passable r ts ∧ Reaches Token.kind d ts ∧ MAX_FDT_DEPTH ≤ d ∧
    (headerOf dtb).offStruct + (encodeAll ts).length + 4 ≤ dtb.length

/-- Only the last eight of the sixteen bytes at `at_` have changed. -/
def WritesSize (dtb written : Bytes) (at_ size : Nat) : Prop :=
  written.length = dtb.length ∧ slice written (at_ + 8) 8 = be 8 size ∧
    ∀ k, k < at_ + 8 ∨ at_ + 16 ≤ k → written[k]? = dtb[k]?

def Faithful (dtb : Bytes) (size newEnd : Nat) : Prop :=
  patchInitrdEnd dtb newEnd ≠ none ∧ patchMemorySize dtb size ≠ none ∧ ∀ ts, WellFormed dtb ts →
    ((∃ written, patchMemorySize dtb size = ok written) ↔ ∃ at_, MemoryReg dtb ts at_) ∧
    ∀ written, patchMemorySize dtb size = ok written →
      ∃ at_, MemoryReg dtb ts at_ ∧ WritesSize dtb written at_ size

theorem indexOf_holds {needle xs : Bytes} {p : Nat} (found : indexOf needle xs = some p) :
    HoldsAt xs p needle ∧ p ≤ xs.length := by
  induction xs generalizing p with
  | nil =>
    rw [indexOf] at found
    split at found
    · rename_i empty
      cases found
      subst empty
      exact ⟨nofun, Nat.le_refl 0⟩
    · cases found
  | cons b xs ih =>
    rw [indexOf] at found
    split at found
    · rename_i starts
      cases found
      obtain ⟨rest, whole⟩ := starts
      refine ⟨fun t inside => ?_, Nat.zero_le _⟩
      rw [← whole, Nat.zero_add, List.getElem?_append_left inside]
    · obtain ⟨q, deeper, rfl⟩ := Option.map_eq_some_iff.mp found
      obtain ⟨holds, low⟩ := ih deeper
      refine ⟨fun t inside => ?_, Nat.succ_le_succ low⟩
      rw [Nat.add_right_comm, List.getElem?_cons_succ]
      exact holds t inside

section Header

variable {dtb : Bytes}

theorem header_read (good : HeaderOk dtb) : Header.read dtb = ok (headerOf dtb) := by
  obtain ⟨long, magic, strings, struct_, some_, low, low'⟩ := good
  have forty : 40 ≤ dtb.length := long
  dsimp only [headerOf] at strings struct_ some_ low low'
  rw [Header.read, assert_true (by omega), ok_andThen, if_neg (Nat.not_lt.mpr long), readU32_eq (by omega),
    ok_andThen, if_neg (not_not.mpr magic), readU32_eq (by omega), ok_andThen, readU32_eq (by omega), ok_andThen,
    readU32_eq (by omega), ok_andThen, if_neg (Nat.not_lt.mpr strings), if_neg (Nat.not_lt.mpr struct_),
    if_neg some_,
    if_neg (Nat.not_lt.mpr low), if_neg (Nat.not_lt.mpr low')]
  rfl

theorem header_refused (nonempty : dtb ≠ []) (bad : ¬ HeaderOk dtb) : ∃ e, Header.read dtb = fail e := by
  rw [Header.read, assert_true (List.length_pos_iff.mpr nonempty), ok_andThen]
  by_cases long : dtb.length < FDT_HEADER_BYTES
  · exact ⟨_, if_pos long⟩
  have forty : 40 ≤ dtb.length := Nat.le_of_not_lt long
  rw [if_neg long, readU32_eq (by omega), ok_andThen]
  by_cases magic : ofBe (slice dtb 0 4) = FDT_MAGIC
  swap
  · exact ⟨_, if_pos magic⟩
  rw [if_neg (not_not.mpr magic), readU32_eq (by omega), ok_andThen, readU32_eq (by omega), ok_andThen,
    readU32_eq (by omega), ok_andThen]
  split
  · exact ⟨_, rfl⟩
  rename_i strings
  split
  · exact ⟨_, rfl⟩
  rename_i struct_
  split
  · exact ⟨_, rfl⟩
  rename_i some_
  split
  · exact ⟨_, rfl⟩
  rename_i low
  split
  · exact ⟨_, rfl⟩
  rename_i low'
  exact absurd ⟨Nat.le_of_not_lt long, magic, Nat.le_of_not_lt strings, Nat.le_of_not_lt struct_, some_,
    Nat.le_of_not_lt low, Nat.le_of_not_lt low'⟩ bad

theorem stringOffset_eq {needle : Bytes} (good : HeaderOk dtb) (some_ : needle ≠ []) :
    (headerOf dtb).stringOffset dtb needle = ok (indexOf needle (stringsOf dtb)) := by
  obtain ⟨-, -, strings, -⟩ := good
  have positive := List.length_pos_iff.mpr some_
  have block : dtb.slice (headerOf dtb).offStrings (headerOf dtb).sizeStrings = stringsOf dtb := rfl
  rw [Header.stringOffset, assert_true ⟨positive, strings⟩, ok_andThen, block]
  cases found : indexOf needle (stringsOf dtb) with
  | none => rfl
  | some pos =>
    have fits := (indexOf_holds found).1.fits some_
    rw [stringsOf, slice_length dtb _ _ strings] at fits
    dsimp only
    rw [assert_true (by omega), ok_andThen]

end Header

section Totality

variable {dtb : Bytes}

theorem skipName_total {i : Nat} (inside : i ≤ dtb.length) : ∃ result, skipName dtb i = some result := by
  rw [skipName, assert_true inside, ok_andThen]
  refine andThen_total ⟨_, rfl⟩ fun stop _ => ?_
  split
  · exact ⟨_, rfl⟩
  dsimp only
  split <;> exact ⟨_, rfl⟩

theorem skipProp_total (dtb : Bytes) (i plen : Nat) : ∃ result, skipProp dtb i plen = some result := by
  rw [skipProp]
  split
  · exact ⟨_, rfl⟩
  dsimp only
  split <;> exact ⟨_, rfl⟩

theorem walkInitrd_total (nameOffset newEnd left i : Nat) :
    ∃ result, walkInitrd dtb nameOffset newEnd left i = some result := by
  induction left generalizing i with
  | zero =>
    rw [walkInitrd.eq_def]
    dsimp only
    split <;> exact ⟨_, rfl⟩
  | succ left ih =>
    rw [walkInitrd.eq_def]
    dsimp only
    split
    · exact ⟨_, rfl⟩
    rename_i inside
    rw [readU32_eq (by omega), ok_andThen]
    split
    · exact andThen_total (skipName_total (by omega)) fun next _ => ih next
    split
    · exact ih _
    split
    · split
      · exact ⟨_, rfl⟩
      rw [readU32_eq (by omega), ok_andThen, readU32_eq (by omega), ok_andThen]
      split
      · split
        · exact ⟨_, rfl⟩
        split
        · exact ⟨_, rfl⟩
        · rw [writeInt, if_pos (by omega)]
          exact ⟨_, rfl⟩
      · exact andThen_total (skipProp_total dtb _ _) fun next _ => ih next
    split <;> exact ⟨_, rfl⟩

theorem patchInitrdEnd_total (newEnd : Nat) (nonempty : dtb ≠ []) : patchInitrdEnd dtb newEnd ≠ none := by
  rw [patchInitrdEnd, assert_true (List.length_pos_iff.mpr nonempty), ok_andThen]
  by_cases good : HeaderOk dtb
  · rw [header_read good, ok_andThen, stringOffset_eq good (by decide), ok_andThen]
    split
    · exact Option.some_ne_none _
    · obtain ⟨result, done⟩ := @walkInitrd_total dtb _ newEnd (dtb.length / 4 + 1) (headerOf dtb).offStruct
      rw [done]
      exact Option.some_ne_none _
  · obtain ⟨e, refused⟩ := header_refused nonempty good
    rw [refused]
    exact Option.some_ne_none _

end Totality

section Memory

variable {dtb : Bytes} {size : Nat}

theorem patchMemorySize_zero (nonempty : dtb ≠ []) : patchMemorySize dtb 0 = fail .memorySizeZero := by
  rw [patchMemorySize, assert_true (List.length_pos_iff.mpr nonempty)]
  rfl

theorem patchMemorySize_eq (nonempty : dtb ≠ []) (size_ : size ≠ 0) (good : HeaderOk dtb) :
    patchMemorySize dtb size = match indexOf regName (stringsOf dtb) with
      | none => fail .regPropNotFound
      | some r => walkMemory dtb r size (dtb.length / 4 + 1) (headerOf dtb).offStruct {} := by
  rw [patchMemorySize, assert_true (List.length_pos_iff.mpr nonempty), ok_andThen, if_neg size_,
    header_read good, ok_andThen]
  exact congrArg (andThen · _) (stringOffset_eq good (by decide))

theorem patchMemorySize_refused (nonempty : dtb ≠ []) (size_ : size ≠ 0) (bad : ¬ HeaderOk dtb) :
    ∃ e, patchMemorySize dtb size = fail e := by
  obtain ⟨e, refused⟩ := header_refused nonempty bad
  rw [patchMemorySize, assert_true (List.length_pos_iff.mpr nonempty), ok_andThen, if_neg size_, refused]
  exact ⟨e, rfl⟩

theorem turns_enough (dtb : Bytes) (i : Nat) : dtb.length < i + 4 * (dtb.length / 4 + 1) := by omega

theorem patchMemorySize_traps_iff (nonempty : dtb ≠ []) :
    patchMemorySize dtb size = none ↔ size ≠ 0 ∧ TooDeep dtb := by
  by_cases size_ : size = 0
  · rw [size_, patchMemorySize_zero nonempty]
    exact ⟨nofun, fun ⟨other, _⟩ => absurd rfl other⟩
  by_cases good : HeaderOk dtb
  swap
  · obtain ⟨e, refused⟩ := patchMemorySize_refused nonempty size_ good
    rw [refused]
    exact ⟨nofun, fun ⟨_, also, _⟩ => absurd also good⟩
  rw [patchMemorySize_eq nonempty size_ good]
  constructor
  · intro stops
    split at stops
    · cases stops
    rename_i r found
    obtain ⟨ts, w, stand, passes, deep, more⟩ := (walkMemory_trap_iff (turns_enough dtb _)).mp stops
    obtain ⟨tracks, passable⟩ := scan_tracks passes
    exact ⟨size_, good, r, ts, w.depth, found, stand, passable, reaches_of_climb tracks.1, deep, more⟩
  · rintro ⟨-, -, r, ts, d, found, stand, passable, reaches, deep, more⟩
    rw [found]
    obtain ⟨w, passes, tracks⟩ := scan_of_passable passable reaches.climb
    have depth : w.depth = d := Option.some.inj (tracks.1.symm.trans reaches.climb)
    exact (walkMemory_trap_iff (turns_enough dtb _)).mpr ⟨ts, w, stand, passes, depth ▸ deep, more⟩

theorem patched_of_ok {ts : List Token} {written : Bytes} (nonempty : dtb ≠ []) (good : WellFormed dtb ts)
    (done : patchMemorySize dtb size = ok written) : size ≠ 0 ∧ FirstReg dtb ts ∧
      ∃ at_, MemoryReg dtb ts at_ ∧ WritesSize dtb written at_ size := by
  by_cases size_ : size = 0
  · rw [size_, patchMemorySize_zero nonempty] at done
    cases done
  by_cases header : HeaderOk dtb
  swap
  · obtain ⟨e, refused⟩ := patchMemorySize_refused nonempty size_ header
    rw [refused] at done
    cases done
  rw [patchMemorySize_eq nonempty size_ header] at done
  split at done
  · cases done
  rename_i r found
  obtain ⟨front, t, rest, w, rfl, passes, patches, rfl⟩ := walkMemory_ok good.stand good.ended done
  obtain ⟨tracks, passable⟩ := scan_tracks passes
  obtain ⟨value, pad, rfl, memory, sixteen⟩ := tracks.patch_iff.mp patches
  refine ⟨size_, ⟨front, r, value, pad, rest, rfl, memory, found, sixteen, passable⟩, _,
    ⟨front, r, value, pad, rest, rfl, memory, (indexOf_holds found).1, sixteen, rfl⟩, ?_⟩
  obtain ⟨⟨holds, -⟩, -⟩ := standAt_cons.mp (standAt_append.mp good.stand).2
  have inside := holds.fits (List.ne_nil_of_length_pos (Nat.lt_of_lt_of_le (by decide) (Token.four_le_length _)))
  simp only [Token.encode, List.length_append, be_length] at inside
  have place : HoldsAt (store dtb ((headerOf dtb).offStruct + (encodeAll front).length + 20) (be 8 size))
      ((headerOf dtb).offStruct + (encodeAll front).length + 20) (be 8 size) :=
    holdsAt_store _ _ _ (by rw [be_length]; omega)
  refine ⟨store_length _ _ _, ?_, fun k apart => store_outside _ _ _ _ ?_⟩
  · have same := place.slice_eq
    rw [be_length] at same
    exact same
  · rw [be_length]
    omega

theorem ok_of_firstReg {ts : List Token} (nonempty : dtb ≠ []) (good : WellFormed dtb ts) (size_ : size ≠ 0)
    (first : FirstReg dtb ts) (runs : patchMemorySize dtb size ≠ none) :
    ∃ written, patchMemorySize dtb size = ok written := by
  obtain ⟨front, r, value, pad, rest, rfl, memory, found, sixteen, passable⟩ := first
  have named := (indexOf_holds found).1.fits (by decide)
  rw [stringsOf, slice_length _ _ _ good.strings] at named
  have ended := good.ended.fits (List.ne_nil_of_length_pos (by rw [be_length]; decide))
  have header : HeaderOk dtb := ⟨good.long, good.magic, good.strings, by omega,
    Nat.ne_of_gt (Nat.lt_of_lt_of_le (by decide) (Nat.le_trans (Nat.le_add_left _ r) named)),
    good.offStruct, good.offStrings⟩
  rw [patchMemorySize_eq nonempty size_ header, found] at runs ⊢
  obtain ⟨x, name, pad', z, rfl, root, isMemory, balanced⟩ := memory
  have climbs : climb Token.kind 0 (x ++ .beginNode name pad' :: z) = some 2 := by
    rw [climb_append, root.climb, Option.bind_some, climb]
    exact balanced.climb 2
  obtain ⟨w, passes, tracks⟩ := scan_of_passable passable climbs
  have patches := (@Tracks.patch_iff r _ w (.prop r value pad) tracks).mpr
    ⟨value, pad, rfl, ⟨x, name, pad', z, rfl, root, isMemory, balanced⟩, sixteen⟩
  exact ⟨_, (walkMemory_patch good.stand passes patches (turns_enough dtb _)).resolve_left runs⟩

/-- Faithful is what no nesting stops, and what has the first "reg" of the tree where there is one. -/
theorem patch_faithful_iff (dtb : Bytes) (size newEnd : Nat) (nonempty : dtb ≠ []) :
    Faithful dtb size newEnd ↔ ¬ (size ≠ 0 ∧ TooDeep dtb) ∧
      ∀ ts, WellFormed dtb ts → (∃ at_, MemoryReg dtb ts at_) → size ≠ 0 ∧ FirstReg dtb ts := by
  rw [← patchMemorySize_traps_iff nonempty]
  constructor
  · rintro ⟨-, runs, trees⟩
    refine ⟨runs, fun ts good place => ?_⟩
    obtain ⟨written, done⟩ := (trees ts good).1.mpr place
    obtain ⟨size_, first, -⟩ := patched_of_ok nonempty good done
    exact ⟨size_, first⟩
  · rintro ⟨runs, first⟩
    refine ⟨patchInitrdEnd_total newEnd nonempty, runs, fun ts good => ⟨⟨?_, fun place => ?_⟩, ?_⟩⟩
    · rintro ⟨written, done⟩
      obtain ⟨-, -, at_, place, -⟩ := patched_of_ok nonempty good done
      exact ⟨at_, place⟩
    · obtain ⟨size_, reg⟩ := first ts good place
      exact ok_of_firstReg nonempty good size_ reg runs
    · intro written done
      exact (patched_of_ok nonempty good done).2.2

end Memory

def builtReg : Bytes := be 8 0x40000000 ++ be 8 0x10000000

def shadowedTree : List Token :=
  [.beginNode [] [0, 0, 0], .prop 0 [] [], .beginNode (ascii "memory") [0], .prop 5 builtReg [], .endNode,
    .endNode]

/-- A blob whose strings have "xreg" before "reg". -/
def shadowed : Bytes :=
  [FDT_MAGIC, 137, 56, 128, 40, 17, 16, 0, 9, 72, 0, 0, 0, 0].flatMap (be 4) ++
    (encodeAll shadowedTree ++ (be 4 FDT_END ++ (ascii "xreg" ++ [0] ++ regName)))

theorem faithful_shadowed : Faithful shadowed 4096 0 ↔ ¬ (4096 ≠ 0 ∧ TooDeep shadowed) ∧
    ∀ ts, WellFormed shadowed ts → (∃ at_, MemoryReg shadowed ts at_) → 4096 ≠ 0 ∧ FirstReg shadowed ts :=
  patch_faithful_iff shadowed 4096 0 (by decide +kernel)

theorem shadowed_wellFormed : WellFormed shadowed shadowedTree where
  long := by decide +kernel
  magic := by decide +kernel
  offStruct := by decide +kernel
  offStrings := by decide +kernel
  aligned := by decide +kernel
  strings := by decide +kernel
  stand := ⟨holdsAt_of_slice (by decide +kernel), by decide +kernel⟩
  ended := holdsAt_of_slice (by decide +kernel)
  tree := ⟨[], [], [0, 0, 0], [.prop 0 [] [], .beginNode (ascii "memory") [0], .prop 5 builtReg [], .endNode],
    [], rfl, nofun, .flat rfl (.nest rfl (.flat rfl .nil) rfl .nil)⟩
  named := by
    intro off value pad listed
    simp only [shadowedTree, List.mem_cons, Token.prop.injEq, reduceCtorEq, List.not_mem_nil, or_false,
      false_or] at listed
    rcases listed with ⟨rfl, -, -⟩ | ⟨rfl, -, -⟩
    · exact ⟨ascii "xreg", by decide +kernel, holdsAt_of_slice (by decide +kernel)⟩
    · exact ⟨ascii "reg", by decide +kernel, holdsAt_of_slice (by decide +kernel)⟩

/-- The "reg" of the memory node is not found, since "xreg" ends with its name. -/
theorem shadowed_reg_not_found : ¬ ∀ (dtb : Bytes) (size newEnd : Nat), dtb ≠ [] →
    Faithful dtb size newEnd := by
  intro faithful
  obtain ⟨-, -, trees⟩ := faithful shadowed 4096 0 (by decide +kernel)
  have place : MemoryReg shadowed shadowedTree 100 :=
    ⟨_, 5, builtReg, [], [.endNode, .endNode], rfl, ⟨[.beginNode [] [0, 0, 0], .prop 0 [] []],
      ascii "memory", [0], [], rfl, .deeper (.level .nil) rfl (.flat rfl .nil), by decide +kernel, .nil⟩,
      holdsAt_of_slice (by decide +kernel), by decide +kernel, by decide +kernel⟩
  obtain ⟨written, done⟩ := (trees shadowedTree shadowed_wellFormed).1.mpr ⟨100, place⟩
  have refused : patchMemorySize shadowed 4096 = fail .memoryRegNotFound := by decide +kernel
  rw [refused] at done
  cases done

end Machinen.Vmm.DtbPatch
