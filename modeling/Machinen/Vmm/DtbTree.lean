import Machinen.Vmm.DtbWalk

/-! Device trees: what a well-formed blob is, which property holds the size of the memory, and what the
walk passes, said of the nodes that are open and not of a counter. -/
namespace Machinen.Vmm.DtbPatch

open Bytes Framing Nesting

def Token.kind : Token → Kind
  | .beginNode _ _ => .opens
  | .endNode => .closes
  | .prop _ _ _ | .nop => .flat

def headerOf (dtb : Bytes) : Header :=
  ⟨ofBe (slice dtb 8 4), ofBe (slice dtb 12 4), ofBe (slice dtb 32 4)⟩

def stringsOf (dtb : Bytes) : Bytes := slice dtb (headerOf dtb).offStrings (headerOf dtb).sizeStrings

def regName : Bytes := ascii "reg" ++ [0]

/-- The tokens end inside a memory node that is a child of the root, and in none of its own children. -/
def InMemoryNode (front : List Token) : Prop :=
  ∃ x name pad z, front = x ++ .beginNode name pad :: z ∧ Reaches Token.kind 1 x ∧
    isMemoryNodeName name = true ∧ Balanced Token.kind z

/-- A "reg" of 16 bytes of such a node, with its value at `at_`. -/
def MemoryReg (dtb : Bytes) (ts : List Token) (at_ : Nat) : Prop :=
  ∃ front off value pad rest, ts = front ++ .prop off value pad :: rest ∧ InMemoryNode front ∧
    HoldsAt (stringsOf dtb) off regName ∧ value.length = 16 ∧
    at_ = (headerOf dtb).offStruct + (encodeAll front).length + 12

/-- The header, the tokens of one tree, and the end; the names of the properties are strings. -/
structure WellFormed (dtb : Bytes) (ts : List Token) : Prop where
  long : FDT_HEADER_BYTES ≤ dtb.length
  magic : ofBe (slice dtb 0 4) = FDT_MAGIC
  offStruct : FDT_HEADER_BYTES ≤ (headerOf dtb).offStruct
  offStrings : FDT_HEADER_BYTES ≤ (headerOf dtb).offStrings
  aligned : (headerOf dtb).offStruct % 4 = 0
  strings : (headerOf dtb).offStrings + (headerOf dtb).sizeStrings ≤ dtb.length
  stand : StandAt dtb (headerOf dtb).offStruct ts
  ended : HoldsAt dtb ((headerOf dtb).offStruct + (encodeAll ts).length) (be 4 FDT_END)
  tree : ∃ before root pad inner after, ts = before ++ .beginNode root pad :: (inner ++ .endNode :: after) ∧
    (∀ t ∈ before ++ after, t = .nop) ∧ Balanced Token.kind inner
  named : ∀ off value pad, .prop off value pad ∈ ts →
    ∃ name, 0 ∉ name ∧ HoldsAt (stringsOf dtb) off (name ++ [0])

/-- The walk goes on over a token behind `front`: a name is short, no memory node of the root ends, and
none has a property with the name at `r`. -/
def PassesOver (r : Nat) (front : List Token) : Token → Prop
  | .beginNode name _ => name.length ≤ MAX_NAME_BYTES
  | .endNode => ¬ InMemoryNode front
  | .prop off _ _ => off = r → ¬ InMemoryNode front
  | .nop => True

def Passable (r : Nat) (ts : List Token) : Prop :=
  ∀ front t rest, ts = front ++ t :: rest → PassesOver r front t

/-- The first "reg" that the walk comes to has 16 bytes, and its name is the first place in the strings
block where "reg" and a NUL stand. -/
def FirstReg (dtb : Bytes) (ts : List Token) : Prop :=
  ∃ front r value pad rest, ts = front ++ .prop r value pad :: rest ∧ InMemoryNode front ∧
    indexOf regName (stringsOf dtb) = some r ∧ value.length = 16 ∧ Passable r front

theorem passable_nil (r : Nat) : Passable r [] := by
  intro front t rest none_
  cases front <;> cases none_

theorem passable_snoc (r : Nat) (ts : List Token) (t : Token) :
    Passable r (ts ++ [t]) ↔ Passable r ts ∧ PassesOver r ts t := by
  constructor
  · intro passable
    refine ⟨fun front u rest split_ => passable front u (rest ++ [t]) ?_, passable ts t [] rfl⟩
    rw [split_, List.append_assoc, List.cons_append]
  · rintro ⟨passable, last⟩ front u rest split_
    cases rest using List.reverseRecOn with
    | nil =>
      obtain ⟨rfl, same⟩ := List.append_inj' split_ rfl
      cases same
      exact last
    | append_singleton rest v =>
      rw [← List.cons_append, ← List.append_assoc] at split_
      exact passable front u rest (List.append_inj_left' split_ rfl)

def Inside (ts : List Token) (memory : Bool) : Prop :=
  ∃ x name pad z e, ts = x ++ .beginNode name pad :: z ∧ climb Token.kind 0 x = some 1 ∧
    climb Token.kind 0 z = some e ∧ isMemoryNodeName name = memory

theorem Inside.unique {ts : List Token} {memory memory' : Bool} (left : Inside ts memory)
    (right : Inside ts memory') : memory = memory' := by
  obtain ⟨x, name, pad, z, e, rfl, first, stays, rfl⟩ := left
  obtain ⟨x', name', pad', z', e', same, first', stays', rfl⟩ := right
  obtain ⟨-, node, -⟩ := open_unique same rfl rfl first first' stays stays'
  cases node
  rfl

theorem Inside.snoc {ts : List Token} {memory : Bool} {t : Token} {d : Nat} (inside : Inside ts memory)
    (climbs : climb Token.kind 0 (ts ++ [t]) = some d) (low : 2 ≤ d) : Inside (ts ++ [t]) memory := by
  obtain ⟨x, name, pad, z, e, rfl, first, stays, rfl⟩ := inside
  refine ⟨x, name, pad, z ++ [t], d - 2, by rw [List.append_assoc, List.cons_append], first, ?_, rfl⟩
  rw [List.append_assoc, List.cons_append, climb_append, first, Option.bind_some, climb] at climbs
  have shifted := climb_shift stays 2
  rw [Nat.zero_add] at shifted
  dsimp only [Token.kind] at climbs
  rw [climb_append, shifted, Option.bind_some] at climbs
  rw [climb_append, stays, Option.bind_some]
  rw [climb] at climbs ⊢
  split at climbs
  · cases climbs
    rfl
  · cases climbs
    rfl
  · rw [if_neg (by omega)] at climbs
    cases climbs
    rw [if_neg (by omega)]
    exact congrArg some (by omega)

def Tracks (ts : List Token) (w : Walk) : Prop :=
  climb Token.kind 0 ts = some w.depth ∧ (2 ≤ w.depth → Inside ts w.inMemoryNode)

theorem Tracks.inMemoryNode_iff {ts : List Token} {w : Walk} (tracks : Tracks ts w) :
    (w.inMemoryNode = true ∧ w.depth = ROOT_CHILD_DEPTH) ↔ InMemoryNode ts := by
  obtain ⟨climbs, child⟩ := tracks
  constructor
  · rintro ⟨memory, depth⟩
    have inside := child (Nat.le_of_eq depth.symm)
    rw [memory] at inside
    obtain ⟨x, name, pad, z, e, rfl, first, stays, isMemory⟩ := inside
    have shifted := climb_shift stays 2
    rw [Nat.zero_add] at shifted
    rw [climb_append, first, Option.bind_some, climb] at climbs
    dsimp only [Token.kind] at climbs
    rw [shifted, depth] at climbs
    have level : e = 0 := Nat.add_right_cancel (Option.some.inj climbs)
    exact ⟨x, name, pad, z, rfl, reaches_of_climb first, isMemory, balanced_iff_climb.mpr (level ▸ stays)⟩
  · rintro ⟨x, name, pad, z, rfl, root, isMemory, balanced⟩
    rw [climb_append, root.climb, Option.bind_some, climb] at climbs
    dsimp only [Token.kind] at climbs
    rw [balanced.climb] at climbs
    have depth : 2 = w.depth := Option.some.inj climbs
    refine ⟨(child (Nat.le_of_eq depth)).unique ?_, depth.symm⟩
    exact ⟨x, name, pad, z, 0, rfl, root.climb, balanced.climb 0, isMemory⟩

theorem Tracks.deeper {ts : List Token} {w : Walk} {t : Token} {d : Nat} (tracks : Tracks ts w)
    (climbs : climb Token.kind 0 (ts ++ [t]) = some d) (low : 2 ≤ w.depth) :
    Tracks (ts ++ [t]) { w with depth := d } :=
  ⟨climbs, fun still => (tracks.2 low).snoc climbs still⟩

theorem Tracks.climb_snoc {ts : List Token} {w : Walk} (tracks : Tracks ts w) (t : Token) :
    climb Token.kind 0 (ts ++ [t]) = climb Token.kind w.depth [t] := by
  rw [climb_append, tracks.1, Option.bind_some]

theorem Tracks.next {r : Nat} {ts : List Token} {w w' : Walk} {t : Token} (tracks : Tracks ts w)
    (goes : advance r w t = .next w') : Tracks (ts ++ [t]) w' ∧ PassesOver r ts t := by
  have climbs := tracks.climb_snoc t
  cases t with
  | beginNode name pad =>
    rw [advance] at goes
    split at goes
    · cases goes
    rename_i short
    refine ⟨?_, Nat.le_of_not_lt short⟩
    split at goes
    · rename_i child
      cases goes
      have root : w.depth = 1 := Nat.succ.inj child
      refine ⟨climbs, fun _ => ⟨ts, name, pad, [], 0, rfl, ?_, rfl, rfl⟩⟩
      rw [tracks.1, root]
    · rename_i other
      cases goes
      refine ⟨climbs, fun low => ?_⟩
      have below : 2 ≤ w.depth := by
        have : w.depth + 1 ≠ 2 := other
        dsimp only at low
        omega
      exact (tracks.deeper climbs below).2 low
  | endNode =>
    rw [advance] at goes
    split at goes
    · cases goes
    rename_i some_
    split at goes
    · cases goes
    rename_i outside
    cases goes
    have climbs : climb Token.kind 0 (ts ++ [Token.endNode]) = some (w.depth - 1) := by
      rw [climbs, climb]
      dsimp only [Token.kind]
      rw [if_neg some_]
      rfl
    refine ⟨⟨climbs, fun low => ?_⟩, fun memory => outside (tracks.inMemoryNode_iff.mpr memory)⟩
    dsimp only at low
    exact (tracks.deeper climbs (by omega)).2 low
  | prop off value pad =>
    rw [advance] at goes
    split at goes
    · split at goes <;> cases goes
    rename_i outside
    cases goes
    refine ⟨⟨climbs, fun low => (tracks.deeper climbs low).2 low⟩, fun same memory => ?_⟩
    obtain ⟨isMemory, depth⟩ := tracks.inMemoryNode_iff.mpr memory
    exact outside ⟨isMemory, depth, same⟩
  | nop =>
    cases goes
    exact ⟨⟨climbs, fun low => (tracks.deeper climbs low).2 low⟩, trivial⟩

theorem Tracks.advances {r d : Nat} {ts : List Token} {w : Walk} {t : Token} (tracks : Tracks ts w)
    (passes : PassesOver r ts t) (climbs : climb Token.kind 0 (ts ++ [t]) = some d) :
    ∃ w', advance r w t = .next w' := by
  rw [tracks.climb_snoc t] at climbs
  cases t with
  | beginNode name pad =>
    rw [advance, if_neg (Nat.not_lt.mpr passes)]
    split <;> exact ⟨_, rfl⟩
  | endNode =>
    have some_ : w.depth ≠ 0 := by
      intro none_
      rw [none_] at climbs
      cases climbs
    rw [advance, if_neg some_, if_neg fun memory => passes (tracks.inMemoryNode_iff.mp memory)]
    exact ⟨_, rfl⟩
  | prop off value pad =>
    rw [advance, if_neg]
    · exact ⟨_, rfl⟩
    · rintro ⟨isMemory, depth, same⟩
      exact passes same (tracks.inMemoryNode_iff.mp ⟨isMemory, depth⟩)
  | nop => exact ⟨_, rfl⟩

theorem Tracks.patch_iff {r : Nat} {ts : List Token} {w : Walk} {t : Token} (tracks : Tracks ts w) :
    advance r w t = .patch ↔
      ∃ value pad, t = .prop r value pad ∧ InMemoryNode ts ∧ value.length = 16 := by
  constructor
  · intro patches
    cases t with
    | beginNode name pad =>
      rw [advance] at patches
      split at patches
      · cases patches
      split at patches <;> cases patches
    | endNode =>
      rw [advance] at patches
      split at patches
      · cases patches
      split at patches <;> cases patches
    | prop off value pad =>
      rw [advance] at patches
      split at patches
      · rename_i here
        obtain ⟨isMemory, depth, rfl⟩ := here
        split at patches
        · cases patches
        · rename_i sixteen
          exact ⟨value, pad, rfl, tracks.inMemoryNode_iff.mp ⟨isMemory, depth⟩, not_not.mp sixteen⟩
      · cases patches
    | nop => cases patches
  · rintro ⟨value, pad, rfl, memory, sixteen⟩
    obtain ⟨isMemory, depth⟩ := tracks.inMemoryNode_iff.mpr memory
    rw [advance, if_pos ⟨isMemory, depth, rfl⟩, if_neg (not_not.mpr sixteen)]

theorem tracks_nil : Tracks [] {} := ⟨rfl, fun low => absurd low (by decide)⟩

theorem scan_snoc (r : Nat) (ts : List Token) (t : Token) (w' : Walk) :
    scan r {} (ts ++ [t]) = some w' ↔ ∃ w, scan r {} ts = some w ∧ advance r w t = .next w' := by
  rw [scan_append, Option.bind_eq_some_iff]
  refine exists_congr fun w => and_congr_right fun _ => ?_
  rw [scan]
  cases advance r w t with
  | next w₁ => exact ⟨fun same => congrArg _ (Option.some.inj same), fun same => by cases same; rfl⟩
  | patch | stop => constructor <;> rintro ⟨⟩

theorem scan_tracks {r : Nat} {ts : List Token} {w : Walk} (passes : scan r {} ts = some w) :
    Tracks ts w ∧ Passable r ts := by
  induction ts using List.reverseRecOn generalizing w with
  | nil =>
    cases passes
    exact ⟨tracks_nil, passable_nil r⟩
  | append_singleton ts t ih =>
    obtain ⟨w₁, first, goes⟩ := (scan_snoc r ts t w).mp passes
    obtain ⟨tracks, passable⟩ := ih first
    obtain ⟨tracks', last⟩ := tracks.next goes
    exact ⟨tracks', (passable_snoc r ts t).mpr ⟨passable, last⟩⟩

theorem scan_of_passable {r d : Nat} {ts : List Token} (passable : Passable r ts)
    (climbs : climb Token.kind 0 ts = some d) : ∃ w, scan r {} ts = some w ∧ Tracks ts w := by
  induction ts using List.reverseRecOn generalizing d with
  | nil => exact ⟨{}, rfl, tracks_nil⟩
  | append_singleton ts t ih =>
    obtain ⟨first, last⟩ := (passable_snoc r ts t).mp passable
    obtain ⟨e, front⟩ := climb_left climbs
    obtain ⟨w, passes, tracks⟩ := ih first front
    obtain ⟨w', goes⟩ := tracks.advances last climbs
    exact ⟨w', (scan_snoc r ts t w').mpr ⟨w, passes, goes⟩, (tracks.next goes).1⟩

end Machinen.Vmm.DtbPatch
