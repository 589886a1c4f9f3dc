import Machinen.Lib.Lockstep
import Machinen.Mount.Renaming

/-! Two live mounts that a guest cannot tell apart. Their tables agree on every inode, every path
and every key of the index, and their handles are open on the same files. -/
namespace Machinen.Mount

variable {old new : Bytes}

open Bytes Prog PathTree

namespace Table

/-- Two tables with one content, whichever order their inodes are in. -/
structure Same (t u : Table) : Prop where
  lookup : t.lookup = u.lookup
  index : t.pathIndex = u.pathIndex
  nextInode : t.nextInode = u.nextInode
  dangling : t.dangling = u.dangling

variable {t u : Table}

theorem lookup_setInode_eq (t : Table) (nodeid : Nat) (entry : InodeEntry) :
    (t.setInode nodeid entry).lookup = Function.update t.lookup nodeid (some entry) := by
  funext other
  by_cases here : other = nodeid
  · rw [here, Function.update_self, lookup_setInode]
  · rw [Function.update_of_ne here, lookup_setInode_ne t here]

theorem lookup_dropInode_eq (t : Table) (nodeid : Nat) :
    (t.dropInode nodeid).lookup = Function.update t.lookup nodeid none := by
  funext other
  by_cases here : other = nodeid
  · rw [here, Function.update_self, lookup_dropInode]
  · rw [Function.update_of_ne here, lookup_dropInode_ne t here]

namespace Same

theorem setInode (same : t.Same u) (nodeid : Nat) (entry : InodeEntry) :
    (t.setInode nodeid entry).Same (u.setInode nodeid entry) where
  lookup := by rw [lookup_setInode_eq, lookup_setInode_eq, same.lookup]
  index := same.index
  nextInode := same.nextInode
  dangling := same.dangling

theorem dropInode (same : t.Same u) (nodeid : Nat) : (t.dropInode nodeid).Same (u.dropInode nodeid) where
  lookup := by rw [lookup_dropInode_eq, lookup_dropInode_eq, same.lookup]
  index := same.index
  nextInode := same.nextInode
  dangling := same.dangling

theorem unindex (same : t.Same u) (path : Bytes) : (t.unindex path).Same (u.unindex path) where
  lookup := same.lookup
  index := by rw [Table.unindex, Table.unindex, same.index]
  nextInode := same.nextInode
  dangling := same.dangling

theorem putIndex (same : t.Same u) (path : Bytes) (nodeid : Nat) :
    (t.putIndex path nodeid).Same (u.putIndex path nodeid) where
  lookup := same.lookup
  index := by rw [Table.putIndex, Table.putIndex, same.index]
  nextInode := same.nextInode
  dangling := same.dangling

theorem freePath (same : t.Same u) (nodeid : Nat) (path : Bytes) :
    (t.freePath nodeid path).Same (u.freePath nodeid path) where
  lookup := same.lookup
  index := same.index
  nextInode := same.nextInode
  dangling := by
    simp only [Table.freePath, keyed]
    rw [same.dangling, same.index]

theorem insertNew (same : t.Same u) (path : Bytes) : (t.insertNew path).Same (u.insertNew path) := by
  have grown : ({ t with nextInode := t.nextInode + 1 } : Table).Same
    { u with nextInode := u.nextInode + 1 } :=
    ⟨same.lookup, same.index, congrArg (· + 1) same.nextInode, same.dangling⟩
  unfold Table.insertNew
  rw [same.nextInode] at grown ⊢
  exact (grown.setInode _ _).putIndex _ _

theorem countLookup (same : t.Same u) (nodeid : Nat) (entry : InodeEntry) :
    (t.countLookup nodeid entry).Same (u.countLookup nodeid entry) := by
  unfold Table.countLookup
  split
  · exact same
  · exact same.setInode _ _

theorem bindInode (same : t.Same u) (path : Bytes) :
    (t.bindInode path).1 = (u.bindInode path).1 ∧ (t.bindInode path).2.Same (u.bindInode path).2 := by
  unfold Table.bindInode
  rw [same.index]
  cases u.pathIndex path with
  | none => exact ⟨same.nextInode, same.insertNew path⟩
  | some there =>
    dsimp only
    rw [same.lookup]
    cases u.lookup there.nodeid with
    | none => exact ⟨same.nextInode, (same.unindex path).insertNew path⟩
    | some entry => exact ⟨rfl, same.countLookup _ _⟩

theorem forgetInode (same : t.Same u) (nodeid : Nat) (entry : InodeEntry) :
    (t.forgetInode nodeid entry).Same (u.forgetInode nodeid entry) := by
  unfold Table.forgetInode
  rw [same.index]
  refine (dropInode ?_ nodeid).freePath nodeid entry.relPath
  cases u.pathIndex entry.relPath with
  | none => exact same
  | some there =>
    dsimp only
    split
    · exact same.unindex _
    · exact same

theorem decrefInode (same : t.Same u) (nodeid n : Nat) :
    (t.decrefInode nodeid n).Same (u.decrefInode nodeid n) := by
  unfold Table.decrefInode
  rw [same.lookup]
  cases u.lookup nodeid with
  | none => exact same
  | some entry =>
    dsimp only
    split
    · exact same
    split
    · exact same.forgetInode nodeid entry
    · exact same.setInode _ _

theorem replaceInodeRelPath (same : t.Same u) (nodeid : Nat) (path : Bytes) :
    Option.Rel Same (t.replaceInodeRelPath nodeid path) (u.replaceInodeRelPath nodeid path) := by
  unfold Table.replaceInodeRelPath
  rw [same.lookup]
  cases u.lookup nodeid with
  | none => exact .none
  | some entry =>
    exact .some ((((same.unindex _).freePath _ _).setInode _ _).putIndex _ _)

theorem retarget (same : t.Same u) (nodeid : Nat) (path : Bytes) :
    Option.Rel Same (t.retarget nodeid path) (u.retarget nodeid path) := by
  unfold Table.retarget
  rw [same.lookup]
  cases u.lookup nodeid with
  | none => exact .none
  | some entry => exact .some ((same.freePath _ _).setInode _ _)

theorem moveBelow (same : t.Same u) (old new : Bytes) (nodeid : Nat) :
    (moveBelow old new t nodeid).Same (Table.moveBelow old new u nodeid) := by
  unfold Table.moveBelow
  rw [same.lookup]
  cases u.lookup nodeid with
  | none => exact same
  | some entry =>
    dsimp only
    cases below old entry.relPath with
    | none => exact same
    | some suffix =>
      have replaced := same.replaceInodeRelPath nodeid (new ++ suffix)
      cases inT : t.replaceInodeRelPath nodeid (new ++ suffix) <;>
        cases inU : u.replaceInodeRelPath nodeid (new ++ suffix) <;> rw [inT, inU] at replaced
      case none.none =>
        dsimp only
        rw [inT, inU]
        exact same
      case none.some => nomatch replaced
      case some.none => nomatch replaced
      case some.some =>
        dsimp only
        rw [inT, inU]
        cases replaced with
        | some alike => exact alike

theorem moveAll (same : t.Same u) (old new : Bytes) (order : List Nat) :
    (order.foldl (Table.moveBelow old new) t).Same (order.foldl (Table.moveBelow old new) u) := by
  induction order generalizing t u with
  | nil => exact same
  | cons nodeid rest ih => exact ih (same.moveBelow old new nodeid)

theorem trans {v : Table} (same : t.Same u) (next : u.Same v) : t.Same v :=
  ⟨same.lookup.trans next.lookup, same.index.trans next.index, same.nextInode.trans next.nextInode,
    same.dangling.trans next.dangling⟩

end Same

/-- No two inodes have one path inside the directory. -/
def Distinct (t : Table) (dir : Bytes) : Prop :=
  ∀ a b path, Under slash dir path → t.pathOf a = some path → t.pathOf b = some path → a = b

theorem unindex_comm (t : Table) (path other : Bytes) :
    (t.unindex path).unindex other = (t.unindex other).unindex path := by
  by_cases same : path = other
  · rw [same]
  · simp only [unindex]
    rw [Function.update_comm same]

theorem putIndex_unindex (t : Table) {path other : Bytes} (apart : path ≠ other) (nodeid : Nat) :
    (t.putIndex path nodeid).unindex other = (t.unindex other).putIndex path nodeid := by
  simp only [unindex, putIndex]
  rw [Function.update_comm apart.symm, Function.update_of_ne apart]

theorem putIndex_comm (t : Table) {path other : Bytes} (apart : path ≠ other) (a b : Nat) :
    (t.putIndex path a).putIndex other b = (t.putIndex other b).putIndex path a := by
  simp only [putIndex]
  rw [Function.update_comm apart, Function.update_of_ne apart, Function.update_of_ne apart.symm]

theorem setInode_comm (t : Table) {a b : Nat} (apart : a ≠ b) (entryA entryB : InodeEntry) :
    ((t.setInode a entryA).setInode b entryB).Same ((t.setInode b entryB).setInode a entryA) := by
  refine ⟨?_, rfl, rfl, rfl⟩
  simp only [lookup_setInode_eq]
  exact Function.update_comm apart _ _ _

theorem moveBelow_eq {suffix : Bytes} {nodeid : Nat} {entry : InodeEntry} (new : Bytes)
    (looked : t.lookup nodeid = some entry) (inside : below old entry.relPath = some suffix) :
    moveBelow old new t nodeid = ((t.unindex entry.relPath).putIndex (new ++ suffix) nodeid).setInode
      nodeid ⟨new ++ suffix, entry.nlookup⟩ := by
  simp only [moveBelow, replaceInodeRelPath, looked, inside, Option.map_some, Option.getD_some]
  rw [freePath_same (keyed_unindexed (unindex_self t entry.relPath))]
  rfl

theorem lookup_moveBelow (old new : Bytes) {nodeid other : Nat} (apart : other ≠ nodeid) :
    (moveBelow old new t nodeid).lookup other = t.lookup other := by
  cases looked : t.lookup nodeid with
  | none => simp only [moveBelow, looked]
  | some entry =>
    cases inside : below old entry.relPath with
    | none => simp only [moveBelow, looked, inside]
    | some suffix =>
      rw [moveBelow_eq new looked inside]
      exact lookup_setInode_ne ((t.unindex entry.relPath).putIndex (new ++ suffix) nodeid) apart _

/-- Two inodes of a directory move to one place in either order, unless they have one path. -/
theorem moveBelow_comm (apart : Apart old new) (distinct : t.Distinct old) {a b : Nat}
    (other : a ≠ b) : (moveBelow old new (moveBelow old new t a) b).Same
      (moveBelow old new (moveBelow old new t b) a) := by
  have atA : (moveBelow old new t b).lookup a = t.lookup a := lookup_moveBelow old new other
  have atB : (moveBelow old new t a).lookup b = t.lookup b := lookup_moveBelow old new other.symm
  have still : ∀ {u : Table} {nodeid : Nat}, (∀ entry, u.lookup nodeid = some entry →
      below old entry.relPath = none) → moveBelow old new u nodeid = u := by
    intro u nodeid outside
    cases looked : u.lookup nodeid with
    | none => simp only [moveBelow, looked]
    | some entry => simp only [moveBelow, looked, outside entry looked]
  by_cases insideA : ∀ entry, t.lookup a = some entry → below old entry.relPath = none
  · rw [still insideA, still fun entry looked => insideA entry (atA ▸ looked)]
    exact ⟨rfl, rfl, rfl, rfl⟩
  by_cases insideB : ∀ entry, t.lookup b = some entry → below old entry.relPath = none
  · rw [still insideB, still fun entry looked => insideB entry (atB ▸ looked)]
    exact ⟨rfl, rfl, rfl, rfl⟩
  push Not at insideA insideB
  obtain ⟨entryA, lookedA, belowA⟩ := insideA
  obtain ⟨entryB, lookedB, belowB⟩ := insideB
  obtain ⟨s, belowA⟩ := Option.ne_none_iff_exists'.mp belowA
  obtain ⟨v, belowB⟩ := Option.ne_none_iff_exists'.mp belowB
  rw [moveBelow_eq new (atB.trans lookedB) belowB, moveBelow_eq new (atA.trans lookedA) belowA,
    moveBelow_eq new lookedA belowA, moveBelow_eq new lookedB belowB]
  obtain ⟨pathA, cutA⟩ := below_iff.mp belowA
  obtain ⟨pathB, cutB⟩ := below_iff.mp belowB
  rw [pathA, pathB]
  have names : s ≠ v := by
    rintro rfl
    refine other (distinct a b (old ++ s) ⟨s, rfl, cutA⟩ ?_ ?_)
    · rw [pathOf, lookedA, Option.map_some, pathA]
    · rw [pathOf, lookedB, Option.map_some, pathB]
  have news : new ++ s ≠ new ++ v := fun same => names (List.append_cancel_left same)
  have newA : new ++ s ≠ old ++ v := fun same => names (apart.suffixes cutA cutB same).2
  have newB : new ++ v ≠ old ++ s := fun same => names (apart.suffixes cutB cutA same).2.symm
  have index : (((t.unindex (old ++ s)).putIndex (new ++ s) a).unindex (old ++ v)).putIndex (new ++ v) b =
      (((t.unindex (old ++ v)).putIndex (new ++ v) b).unindex (old ++ s)).putIndex (new ++ s) a := by
    rw [putIndex_unindex _ newA, putIndex_comm _ news, unindex_comm, ← putIndex_unindex _ newB]
  have swapped := setInode_comm ((((t.unindex (old ++ s)).putIndex (new ++ s) a).unindex
    (old ++ v)).putIndex (new ++ v) b) other ⟨new ++ s, entryA.nlookup⟩ ⟨new ++ v, entryB.nlookup⟩
  exact swapped.trans (by rw [index]; exact ⟨rfl, rfl, rfl, rfl⟩)

theorem Distinct.moveBelow (distinct : t.Distinct old) (apart : Apart old new)
    (nodeid : Nat) : (moveBelow old new t nodeid).Distinct old := by
  by_cases inside : ∃ s, s.head? = some slash ∧ t.pathOf nodeid = some (old ++ s)
  · obtain ⟨s, cut, here⟩ := inside
    obtain ⟨paths, -⟩ := moveBelow_inside new cut here
    have stays : ∀ a path, Under slash old path → (Table.moveBelow old new t nodeid).pathOf a = some path →
        t.pathOf a = some path := by
      intro a path under found
      rw [paths] at found
      by_cases moved : a = nodeid
      · rw [moved, Function.update_self] at found
        cases Option.some.inj found
        obtain ⟨v, whole, cutV⟩ := under
        obtain ⟨rfl, -⟩ := apart.suffixes cut cutV whole
        rw [moved, here]
      · rwa [Function.update_of_ne moved] at found
    exact fun a b path under atA atB => distinct a b path under (stays a path under atA)
      (stays b path under atB)
  · rw [moveBelow_outside]
    · exact distinct
    · rintro path here ⟨s, rfl, cut⟩
      exact inside ⟨s, cut, here⟩

/-- The inodes of a directory move to one place in whichever order they are visited, unless
two of them have one path. -/
theorem moveAll_orders (apart : Apart old new) {order other : List Nat}
    (perm : order.Perm other) (distinct : t.Distinct old) (once : order.Nodup) :
    (order.foldl (moveBelow old new) t).Same (other.foldl (moveBelow old new) t) := by
  induction perm generalizing t with
  | nil => exact ⟨rfl, rfl, rfl, rfl⟩
  | cons nodeid _ ih =>
    exact ih (distinct.moveBelow apart nodeid) (List.nodup_cons.mp once).2
  | swap a b rest =>
    have different : b ≠ a := fun same => (List.nodup_cons.mp once).1 (same ▸ List.mem_cons_self)
    exact (moveBelow_comm apart distinct different).moveAll old new rest
  | trans first _ ihFirst ihSecond =>
    exact (ihFirst distinct once).trans (ihSecond distinct (first.nodup_iff.mp once))

/-- Two orders in which the inodes are visited when a directory moves make no difference. -/
def Either (t : Table) (old new : Bytes) (order other : List Nat) : Prop :=
  order = other ∨ (Apart old new ∧ t.Distinct old ∧ order.Perm other ∧ order.Nodup)

theorem Distinct.moved {table : Table} {nodeid : Nat} (distinct : t.Distinct old)
    (apart : Apart old new) (done : t.replaceInodeRelPath nodeid new = some table) :
    table.Distinct old := by
  obtain ⟨entry, looked, -⟩ := Option.map_eq_some_iff.mp done
  have lives : t.pathOf nodeid = some entry.relPath := by rw [pathOf, looked]; rfl
  obtain ⟨paths, -⟩ := replace_spec lives done
  have away : ¬ Under slash old new := by
    intro under
    by_cases same : old = new
    · subst same
      obtain ⟨s, whole, cut⟩ := under
      rw [List.append_right_eq_self.mp whole.symm] at cut
      cases cut
    · exact (apart same).1 (atOrUnder_iff.mpr (.inr under))
  have stays : ∀ a path, Under slash old path → table.pathOf a = some path → t.pathOf a = some path := by
    intro a path under found
    rw [paths] at found
    by_cases here : a = nodeid
    · rw [here, Function.update_self] at found
      exact absurd (Option.some.inj found ▸ under) away
    · rwa [Function.update_of_ne here] at found
  exact fun a b path under atA atB => distinct a b path under (stays a path under atA)
    (stays b path under atB)

theorem Same.rename (same : t.Same u) {isDir : Bool} {order other : List Nat}
    (either : isDir = true → t.Either old new order other) :
    Option.Rel Same (t.updateBoundInodesAfterRename old new isDir order)
      (u.updateBoundInodesAfterRename old new isDir other) := by
  have swept : ∀ {t u : Table}, t.Same u → (isDir = true → t.Either old new order other) →
      (if isDir then order.foldl (Table.moveBelow old new) t else t).Same
        (if isDir then other.foldl (Table.moveBelow old new) u else u) := by
    intro t u same either
    cases isDir with
    | false => exact same
    | true =>
      rcases either rfl with rfl | ⟨apart, distinct, perm, once⟩
      · exact same.moveAll old new order
      · exact (moveAll_orders apart perm distinct once).trans (same.moveAll old new other)
  unfold Table.updateBoundInodesAfterRename
  rw [same.index]
  cases u.pathIndex old with
  | none => exact .some (swept same either)
  | some there =>
    dsimp only
    have replaced := same.replaceInodeRelPath there.nodeid new
    cases inT : t.replaceInodeRelPath there.nodeid new <;>
      cases inU : u.replaceInodeRelPath there.nodeid new <;> rw [inT, inU] at replaced
    case none.none => exact .none
    case none.some => nomatch replaced
    case some.none => nomatch replaced
    case some.some =>
      cases replaced with
      | some alike =>
        refine .some (swept alike fun dir => (either dir).imp_right ?_)
        rintro ⟨apart, distinct, perm, once⟩
        exact ⟨apart, distinct.moved apart inT, perm, once⟩

end Table
end Machinen.Mount
