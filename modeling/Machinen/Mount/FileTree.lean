import Machinen.Lib.PathTree
import Machinen.Mount.Containment
import Machinen.Mount.Consistency

/-! A host whose files form a tree below the mount root, as the live mount relies on it,
and what each request does to the inode table and to that tree together. -/
namespace Machinen.Mount

open Bytes Prog PathTree

variable {σ : Type}

/-- A path that leads to its place in the tree without passing a symbolic link. -/
structure Resolves (rootAbs : Bytes) (tree : FileTree UInt8) (rel abs : Bytes) : Prop where
  clean : Clean rel
  named : rel ≠ []
  built : buildAbsPath rootAbs rel = some abs
  direct : ∀ dir f, Under slash dir rel → tree dir = some f → f.kind ≠ .symlink

/-- A POSIX file system below the mount root. Calls that are refused, and calls that do not
create, remove or move a file, leave the tree as it is. A new file has a new identity. -/
structure TreeHost (host : Host σ) (rootAbs : Bytes) (tree : σ → FileTree UInt8) (next : σ → Nat) :
    Prop where
  wellFormed : ∀ h c, WellFormed slash (tree h) (next h) →
    WellFormed slash (tree (host.after h c)) (next (host.after h c))
  grows : ∀ h c, next h ≤ next (host.after h c)
  calm : ∀ h c, (c.structural = true → ¬ Granted host h c) → tree (host.after h c) = tree h
  seen : ∀ h rel abs, Resolves rootAbs (tree h) rel abs → Granted host h (.lstat abs) →
    ∃ f, tree h rel = some f
  kind : ∀ h rel abs st f, Resolves rootAbs (tree h) rel abs → (host.call h (.lstat abs)).1 = .ok st →
    tree h rel = some f → (Stat.isDir st = true ↔ f.kind = .dir)
  creates : ∀ h rel abs c, Resolves rootAbs (tree h) rel abs → Creates abs c → Granted host h c →
    (∃ f, tree (host.after h c) rel = some f) ∧ (tree (host.after h c) = tree h ∨
      ∃ path file, tree h path = none ∧ next h ≤ file.id ∧
        tree (host.after h c) = Function.update (tree h) path (some file))
  removes : ∀ h rel abs c, Resolves rootAbs (tree h) rel abs → Removes abs c → Granted host h c →
    tree (host.after h c) = Function.update (tree h) rel none
  renames : ∀ h old new oldAbs newAbs, WellFormed slash (tree h) (next h) →
    Resolves rootAbs (tree h) old oldAbs → Resolves rootAbs (tree h) new newAbs →
    Granted host h (.rename oldAbs newAbs) →
    if old = new then tree (host.after h (.rename oldAbs newAbs)) = tree h
    else ¬ AtOrUnder slash old new ∧ ¬ AtOrUnder slash new old ∧
      (∀ path, Under slash new path → tree h path = none) ∧
      tree (host.after h (.rename oldAbs newAbs)) = (tree h).move slash old new

namespace Table

def pathOf (t : Table) (nodeid : Nat) : Option Bytes := (t.lookup nodeid).map InodeEntry.relPath

def at_ (t : Table) (path : Bytes) : Option Nat := (t.pathIndex path).map IndexEntry.nodeid

theorem pathOf_setInode (t : Table) (nodeid : Nat) (entry : InodeEntry) :
    (t.setInode nodeid entry).pathOf = Function.update t.pathOf nodeid (some entry.relPath) := by
  funext other
  by_cases here : other = nodeid
  · rw [here, Function.update_self, pathOf, lookup_setInode]
    rfl
  · rw [Function.update_of_ne here, pathOf, lookup_setInode_ne t here]
    rfl

theorem pathOf_dropInode (t : Table) (nodeid : Nat) :
    (t.dropInode nodeid).pathOf = Function.update t.pathOf nodeid none := by
  funext other
  by_cases here : other = nodeid
  · rw [here, Function.update_self, pathOf, lookup_dropInode]
    rfl
  · rw [Function.update_of_ne here, pathOf, lookup_dropInode_ne t here]
    rfl

theorem at_putIndex (t : Table) (path : Bytes) (nodeid : Nat) :
    (t.putIndex path nodeid).at_ = Function.update t.at_ path (some nodeid) := by
  funext other
  by_cases here : other = path
  · rw [here, Function.update_self, at_, putIndex_self]
    rfl
  · rw [Function.update_of_ne here, at_, putIndex_ne t here]
    rfl

theorem at_unindex (t : Table) (path : Bytes) :
    (t.unindex path).at_ = Function.update t.at_ path none := by
  funext other
  by_cases here : other = path
  · rw [here, Function.update_self, at_, unindex_self]
    rfl
  · rw [Function.update_of_ne here, at_, unindex_ne t here]
    rfl

theorem insertNew_spec (t : Table) (path : Bytes) :
    (t.insertNew path).pathOf = Function.update t.pathOf t.nextInode (some path) ∧
      (t.insertNew path).at_ = Function.update t.at_ path (some t.nextInode) :=
  ⟨pathOf_setInode _ _ _, at_putIndex _ _ _⟩

theorem replace_spec {t table : Table} {nodeid : Nat} {path own : Bytes}
    (lives : t.pathOf nodeid = some own) (done : t.replaceInodeRelPath nodeid path = some table) :
    table.pathOf = Function.update t.pathOf nodeid (some path) ∧
      table.at_ = Function.update (Function.update t.at_ own none) path (some nodeid) := by
  obtain ⟨entry, looked, rfl⟩ := Option.map_eq_some_iff.mp done
  have same : entry.relPath = own := by
    rw [pathOf, looked] at lives
    exact Option.some.inj lives
  refine ⟨pathOf_setInode _ _ _, ?_⟩
  rw [at_putIndex, ← same, ← at_unindex]
  rfl

end Table

section Bound

variable {t : Table} {held : Nat → Nat}

theorem Consistent.at_path (ok : Consistent t held) {path : Bytes} {nodeid : Nat}
    (found : t.at_ path = some nodeid) : t.pathOf nodeid = some path := by
  obtain ⟨there, here, rfl⟩ := Option.map_eq_some_iff.mp found
  obtain ⟨entry, looked, own⟩ := ok.indexed path there here
  rw [Table.pathOf, looked]
  exact congrArg some own

theorem Consistent.bind_spec (ok : Consistent t held) (path : Bytes) :
    (∃ nodeid, t.at_ path = some nodeid ∧ (t.bindInode path).1 = nodeid ∧
      (t.bindInode path).2.pathOf = t.pathOf ∧ (t.bindInode path).2.at_ = t.at_) ∨
    (t.at_ path = none ∧ (t.bindInode path).1 = t.nextInode ∧
      (t.bindInode path).2.pathOf = Function.update t.pathOf t.nextInode (some path) ∧
      (t.bindInode path).2.at_ = Function.update t.at_ path (some t.nextInode)) := by
  unfold Table.bindInode
  cases found : t.pathIndex path with
  | none =>
    right
    obtain ⟨paths, index⟩ := t.insertNew_spec path
    exact ⟨by rw [Table.at_, found]; rfl, rfl, paths, index⟩
  | some there =>
    left
    obtain ⟨entry, looked, own⟩ := ok.indexed path there found
    simp only [looked]
    refine ⟨there.nodeid, by rw [Table.at_, found]; rfl, rfl, ?_⟩
    unfold Table.countLookup
    split
    · exact ⟨rfl, rfl⟩
    · refine ⟨?_, rfl⟩
      rw [Table.pathOf_setInode]
      have own' : t.pathOf there.nodeid = some entry.relPath := by rw [Table.pathOf, looked]; rfl
      exact Function.update_eq_self_iff.mpr own'.symm

theorem Table.decref_spec (t : Table) (nodeid n : Nat) :
    ((t.decrefInode nodeid n).pathOf = t.pathOf ∧ (t.decrefInode nodeid n).at_ = t.at_) ∨
    (∃ own, t.pathOf nodeid = some own ∧
      (t.decrefInode nodeid n).pathOf = Function.update t.pathOf nodeid none ∧
      (t.decrefInode nodeid n).at_ =
        if t.at_ own = some nodeid then Function.update t.at_ own none else t.at_) := by
  unfold Table.decrefInode
  cases looked : t.lookup nodeid with
  | none => exact .inl ⟨rfl, rfl⟩
  | some entry =>
    have lives : t.pathOf nodeid = some entry.relPath := by rw [Table.pathOf, looked]; rfl
    by_cases pinned : entry.nlookup = nlookupPinned
    · left
      simp only [if_pos pinned, and_self]
    simp only [if_neg pinned]
    split
    · right
      refine ⟨entry.relPath, lives, ?_, ?_⟩
      · unfold Table.forgetInode
        split
        · split
          · exact Table.pathOf_dropInode _ _
          · exact Table.pathOf_dropInode _ _
        · exact Table.pathOf_dropInode _ _
      · unfold Table.forgetInode
        cases found : t.pathIndex entry.relPath with
        | none =>
          rw [if_neg (by rw [Table.at_, found]; exact nofun)]
          rfl
        | some there =>
          by_cases own : there.nodeid = nodeid
          · rw [if_pos (by rw [Table.at_, found]; exact congrArg some own), ← Table.at_unindex]
            simp only [if_pos own]
            rfl
          · rw [if_neg (by rw [Table.at_, found]; exact fun same => own (Option.some.inj same))]
            simp only [if_neg own]
            rfl
    · left
      refine ⟨?_, rfl⟩
      rw [Table.pathOf_setInode]
      exact Function.update_eq_self_iff.mpr lives.symm

end Bound

end Machinen.Mount
