import Machinen.Mount.Snapshot

/-! What a request can do to a live mount, as a sequence of moves: a host call on a path
the table gave, one change of the inode table, one change of the handles. A property
of the mount that every move keeps is kept by every handler. -/
namespace Machinen.Mount

open Prog

/-- Whether a call changes a file or a directory under the mount root. -/
def Call.mutates : Call → Bool
  | .open_ _ flags _ => flags.truncates || flags.creates
  | .pwrite .. | .mkdir .. | .symlink .. | .unlink _ | .rmdir _ | .link .. | .rename .. | .truncate ..
  | .ftruncate .. | .chmod .. | .fchmod .. => true
  | _ => false

/-- The paths a call resolves; the target of a symbolic link is only stored. -/
def Call.paths : Call → List Bytes
  | .lstat path | .open_ path _ _ | .readlink path | .listDir path | .mkdir path _ | .symlink _ path
  | .unlink path | .rmdir path | .truncate path _ | .chmod path _ => [path]
  | .link old new | .rename old new => [old, new]
  | _ => []

structure Closed (G : Bytes → Prop) : Prop where
  child : ∀ path name, G path → validateName name = true → G (joinRel path name)
  moved : ∀ old new path suffix, G new → new ≠ [] → G path → Table.below old path = some suffix →
    G (new ++ suffix)

variable {σ : Type}

/-- The entries of a directory handle: few of them, and each of a header and a padded name. -/
structure Packed (entries : List Bytes) : Prop where
  few : entries.length ≤ maxDirents
  short : ∀ entry ∈ entries, entry.length ≤ 24 + 1024

theorem buildDirent_length (off dtype : Nat) (name : DirentName) :
    (buildDirent off dtype name.bytes).length ≤ 24 + 1024 := by
  have short := name.short
  simp only [buildDirent, List.length_append, Bytes.le_length, List.length_replicate]
  omega

theorem Packed.add {entries : List Bytes} (packed : Packed entries) (room : entries.length ≠ maxDirents)
    (off dtype : Nat) (name : DirentName) : Packed (entries ++ [buildDirent off dtype name.bytes]) where
  few := by
    rw [List.length_append, List.length_singleton]
    exact Nat.lt_of_le_of_ne packed.few room
  short := by
    intro entry listed
    rcases List.mem_append.mp listed with before | now
    · exact packed.short entry before
    · rw [List.mem_singleton.mp now]
      exact buildDirent_length off dtype name

/-- `T` is whether an open may truncate on a mount that is not writable. The last
argument lists the nodeid whose lookup count grows. -/
inductive Move (G : Bytes → Prop) (T : Prop) : State σ → List Nat → State σ → Prop where
  | call (s : State σ) (c : Call) (host : σ)
      (paths : ∀ path ∈ c.paths, ∃ rel, G rel ∧ buildAbsPath s.rootAbs rel = some path)
      (may : c.mutates = true → s.modeRw = true ∨ T) :
      Move G T s [] ((s.note (.call c)).setHost host)
  | bind (s : State σ) (rel : Bytes) (good : G rel) (named : rel ≠ [])
      (room : (s.table.bindInode rel).2.nextInode < 2 ^ 64) :
      Move G T s [(s.table.bindInode rel).1] (s.setTable (s.table.bindInode rel).2)
  | unindex (s : State σ) (rel : Bytes) (named : rel ≠ []) :
      Move G T s [] (s.setTable (s.table.unindex rel))
  | forget (s : State σ) (nodeid n : Nat) :
      Move G T s [] ((s.note (.forget nodeid n)).setTable (s.table.decrefInode nodeid n))
  | retarget (s : State σ) (nodeid : Nat) (rel : Bytes) (table : Table) (good : G rel)
      (named : rel ≠ []) (done : s.table.retarget nodeid rel = some table) :
      Move G T s [nodeid] (s.setTable table)
  | rename (s : State σ) (old new : Bytes) (isDir : Bool) (order : List Nat) (table : Table)
      (good : G new) (named : old ≠ [] ∧ new ≠ [])
      (done : s.table.updateBoundInodesAfterRename old new isDir order = some table) :
      Move G T s [] (s.setTable table)
  | put (s : State σ) (entry : OpenEntry)
      (reading : ∀ file nodeid flags, entry = .file (some file) nodeid flags →
        file.flags.writes = true → s.modeRw = true)
      (listing : ∀ nodeid entries, entry = .dir nodeid entries → Packed entries) :
      Move G T s [] (s.putHandle entry)
  | release (s : State σ) (fh : Nat) : Move G T s [] (s.setHandles (s.handles.erase fh))

/-- Moves one after another, with all the nodeids whose lookup count grew. -/
inductive Moves (G : Bytes → Prop) (T : Prop) (s : State σ) : List Nat → State σ → Prop where
  | none : Moves G T s [] s
  | more {t u : State σ} {issued more : List Nat} (before : Moves G T s issued t)
      (move : Move G T t more u) : Moves G T s (issued ++ more) u

variable {G : Bytes → Prop} {T : Prop} {s : State σ} {t : Table} {issued : List Nat}

theorem Moves.keep {I : State σ → Prop} (each : ∀ s issued t, I s → Move G T s issued t → I t)
    {t : State σ} (moves : Moves G T s issued t) (before : I s) : I t := by
  induction moves with
  | none => exact before
  | more _ move ih => exact each _ _ _ ih move

theorem Moves.quiet {t u : State σ}
    (moves : Moves G T s issued t) (move : Move G T t [] u) : Moves G T s issued u :=
  List.append_nil issued ▸ moves.more move

theorem Move.config {t : State σ}
    (move : Move G T s issued t) : t.rootAbs = s.rootAbs ∧ t.modeRw = s.modeRw := by
  cases move <;> exact ⟨rfl, rfl⟩

theorem Moves.config {t : State σ}
    (moves : Moves G T s issued t) : t.rootAbs = s.rootAbs ∧ t.modeRw = s.modeRw := by
  apply moves.keep (I := fun u => u.rootAbs = s.rootAbs ∧ u.modeRw = s.modeRw)
  · intro u _ v before move
    obtain ⟨root, mode⟩ := move.config
    exact ⟨root.trans before.1, mode.trans before.2⟩
  · exact ⟨rfl, rfl⟩

theorem Move.log {t : State σ} (move : Move G T s issued t) : s.log <+: t.log := by
  cases move
  case call | forget => exact List.prefix_append _ _
  all_goals exact List.prefix_refl _

theorem Moves.log {t : State σ} (moves : Moves G T s issued t) : s.log <+: t.log := by
  apply moves.keep (I := fun u => s.log <+: u.log)
  · exact fun _ _ _ before move => before.trans move.log
  · exact List.prefix_refl _

def Table.Within (G : Bytes → Prop) (t : Table) : Prop :=
  ∀ nodeid entry, t.lookup nodeid = some entry → G entry.relPath

namespace Table

theorem lookup_setInode (t : Table) (nodeid : Nat) (entry : InodeEntry) :
    (t.setInode nodeid entry).lookup nodeid = some entry := AList.lookup_insert _

theorem lookup_setInode_ne (t : Table) {nodeid other : Nat} (apart : other ≠ nodeid)
    (entry : InodeEntry) : (t.setInode nodeid entry).lookup other = t.lookup other :=
  AList.lookup_insert_ne apart

theorem Within.setInode (within : t.Within G) (nodeid : Nat)
    (entry : InodeEntry) (good : G entry.relPath) : (t.setInode nodeid entry).Within G := by
  intro other found looked
  by_cases here : other = nodeid
  · rw [here, lookup_setInode] at looked
    exact Option.some.inj looked ▸ good
  · rw [lookup_setInode_ne t here] at looked
    exact within other found looked

theorem Within.dropInode (within : t.Within G) (nodeid : Nat) :
    (t.dropInode nodeid).Within G := by
  intro other found looked
  by_cases here : other = nodeid
  · rw [here, lookup, Table.dropInode, AList.lookup_erase] at looked
    exact absurd looked (by simp)
  · rw [lookup, Table.dropInode, AList.lookup_erase_ne here] at looked
    exact within other found looked

theorem Within.insertNew (within : t.Within G) (path : Bytes)
    (good : G path) : (t.insertNew path).Within G :=
  Within.setInode (t := { t with nextInode := t.nextInode + 1 }) within t.nextInode ⟨path, 1⟩ good

theorem Within.bindInode (within : t.Within G) (path : Bytes)
    (good : G path) : (t.bindInode path).2.Within G := by
  unfold Table.bindInode
  split
  · exact within.insertNew path good
  · split
    · rename_i entry looked
      unfold countLookup
      split
      · exact within
      · exact within.setInode _ _ (within _ entry looked)
    · exact Within.insertNew (t := t.unindex path) within path good

theorem Within.decrefInode (within : t.Within G) (nodeid n : Nat) :
    (t.decrefInode nodeid n).Within G := by
  unfold Table.decrefInode
  split
  · exact within
  · rename_i entry looked
    split
    · exact within
    split
    · intro other found looked
      rw [Table.lookup, forgetInode_inodes] at looked
      exact within.dropInode nodeid other found looked
    · exact within.setInode _ _ (within _ entry looked)

theorem Within.replaceInodeRelPath {table : Table} (within : t.Within G) {nodeid : Nat} {path : Bytes}
    (good : G path) (done : t.replaceInodeRelPath nodeid path = some table) : table.Within G := by
  obtain ⟨entry, -, same⟩ := Option.map_eq_some_iff.mp done
  subst same
  exact Within.setInode (t := (t.unindex entry.relPath).freePath nodeid entry.relPath) within _ _ good

theorem Within.moveBelow (closed : Closed G) (within : t.Within G) {old new : Bytes} (good : G new)
    (named : new ≠ []) (nodeid : Nat) : (Table.moveBelow old new t nodeid).Within G := by
  unfold Table.moveBelow
  split
  · exact within
  · rename_i entry looked
    split
    · exact within
    · rename_i suffix below
      cases replaced : t.replaceInodeRelPath nodeid (new ++ suffix) with
      | none => exact within
      | some table =>
        exact within.replaceInodeRelPath
          (closed.moved old new _ suffix good named (within _ entry looked) below) replaced

theorem Within.rename (closed : Closed G) {table : Table} (within : t.Within G)
    {old new : Bytes} {isDir : Bool} {order : List Nat} (good : G new) (named : new ≠ [])
    (done : t.updateBoundInodesAfterRename old new isDir order = some table) : table.Within G := by
  have loop : ∀ (ids : List Nat) (u : Table), u.Within G →
      (ids.foldl (Table.moveBelow old new) u).Within G := by
    intro ids
    induction ids with
    | nil => exact fun _ inside => inside
    | cons nodeid rest ih => exact fun u inside => ih _ (inside.moveBelow closed good named nodeid)
  obtain ⟨u, moved, same⟩ := Option.map_eq_some_iff.mp done
  have inside : u.Within G := by
    split at moved
    · exact within.replaceInodeRelPath good moved
    · exact Option.some.inj moved ▸ within
  subst same
  split
  · exact loop order u inside
  · exact inside

theorem Within.retarget {table : Table} (within : t.Within G) {nodeid : Nat}
    {path : Bytes} (good : G path) (done : t.retarget nodeid path = some table) : table.Within G := by
  obtain ⟨entry, -, same⟩ := Option.map_eq_some_iff.mp done
  subst same
  exact Within.setInode (t := t.freePath nodeid entry.relPath) within _ _ good

end Table

theorem Move.within (closed : Closed G) {t : State σ} (move : Move G T s issued t)
    (within : s.table.Within G) : t.table.Within G := by
  cases move with
  | call => exact within
  | bind rel good => exact within.bindInode rel good
  | unindex => exact within
  | forget nodeid n => exact within.decrefInode nodeid n
  | retarget _ _ _ good _ done => exact within.retarget good done
  | rename _ _ _ _ _ good named done => exact within.rename closed good named.2 done
  | put => exact within
  | release => exact within

end Machinen.Mount
