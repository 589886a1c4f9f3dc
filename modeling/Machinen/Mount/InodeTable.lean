import Machinen.Mount.Protocol
import Mathlib.Data.List.AList

/-! The inode table of a live mount. The path index does not own its keys: a key is
the path string of the inode that was indexed first, and it dies with that string. -/
namespace Machinen.Mount

def nlookupPinned : Nat := 2 ^ 64 - 1

structure InodeEntry where
  relPath : Bytes
  nlookup : Nat
deriving DecidableEq, Repr

/-- `key` is the nodeid whose path string is the key of the entry. -/
structure IndexEntry where
  nodeid : Nat
  key : Nat
deriving DecidableEq, Repr

structure Table where
  inodes : AList fun _ : Nat => InodeEntry
  pathIndex : Bytes → Option IndexEntry
  nextInode : Nat
  /-- A path string was freed while the index still used it as a key. What a lookup finds from
  then on depends on freed memory, and the table does not follow it. -/
  dangling : Bool := false

namespace Table

def init : Table where
  inodes := (∅ : AList fun _ : Nat => InodeEntry).insert 1 ⟨[], nlookupPinned⟩
  pathIndex := Function.update (fun _ => none) [] (some ⟨1, 1⟩)
  nextInode := 2

def lookup (t : Table) (nodeid : Nat) : Option InodeEntry := t.inodes.lookup nodeid

def setInode (t : Table) (nodeid : Nat) (entry : InodeEntry) : Table :=
  { t with inodes := t.inodes.insert nodeid entry }

def dropInode (t : Table) (nodeid : Nat) : Table := { t with inodes := t.inodes.erase nodeid }

def unindex (t : Table) (path : Bytes) : Table :=
  { t with pathIndex := Function.update t.pathIndex path none }

def putIndex (t : Table) (path : Bytes) (nodeid : Nat) : Table :=
  { t with pathIndex := Function.update t.pathIndex path (some {
      nodeid := nodeid
      key := match t.pathIndex path with
        | some there => there.key
        | none => nodeid }) }

def keyed (t : Table) (nodeid : Nat) (path : Bytes) : Bool :=
  (t.pathIndex path).any fun there => there.key == nodeid

def freePath (t : Table) (nodeid : Nat) (path : Bytes) : Table :=
  { t with dangling := t.dangling || t.keyed nodeid path }

def insertNew (t : Table) (path : Bytes) : Table :=
  ({ t with nextInode := t.nextInode + 1 }.setInode t.nextInode ⟨path, 1⟩).putIndex path t.nextInode

def countLookup (t : Table) (nodeid : Nat) (entry : InodeEntry) : Table :=
  if entry.nlookup = nlookupPinned then t
  else t.setInode nodeid { entry with nlookup := entry.nlookup + 1 }

def bindInode (t : Table) (path : Bytes) : Nat × Table :=
  match t.pathIndex path with
  | none => (t.nextInode, t.insertNew path)
  | some there =>
    match t.lookup there.nodeid with
    | some entry => (there.nodeid, t.countLookup there.nodeid entry)
    | none => (t.nextInode, (t.unindex path).insertNew path)

def forgetInode (t : Table) (nodeid : Nat) (entry : InodeEntry) : Table :=
  let t := match t.pathIndex entry.relPath with
    | some there => if there.nodeid = nodeid then t.unindex entry.relPath else t
    | none => t
  (t.dropInode nodeid).freePath nodeid entry.relPath

theorem forgetInode_inodes (t : Table) (nodeid : Nat) (entry : InodeEntry) :
    (t.forgetInode nodeid entry).inodes = t.inodes.erase nodeid := by
  simp only [forgetInode]
  split
  · split <;> rfl
  · rfl

def decrefInode (t : Table) (nodeid n : Nat) : Table :=
  match t.lookup nodeid with
  | none => t
  | some entry =>
    if entry.nlookup = nlookupPinned then t
    else if entry.nlookup ≤ n then t.forgetInode nodeid entry
    else t.setInode nodeid { entry with nlookup := entry.nlookup - n }

/-- None for a nodeid that the index has and the table has not. -/
def replaceInodeRelPath (t : Table) (nodeid : Nat) (path : Bytes) : Option Table :=
  (t.lookup nodeid).map fun entry =>
    (((t.unindex entry.relPath).freePath nodeid entry.relPath).setInode nodeid
      { entry with relPath := path }).putIndex path nodeid

def below (dir path : Bytes) : Option Bytes :=
  if dir <+: path ∧ (path.drop dir.length).head? = some slash then some (path.drop dir.length)
  else none

def moveBelow (oldRel newRel : Bytes) (t : Table) (nodeid : Nat) : Table :=
  match t.lookup nodeid with
  | none => t
  | some entry =>
    match below oldRel entry.relPath with
    | none => t
    | some suffix => (t.replaceInodeRelPath nodeid (newRel ++ suffix)).getD t

/-- `order` is the order in which the iterator visits the inodes. -/
def updateBoundInodesAfterRename (t : Table) (oldRel newRel : Bytes) (renamedIsDir : Bool)
    (order : List Nat) : Option Table :=
  let moved := match t.pathIndex oldRel with
    | some there => t.replaceInodeRelPath there.nodeid newRel
    | none => some t
  moved.map fun t => if renamedIsDir then order.foldl (moveBelow oldRel newRel) t else t

/-- LINK: the inode gets the new path and one lookup; the index is left alone. -/
def retarget (t : Table) (nodeid : Nat) (path : Bytes) : Option Table :=
  (t.lookup nodeid).map fun entry =>
    (t.freePath nodeid entry.relPath).setInode nodeid
      { relPath := path
        nlookup := if entry.nlookup = nlookupPinned then entry.nlookup else entry.nlookup + 1 }

end Table
end Machinen.Mount
