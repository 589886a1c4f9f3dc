import Machinen.Lib.Program
import Machinen.Lib.Run
import Machinen.Mount.InodeTable

/-! The request handlers of a live mount. The host answers system calls as it likes;
every call is logged before it is answered. Allocations succeed. -/
namespace Machinen.Mount

open Bytes Prog

/-- A name that readdir returns; d_name has 1024 bytes at most, its NUL included. -/
structure DirentName where
  bytes : Bytes
  nonempty : bytes ≠ []
  plain : ∀ c ∈ bytes, c ≠ slash ∧ c ≠ 0
  short : bytes.length < 1024

structure HostDirent where
  name : DirentName
  dtype : Nat

inductive Call where
  | lstat (path : Bytes)
  | fstat (fd : Nat)
  | open_ (path : Bytes) (flags : HostFlags) (mode : Nat)
  | close (fd : Nat)
  | pread (fd size offset : Nat)
  | pwrite (fd : Nat) (data : Bytes) (offset : Nat)
  | readlink (path : Bytes)
  | listDir (path : Bytes)
  | mkdir (path : Bytes) (mode : Nat)
  | symlink (target path : Bytes)
  | unlink (path : Bytes)
  | rmdir (path : Bytes)
  | link (old new : Bytes)
  | rename (old new : Bytes)
  | truncate (path : Bytes) (size : Nat)
  | ftruncate (fd size : Nat)
  | chmod (path : Bytes) (mode : Nat)
  | fchmod (fd mode : Nat)

/-- What a call returns when it succeeds. `listDir` is opendir, every readdir and closedir. -/
def Call.Answer : Call → Type
  | .lstat _ | .fstat _ => Stat
  | .open_ _ _ _ | .pwrite _ _ _ => Nat
  | .pread _ _ _ | .readlink _ => Bytes
  | .listDir _ => List HostDirent
  | _ => Unit

/-- The host's file system. A pwrite that a signal interrupts is answered when it is retried. -/
structure Host (σ : Type) where
  call : σ → (c : Call) → Except Nat c.Answer × σ
  notEmpty : Nat := 39

def Host.idle : Host Unit where
  call s c := (match c with
    | .lstat _ | .fstat _ => .ok ({} : Stat)
    | .open_ _ _ _ => .ok (3 : Nat)
    | .pwrite _ data _ => .ok data.length
    | .pread _ _ _ | .readlink _ => .ok ([] : Bytes)
    | .listDir _ => .ok ([] : List HostDirent)
    | .close _ | .mkdir .. | .symlink .. | .unlink _ | .rmdir _ | .link .. | .rename .. | .truncate ..
    | .ftruncate .. | .chmod .. | .fchmod .. => .ok (), s)

structure HostFile where
  fd : Nat
  flags : HostFlags
deriving DecidableEq, Repr

/-- An open file without a host descriptor could not be reopened after a restore. -/
inductive OpenEntry where
  | file (host : Option HostFile) (nodeid openFlags : Nat)
  | dir (nodeid : Nat) (entries : List Bytes)
deriving DecidableEq, Repr

inductive Event where
  | call (c : Call)
  | forget (nodeid n : Nat)
  | reply (reply : Reply)

structure State (σ : Type) where
  rootAbs : Bytes
  modeRw : Bool
  table : Table
  handles : AList (fun _ : Nat => OpenEntry) := ∅
  nextHandle : Nat := 1
  host : σ
  log : List Event := []
  trapped : Bool := false

/-- A handler ends early with an error reply, or a safety check stops the process. -/
inductive Exit where
  | error (errno : Errno)
  | trap

variable {σ : Type}

abbrev Handler (σ A : Type) := Prog (State σ) Exit A

namespace State

def init (rootAbs : Bytes) (modeRw : Bool) (host : σ) : State σ :=
  { rootAbs := rootAbs, modeRw := modeRw, table := .init, host := host }

def note (s : State σ) (event : Event) : State σ := { s with log := s.log ++ [event] }

def setTable (s : State σ) (table : Table) : State σ := { s with table := table }

def setHost (s : State σ) (host : σ) : State σ := { s with host := host }

def setHandles (s : State σ) (handles : AList fun _ : Nat => OpenEntry) : State σ :=
  { s with handles := handles }

def putHandle (s : State σ) (entry : OpenEntry) : State σ :=
  { s with handles := s.handles.insert s.nextHandle entry, nextHandle := s.nextHandle + 1 }

end State

def fail {A : Type} (errno : Errno) : Handler σ A := leave (.error errno)

def buildAbsPath (rootAbs relPath : Bytes) : Option Bytes :=
  if relPath = [] then if 4096 < rootAbs.length then none else some rootAbs
  else if 4096 < rootAbs.length + 1 + relPath.length then none
  else some (rootAbs ++ slash :: relPath)

def absPath (relPath : Bytes) : Handler σ Bytes := do
  let s ← read
  need (buildAbsPath s.rootAbs relPath) (.error .inval)

def requireInode (nodeid : Nat) : Handler σ InodeEntry := do
  let s ← read
  need (s.table.lookup nodeid) (.error .stale)

def requireWritable : Handler σ PUnit := do
  let s ← read
  ensure (s.modeRw = true) (.error .rofs)

/-- `state.next_inode += 1` and `state.next_handle += 1` are checked. -/
def bindInode (path : Bytes) : Handler σ Nat := do
  let s ← read
  let bound := s.table.bindInode path
  ensure (bound.2.nextInode < 2 ^ 64) .trap
  change fun s => s.setTable bound.2
  pure bound.1

def newHandle (entry : OpenEntry) : Handler σ Nat := do
  let s ← read
  ensure (s.nextHandle + 1 < 2 ^ 64) .trap
  change fun s => s.putHandle entry
  pure s.nextHandle

def openFile (fh : Nat) : Handler σ HostFile := do
  let s ← read
  match s.handles.lookup fh with
  | some (.file (some host) _ _) => pure host
  | _ => fail .badf

section Calls

variable (host : Host σ)

def attempt (c : Call) : Handler σ (Except Nat c.Answer) := do
  let s ← read
  let (answer, next) := host.call s.host c
  change fun s => (s.note (.call c)).setHost next
  pure answer

def sys (c : Call) : Handler σ c.Answer := do
  match ← attempt host c with
  | .ok answer => pure answer
  | .error errno => fail (mapFsError host.notEmpty errno)

def attrOf (st : Stat) (nodeid : Nat) : Handler σ Attr := need (statToAttr st nodeid) .trap

/-- The checks every handler of a name in a directory starts with: the path below the
mount root and the path on the host. -/
def childPath (parent : Nat) (name : Bytes) : Handler σ (Bytes × Bytes) := do
  ensure (validateName name = true) (.error .inval)
  let entry ← requireInode parent
  let rel := joinRel entry.relPath name
  let abs ← absPath rel
  pure (rel, abs)

def inodePath (nodeid : Nat) : Handler σ Bytes := do
  let entry ← requireInode nodeid
  absPath entry.relPath

def onInit (body : Bytes) : Handler σ Reply := do
  ensure (8 ≤ body.length) (.error .inval)
  pure (.data (initOut body))

def decref (nodeid n : Nat) : Handler σ PUnit :=
  change fun s => (s.note (.forget nodeid n)).setTable (s.table.decrefInode nodeid n)

def onForget (nodeid : Nat) (body : Bytes) : Handler σ Reply := do
  if body.length < 8 then pure .none
  else
    decref nodeid (u64At body 0)
    pure .none

def forgetRecords (body : Bytes) : List (Nat × Nat) :=
  (List.range (min (u32At body 0) ((body.length - 8) / 16))).map fun i =>
    (u64At body (8 + i * 16), u64At body (8 + i * 16 + 8))

def onBatchForget (body : Bytes) : Handler σ Reply := do
  if body.length < 8 then pure .none
  else
    forEach (fun record => decref record.1 record.2) (forgetRecords body)
    pure .none

def onLookup (parent : Nat) (body : Bytes) : Handler σ Reply := do
  let (rel, abs) ← childPath parent (decodeName body)
  let st ← sys host (.lstat abs)
  let nodeid ← bindInode rel
  let attr ← attrOf st nodeid
  pure (.entry attr)

def onGetattr (nodeid : Nat) : Handler σ Reply := do
  let abs ← inodePath nodeid
  let st ← sys host (.lstat abs)
  let attr ← attrOf st nodeid
  pure (.attr attr)

def onReadlink (nodeid : Nat) : Handler σ Reply := do
  let abs ← inodePath nodeid
  let target ← sys host (.readlink abs)
  pure (.data (Bytes.slice target 0 4096))

def onCreate (parent : Nat) (body : Bytes) : Handler σ Reply := do
  requireWritable
  ensure (fuseCreateInSize ≤ body.length) (.error .inval)
  let flags := u32At body 0
  let (rel, abs) ← childPath parent (decodeName (body.drop fuseCreateInSize))
  let hostFlags := { linuxOpenToHost flags with creates := true }
  let fd ← sys host (.open_ abs hostFlags (u32At body 4 &&& 0o7777))
  match ← attempt host (.fstat fd) with
  | .error errno =>
    let _ ← attempt host (.close fd)
    fail (mapFsError host.notEmpty errno)
  | .ok st =>
    let nodeid ← bindInode rel
    let fh ← newHandle (.file (some ⟨fd, hostFlags⟩) nodeid flags)
    let attr ← attrOf st nodeid
    pure (.created attr fh)

/-- pwriteAll from `done` on. Every round writes at least one byte, or is the last. -/
def pwriteAll (fd : Nat) (data : Bytes) (offset : Nat) (done : Nat) : Nat → Handler σ Nat
  | 0 => pure done
  | rounds + 1 =>
    if data.length ≤ done then pure done
    else do
      ensure (offset + done < 2 ^ 63) .trap
      let n : Nat ← sys host (.pwrite fd (data.drop done) (offset + done))
      if n = 0 then pure done else pwriteAll fd data offset (done + n) rounds

def onWrite (body : Bytes) : Handler σ Reply := do
  requireWritable
  ensure (fuseWriteInSize ≤ body.length) (.error .inval)
  let size := u32At body 16
  ensure (fuseWriteInSize + size ≤ body.length) (.error .inval)
  let data := slice body fuseWriteInSize size
  let file ← openFile (u64At body 0)
  let written ← pwriteAll host file.fd data (u64At body 8) 0 data.length
  ensure (written < 2 ^ 32) .trap
  pure (.data (le 4 written ++ le 4 0))

def onOpen (nodeid : Nat) (body : Bytes) : Handler σ Reply := do
  ensure (8 ≤ body.length) (.error .inval)
  let flags := u32At body 0
  let s ← read
  ensure (¬ ((flags &&& 3 = linuxOWronly ∨ flags &&& 3 = linuxORdwr) ∧ s.modeRw = false)) (.error .rofs)
  let abs ← inodePath nodeid
  let fd ← sys host (.open_ abs (linuxOpenToHost flags) 0)
  let fh ← newHandle (.file (some ⟨fd, linuxOpenToHost flags⟩) nodeid flags)
  pure (.opened fh)

def onRead (body : Bytes) : Handler σ Reply := do
  ensure (32 ≤ body.length) (.error .inval)
  let size := u32At body 16
  let file ← openFile (u64At body 0)
  ensure (u64At body 8 < 2 ^ 63) .trap
  let bytes ← sys host (.pread file.fd size (u64At body 8))
  pure (.data (Bytes.slice bytes 0 size))

def onMkdir (parent : Nat) (body : Bytes) : Handler σ Reply := do
  requireWritable
  ensure (8 ≤ body.length) (.error .inval)
  let (rel, abs) ← childPath parent (decodeName (body.drop 8))
  let _ ← sys host (.mkdir abs (u32At body 0 &&& 0o7777))
  let st ← sys host (.lstat abs)
  let nodeid ← bindInode rel
  let attr ← attrOf st nodeid
  pure (.entry attr)

def unlinkOrRmdir (parent : Nat) (body : Bytes) (isRmdir : Bool) : Handler σ Reply := do
  requireWritable
  let (rel, abs) ← childPath parent (decodeName body)
  if isRmdir then
    let _ ← sys host (.rmdir abs)
    change fun s => s.setTable (s.table.unindex rel)
    pure .ack
  else
    let _ ← sys host (.unlink abs)
    change fun s => s.setTable (s.table.unindex rel)
    pure .ack

def onLink (parent : Nat) (body : Bytes) : Handler σ Reply := do
  requireWritable
  ensure (8 ≤ body.length) (.error .inval)
  let oldNodeid := u64At body 0
  let name := decodeName (body.drop 8)
  ensure (validateName name = true) (.error .inval)
  let old ← requireInode oldNodeid
  let newParent ← requireInode parent
  let newRel := joinRel newParent.relPath name
  let oldAbs ← absPath old.relPath
  let newAbs ← absPath newRel
  let _ ← sys host (.link oldAbs newAbs)
  let st ← sys host (.lstat newAbs)
  let s ← read
  let table ← need (s.table.retarget oldNodeid newRel) (.error .stale)
  change fun s => s.setTable table
  let attr ← attrOf st oldNodeid
  pure (.entry attr)

/-- The two names of a RENAME; the first must end with a NUL. -/
def renameNames (names : Bytes) : Option (Bytes × Bytes) :=
  if 0 ∈ names then
    some (decodeName names, decodeName (names.drop ((decodeName names).length + 1)))
  else none

def renamedIsDir : Except Nat Stat → Bool
  | .ok st => st.isDir
  | .error _ => true

def onRename (parent : Nat) (body : Bytes) (order : List Nat) : Handler σ Reply := do
  requireWritable
  ensure (8 ≤ body.length) (.error .inval)
  let (oldName, newName) ← need (renameNames (body.drop 8)) (.error .inval)
  ensure (validateName oldName = true) (.error .inval)
  ensure (validateName newName = true) (.error .inval)
  let oldParent ← requireInode parent
  let newParent ← requireInode (u64At body 0)
  let oldRel := joinRel oldParent.relPath oldName
  let newRel := joinRel newParent.relPath newName
  let oldAbs ← absPath oldRel
  let newAbs ← absPath newRel
  let _ ← sys host (.rename oldAbs newAbs)
  let renamed ← attempt host (.lstat newAbs)
  -- the assertions of update_bound_inodes_after_rename
  ensure (oldRel ≠ [] ∧ newRel ≠ []) .trap
  let s ← read
  let table ← need (s.table.updateBoundInodesAfterRename oldRel newRel (renamedIsDir renamed) order)
    (.error .io)
  change fun s => s.setTable table
  pure .ack

def onSymlink (parent : Nat) (body : Bytes) : Handler σ Reply := do
  requireWritable
  let (name, target) ← need (renameNames body) (.error .inval)
  ensure (validateName name = true) (.error .inval)
  ensure (target ≠ []) (.error .inval)
  let (rel, abs) ← childPath parent name
  ensure (target.length < 4097) (.error .inval)
  let _ ← sys host (.symlink target abs)
  let st ← sys host (.lstat abs)
  let nodeid ← bindInode rel
  let attr ← attrOf st nodeid
  pure (.entry attr)

def setattrFile (valid : Nat) (body : Bytes) : Handler σ (Option HostFile) := do
  if valid &&& fattrFh = 0 then pure none
  else
    let file ← openFile (u64At body 8)
    pure (some file)

def setattrSize (valid : Nat) (body abs : Bytes) : Handler σ PUnit := do
  if valid &&& fattrSize = 0 then pure ⟨⟩
  else
    ensure (24 ≤ body.length) (.error .inval)
    let size := u64At body 16
    ensure (size < 2 ^ 63) (.error .inval)
    match ← setattrFile valid body with
    | some file =>
      let _ ← sys host (.ftruncate file.fd size)
      pure ⟨⟩
    | none =>
      let _ ← sys host (.truncate abs size)
      pure ⟨⟩

def setattrMode (valid : Nat) (body abs : Bytes) : Handler σ PUnit := do
  if valid &&& fattrMode = 0 then pure ⟨⟩
  else
    ensure (72 ≤ body.length) (.error .inval)
    let mode := u32At body 68 &&& 0o7777
    match ← setattrFile valid body with
    | some file =>
      let _ ← sys host (.fchmod file.fd mode)
      pure ⟨⟩
    | none =>
      let _ ← sys host (.chmod abs mode)
      pure ⟨⟩

def onSetattr (nodeid : Nat) (body : Bytes) : Handler σ Reply := do
  ensure (8 ≤ body.length) (.error .inval)
  let valid := u32At body 0
  let s ← read
  ensure (¬ (s.modeRw = false ∧ valid &&& mutatingMask ≠ 0)) (.error .rofs)
  let abs ← inodePath nodeid
  setattrSize host valid body abs
  setattrMode host valid body abs
  let st ← sys host (.lstat abs)
  let attr ← attrOf st nodeid
  pure (.attr attr)

/-- RELEASE and RELEASEDIR; the handle is freed whatever its kind. -/
def releaseHandle (fh : Nat) : Handler σ Reply := do
  let s ← read
  match s.handles.lookup fh with
  | none => pure .ack
  | some (.file (some file) _ _) =>
    let _ ← attempt host (.close file.fd)
    change fun s => s.setHandles (s.handles.erase fh)
    pure .ack
  | some _ =>
    change fun s => s.setHandles (s.handles.erase fh)
    pure .ack

def onRelease (body : Bytes) : Handler σ Reply := do
  ensure (fuseReleaseInSize ≤ body.length) (.error .inval)
  releaseHandle host (u64At body 0)

def onReleasedir (body : Bytes) : Handler σ Reply := do
  ensure (8 ≤ body.length) (.error .inval)
  releaseHandle host (u64At body 0)

def maxDirents : Nat := 64 * 1024

/-- The type of a child that the host's readdir does not tell; none where its path is
too long, which leaves the child out. -/
def direntType (dirRel : Bytes) (child : HostDirent) : Handler σ (Option Nat) := do
  if child.dtype ≠ 0 then pure (some child.dtype)
  else
    let s ← read
    match buildAbsPath s.rootAbs (joinRel dirRel child.name.bytes) with
    | none => pure none
    | some abs =>
      match ← attempt host (.lstat abs) with
      | .ok st => pure (some (modeToDt st.mode))
      | .error _ => pure (some 0)

def packDirents (dirRel : Bytes) : List HostDirent → List Bytes → Handler σ (List Bytes)
  | [], entries => pure entries
  | child :: rest, entries =>
    if entries.length = maxDirents then pure entries
    else if child.name.bytes = [dot] ∨ child.name.bytes = [dot, dot] then packDirents dirRel rest entries
    else do
      match ← direntType host dirRel child with
      | none => packDirents dirRel rest entries
      | some dtype =>
        packDirents dirRel rest (entries ++ [buildDirent (entries.length + 1) dtype child.name.bytes])

def onOpendir (nodeid : Nat) : Handler σ Reply := do
  let entry ← requireInode nodeid
  let abs ← absPath entry.relPath
  let children ← sys host (.listDir abs)
  let entries ← packDirents host entry.relPath children []
  let fh ← newHandle (.dir 0 entries)
  pure (.opened fh)

def onReaddir (body : Bytes) : Handler σ Reply := do
  ensure (32 ≤ body.length) (.error .inval)
  let s ← read
  match s.handles.lookup (u64At body 0) with
  | some (.dir _ entries) =>
    pure (.data (fillDirents (u32At body 16) (entries.drop (u64At body 8))))
  | _ => fail .badf

def handle (order : List Nat) (hdr : InHeader) (body : Bytes) : Handler σ Reply :=
  match Op.ofCode hdr.opcode with
  | .init => onInit body
  | .destroy => pure .ack
  | .interrupt => pure .none
  | .forget => onForget hdr.nodeid body
  | .batchForget => onBatchForget body
  | .lookup => onLookup host hdr.nodeid body
  | .getattr => onGetattr host hdr.nodeid
  | .readlink => onReadlink host hdr.nodeid
  | .create => onCreate host hdr.nodeid body
  | .write => onWrite host body
  | .release => onRelease host body
  | .open_ => onOpen host hdr.nodeid body
  | .read => onRead host body
  | .opendir => onOpendir host hdr.nodeid
  | .readdir => onReaddir body
  | .releasedir => onReleasedir host body
  | .mkdir => onMkdir host hdr.nodeid body
  | .unlink => unlinkOrRmdir host hdr.nodeid body false
  | .rmdir => unlinkOrRmdir host hdr.nodeid body true
  | .rename => onRename host hdr.nodeid body order
  | .link => onLink host hdr.nodeid body
  | .symlink => onSymlink host hdr.nodeid body
  | .setattr => onSetattr host hdr.nodeid body
  | .statfs => pure (.data statfsOut)
  | .fsync | .fsyncdir | .flush | .access => pure .ack
  | .other => fail .nosys

/-- A frame and the order in which an iterator over the inodes would visit them. -/
structure Request where
  frame : Bytes
  order : List Nat := []

def Request.of (opcode nodeid : Nat) (body : Bytes) (order : List Nat) : Request where
  frame := le 4 (fuseInHeaderSize + body.length) ++ le 4 opcode ++ le 8 1 ++ le 8 nodeid ++
    List.replicate 16 0 ++ body
  order := order

theorem readInHeader_of (opcode nodeid : Nat) (body : Bytes) (order : List Nat)
    (code : opcode < 256 ^ 4) (node : nodeid < 256 ^ 8) :
    readInHeader (Request.of opcode nodeid body order).frame = ⟨opcode, 1, nodeid⟩ := by
  have unique : toNat (le 8 1) = 1 := toNat_le 8 1 (by decide)
  simp [readInHeader, Request.of, u32At, u64At, slice, List.drop_append, List.drop_of_length_le, unique]
  exact ⟨toNat_le 4 opcode code, toNat_le 8 nodeid node⟩

/-- The reply of a request, none where it traps. -/
def State.serve (s : State σ) (request : Request) : State σ :=
  match handle host request.order (readInHeader request.frame) (bodyOf request.frame) s with
  | (.ok reply, t) => t.note (.reply reply)
  | (.error (.error errno), t) => t.note (.reply (.error errno))
  | (.error .trap, t) => { t with trapped := true }

theorem handle_log (s : State σ) (request : Request) :
    (handle host request.order (readInHeader request.frame) (bodyOf request.frame) s).2.log <+:
      (s.serve host request).log := by
  unfold State.serve
  match handle host request.order (readInHeader request.frame) (bodyOf request.frame) s with
  | (.ok reply, t) => exact List.prefix_append _ _
  | (.error (.error errno), t) => exact List.prefix_append _ _
  | (.error .trap, t) => exact List.prefix_refl _

/-- The transport refuses a frame without a whole header; the iterator visits every
inode once. -/
def State.step (s : State σ) (request : Request) : Option (State σ) :=
  if s.trapped then none
  else if request.frame.length < fuseInHeaderSize then none
  else if request.order.Perm s.table.inodes.keys then some (s.serve host request)
  else none

theorem step_serve {s t : State σ} {request : Request} (moved : s.step host request = some t) :
    t = s.serve host request := by
  unfold State.step at moved
  split at moved
  · exact absurd moved (by simp)
  split at moved
  · exact absurd moved (by simp)
  split at moved
  · exact (Option.some.inj moved).symm
  · exact absurd moved (by simp)

theorem step_alive {s t : State σ} {request : Request} (moved : s.step host request = some t) :
    s.trapped = false := by
  unfold State.step at moved
  split at moved
  · exact absurd moved (by simp)
  · rename_i alive
    exact (Bool.not_eq_true _).mp alive

theorem step_order {s t : State σ} {request : Request} (moved : s.step host request = some t) :
    request.order.Perm s.table.inodes.keys := by
  unfold State.step at moved
  split at moved
  · exact absurd moved (by simp)
  split at moved
  · exact absurd moved (by simp)
  split at moved
  · assumption
  · exact absurd moved (by simp)

def State.exec : State σ → List Request → Option (State σ) := Run.exec (State.step host)

end Calls

end Machinen.Mount
