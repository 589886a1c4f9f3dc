import Machinen.Mount.Server

/-! The payload that carries a live mount's inode table and open handles through a
snapshot, and its application to a freshly booted mount. -/
namespace Machinen.Mount

open Bytes Prog

def stateMagic : Nat := 0x56465353
def stateHeaderSize : Nat := 32
def inodeRecHeaderSize : Nat := 24
def handleRecHeaderSize : Nat := 32

inductive DecodeError where
  | truncated | badMagic | badKind
deriving DecidableEq, Repr

structure InodeRec where
  nodeid : Nat
  nlookup : Nat
  path : Bytes
deriving DecidableEq, Repr

inductive HandleRec where
  | file (handleId nodeid openFlags : Nat)
  | dir (handleId nodeid openFlags : Nat) (entries : List Bytes)
deriving DecidableEq, Repr

structure Decoded where
  modeRw : Bool
  nextInode : Nat
  nextHandle : Nat
  inodes : List InodeRec
  handles : List HandleRec
deriving DecidableEq, Repr

def encodeInode (rec : InodeRec) : Bytes :=
  le 8 rec.nodeid ++ le 8 rec.nlookup ++ le 4 rec.path.length ++ le 4 0 ++ rec.path

def encodeHandle : HandleRec → Bytes
  | .file handleId nodeid openFlags =>
    le 8 handleId ++ le 8 nodeid ++ le 4 openFlags ++ le 1 0 ++ le 3 0 ++ le 4 0 ++ le 4 0
  | .dir handleId nodeid openFlags entries =>
    le 8 handleId ++ le 8 nodeid ++ le 4 openFlags ++ le 1 1 ++ le 3 0 ++ le 4 entries.length ++ le 4 0 ++
      entries.flatMap fun entry => le 4 entry.length ++ entry

/-- Builder.finish after every record was added. -/
def encodeState (d : Decoded) : Bytes :=
  le 4 stateMagic ++ le 1 (if d.modeRw then 1 else 0) ++ le 3 0 ++ le 8 d.nextInode ++ le 8 d.nextHandle ++
    le 4 d.inodes.length ++ le 4 d.handles.length ++ d.inodes.flatMap encodeInode ++
    d.handles.flatMap encodeHandle

def decodeInodes : Nat → Bytes → Except DecodeError (List InodeRec × Bytes)
  | 0, rest => .ok ([], rest)
  | count + 1, rest =>
    let body := rest.drop inodeRecHeaderSize
    let pathLen := u32At rest 16
    if rest.length < inodeRecHeaderSize then .error .truncated
    else if body.length < pathLen then .error .truncated
    else match decodeInodes count (body.drop pathLen) with
      | .error e => .error e
      | .ok (recs, rest') => .ok (⟨u64At rest 0, u64At rest 8, body.take pathLen⟩ :: recs, rest')

def decodeEntries : Nat → Bytes → Except DecodeError (List Bytes × Bytes)
  | 0, rest => .ok ([], rest)
  | count + 1, rest =>
    let body := rest.drop 4
    let len := u32At rest 0
    if rest.length < 4 then .error .truncated
    else if body.length < len then .error .truncated
    else match decodeEntries count (body.drop len) with
      | .error e => .error e
      | .ok (entries, rest') => .ok (body.take len :: entries, rest')

def decodeHandles : Nat → Bytes → Except DecodeError (List HandleRec × Bytes)
  | 0, rest => .ok ([], rest)
  | count + 1, rest =>
    let body := rest.drop handleRecHeaderSize
    let kind := toNat (slice rest 20 1)
    let entryCount := u32At rest 24
    if rest.length < handleRecHeaderSize then .error .truncated
    else if 1 < kind then .error .badKind
    else if body.length < entryCount * 4 then .error .truncated
    else match decodeEntries entryCount body with
      | .error e => .error e
      | .ok (entries, rest') =>
        let rec_ := if kind = 0 then HandleRec.file (u64At rest 0) (u64At rest 8) (u32At rest 16)
          else .dir (u64At rest 0) (u64At rest 8) (u32At rest 16) entries
        match decodeHandles count rest' with
        | .error e => .error e
        | .ok (recs, rest'') => .ok (rec_ :: recs, rest'')

/-- The counts of the header are checked against the payload before anything is read. -/
def decodeState (payload : Bytes) : Except DecodeError Decoded :=
  let inodeCount := u32At payload 24
  let handleCount := u32At payload 28
  if payload.length < stateHeaderSize then .error .truncated
  else if u32At payload 0 ≠ stateMagic then .error .badMagic
  else if payload.length < stateHeaderSize + (inodeCount * inodeRecHeaderSize +
      handleCount * handleRecHeaderSize) then .error .truncated
  else match decodeInodes inodeCount (payload.drop stateHeaderSize) with
    | .error e => .error e
    | .ok (inodes, rest) => match decodeHandles handleCount rest with
      | .error e => .error e
      | .ok (handles, _) =>
        .ok ⟨toNat (slice payload 4 1) ≠ 0, u64At payload 8, u64At payload 16, inodes, handles⟩

variable {σ : Type} (host : Host σ)

/-- A file handle is freed by closing its descriptor. -/
def freeHandle : OpenEntry → Handler σ PUnit
  | .file (some file) _ _ => do
    let _ ← attempt host (.close file.fd)
    pure ⟨⟩
  | _ => pure ⟨⟩

/-- O_TRUNC is masked off and a read-only mount opens for reading only. -/
def reopenFlags (modeRw : Bool) (openFlags : Nat) : Nat :=
  let flags := Nat.ldiff openFlags linuxOTrunc
  if modeRw then flags else Nat.ldiff flags 3

def reopenHandle (nodeid openFlags : Nat) : Handler σ (Option HostFile) := do
  let s ← read
  match (s.table.lookup nodeid).bind fun entry => buildAbsPath s.rootAbs entry.relPath with
  | none => pure none
  | some abs =>
    let hostFlags := linuxOpenToHost (reopenFlags s.modeRw openFlags)
    match ← attempt host (.open_ abs hostFlags 0) with
    | .ok fd => pure (some ⟨fd, hostFlags⟩)
    | .error _ => pure none

def Table.restore (recs : List InodeRec) (nextInode : Nat) : Table :=
  recs.foldl (fun t r => (t.setInode r.nodeid ⟨r.path, r.nlookup⟩).putIndex r.path r.nodeid)
    { inodes := ∅, pathIndex := fun _ => none, nextInode := nextInode }

def restoreHandle : HandleRec → Handler σ PUnit
  | .file handleId nodeid openFlags => do
    let file ← reopenHandle host nodeid openFlags
    change fun s => s.setHandles (s.handles.insert handleId (.file file nodeid openFlags))
  | .dir handleId nodeid _ entries =>
    change fun s => s.setHandles (s.handles.insert handleId (.dir nodeid entries))

def applyDecoded (d : Decoded) : Handler σ PUnit := do
  let s ← read
  forEach (fun entry : Sigma fun _ : Nat => OpenEntry => freeHandle host entry.2) s.handles.entries
  change fun s =>
    { s with
      modeRw := d.modeRw
      table := .restore d.inodes d.nextInode
      handles := ∅
      nextHandle := d.nextHandle }
  forEach (restoreHandle host) d.handles

/-- A payload that does not decode leaves the mount as it was booted. -/
def State.applyState (s : State σ) (payload : Bytes) : State σ :=
  match decodeState payload with
  | .error _ => s
  | .ok d => (applyDecoded host d s).2

def dumpInodes (t : Table) : List InodeRec :=
  t.inodes.entries.map fun entry => ⟨entry.1, entry.2.nlookup, entry.2.relPath⟩

def dumpHandles (handles : AList fun _ : Nat => OpenEntry) : List HandleRec :=
  handles.entries.map fun entry => match entry.2 with
    | .file _ nodeid openFlags => .file entry.1 nodeid openFlags
    | .dir nodeid entries => .dir entry.1 nodeid 0 entries

def State.dumpState (s : State σ) : Bytes :=
  encodeState ⟨s.modeRw, s.table.nextInode, s.nextHandle, dumpInodes s.table, dumpHandles s.handles⟩

end Machinen.Mount
