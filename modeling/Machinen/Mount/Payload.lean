import Machinen.Mount.Snapshot

/-! A payload that was written from a mount is read back as what was written, in whatever
order the tables were visited. -/
namespace Machinen.Mount

open Bytes

section Fields

variable {n : Nat}

/-- A number that stands behind `front` is read there. -/
theorem field (width : Nat) (front rest : Bytes) (small : n < 256 ^ width) :
    toNat (slice (front ++ (le width n ++ rest)) front.length width) = n := by
  rw [slice, List.drop_left, List.take_left' (le_length width n), toNat_le width n small]

theorem u64At_field (front rest : Bytes) (small : n < 2 ^ 64) :
    u64At (front ++ (le 8 n ++ rest)) front.length = n := field _ front rest (by simpa using small)

theorem u32At_field (front rest : Bytes) (small : n < 2 ^ 32) :
    u32At (front ++ (le 4 n ++ rest)) front.length = n := field _ front rest (by simpa using small)

theorem u32At_front (rest : Bytes) (small : n < 2 ^ 32) : u32At (le 4 n ++ rest) 0 = n :=
  u32At_field [] rest small

end Fields

def InodeRec.Sized (rec : InodeRec) : Prop :=
  rec.nodeid < 2 ^ 64 ∧ rec.nlookup < 2 ^ 64 ∧ rec.path.length < 2 ^ 32

def HandleRec.Sized : HandleRec → Prop
  | .file handleId nodeid openFlags => handleId < 2 ^ 64 ∧ nodeid < 2 ^ 64 ∧ openFlags < 2 ^ 32
  | .dir handleId nodeid openFlags entries =>
    (handleId < 2 ^ 64 ∧ nodeid < 2 ^ 64 ∧ openFlags < 2 ^ 32) ∧ entries.length < 2 ^ 32 ∧
      ∀ entry ∈ entries, entry.length < 2 ^ 32

/-- Every number and every length fits the field it is written to. -/
structure Decoded.Sized (d : Decoded) : Prop where
  nextInode : d.nextInode < 2 ^ 64
  nextHandle : d.nextHandle < 2 ^ 64
  inodeCount : d.inodes.length < 2 ^ 32
  handleCount : d.handles.length < 2 ^ 32
  inodes : ∀ rec ∈ d.inodes, rec.Sized
  handles : ∀ rec ∈ d.handles, rec.Sized

section Records

variable {count : Nat} {rest more tail : Bytes}

theorem decodeEntries_next {entry : Bytes} {entries : List Bytes} (long : 4 ≤ rest.length)
    (len : u32At rest 0 = entry.length) (body : rest.drop 4 = entry ++ more)
    (others : decodeEntries count more = .ok (entries, tail)) :
    decodeEntries (count + 1) rest = .ok (entry :: entries, tail) := by
  have inside : ¬ (entry ++ more).length < entry.length := by
    rw [List.length_append]
    omega
  simp only [decodeEntries, len, body, Nat.not_lt.mpr long, inside, if_false, List.drop_left,
    List.take_left, others]

theorem decodeEntries_encode (entries : List Bytes) (sized : ∀ entry ∈ entries, entry.length < 2 ^ 32)
    (tail : Bytes) : decodeEntries entries.length
      ((entries.flatMap fun entry => le 4 entry.length ++ entry) ++ tail) = .ok (entries, tail) := by
  induction entries with
  | nil => rfl
  | cons entry rest ih =>
    rw [List.flatMap_cons, List.append_assoc, List.append_assoc]
    apply decodeEntries_next
    · rw [List.length_append, le_length]
      exact Nat.le_add_right _ _
    · exact u32At_field [] _ (sized entry List.mem_cons_self)
    · exact List.drop_left' (le_length 4 _)
    · exact ih fun other listed => sized other (List.mem_cons_of_mem _ listed)

theorem decodeInodes_next {rec : InodeRec} {recs : List InodeRec} (nodeid : u64At rest 0 = rec.nodeid)
    (nlookup : u64At rest 8 = rec.nlookup) (pathLen : u32At rest 16 = rec.path.length)
    (long : inodeRecHeaderSize ≤ rest.length) (body : rest.drop inodeRecHeaderSize = rec.path ++ more)
    (others : decodeInodes count more = .ok (recs, tail)) :
    decodeInodes (count + 1) rest = .ok (rec :: recs, tail) := by
  have inside : ¬ (rec.path ++ more).length < rec.path.length := by
    rw [List.length_append]
    omega
  simp only [decodeInodes, pathLen, body, Nat.not_lt.mpr long, inside, if_false, List.drop_left,
    List.take_left, others, nodeid, nlookup]

theorem decodeInodes_encode (recs : List InodeRec) (sized : ∀ rec ∈ recs, rec.Sized) (tail : Bytes) :
    decodeInodes recs.length (recs.flatMap encodeInode ++ tail) = .ok (recs, tail) := by
  induction recs with
  | nil => rfl
  | cons rec rest ih =>
    obtain ⟨nodeid, nlookup, path⟩ := sized rec List.mem_cons_self
    let header := le 8 rec.nodeid ++ le 8 rec.nlookup ++ le 4 rec.path.length ++ le 4 0
    have whole : header.length = inodeRecHeaderSize := by
      simp only [header, List.length_append, le_length]
      rfl
    rw [List.flatMap_cons, encodeInode, List.append_assoc, List.append_assoc]
    apply decodeInodes_next
    · simp only [List.append_assoc]
      exact u64At_field [] _ nodeid
    · simpa only [List.append_assoc, le_length] using u64At_field (le 8 rec.nodeid) _ nlookup
    · simpa only [List.append_assoc, List.length_append, le_length] using
        u32At_field (le 8 rec.nodeid ++ le 8 rec.nlookup) _ path
    · rw [List.length_append, whole]
      exact Nat.le_add_right _ _
    · exact List.drop_left' whole
    · exact ih fun other listed => sized other (List.mem_cons_of_mem _ listed)

/-- What precedes the entries of a handle. -/
def handleHeader (handleId nodeid openFlags kind entryCount : Nat) : Bytes :=
  le 8 handleId ++ le 8 nodeid ++ le 4 openFlags ++ le 1 kind ++ le 3 0 ++ le 4 entryCount ++ le 4 0

theorem handleHeader_length (handleId nodeid openFlags kind entryCount : Nat) :
    (handleHeader handleId nodeid openFlags kind entryCount).length = handleRecHeaderSize := by
  simp only [handleHeader, List.length_append, le_length]
  rfl

theorem entries_room (entries : List Bytes) :
    entries.length * 4 ≤ (entries.flatMap fun entry => le 4 entry.length ++ entry).length := by
  induction entries with
  | nil => exact Nat.le_refl _
  | cons entry rest ih =>
    simp only [List.length_cons, List.flatMap_cons, List.length_append, le_length]
    omega

theorem decodeHandles_next {handleId nodeid openFlags : Nat} (kind : Nat) (entries : List Bytes)
    {recs : List HandleRec} (ids : handleId < 2 ^ 64 ∧ nodeid < 2 ^ 64 ∧ openFlags < 2 ^ 32)
    (known : kind ≤ 1)
    (counted : entries.length < 2 ^ 32) (sized : ∀ entry ∈ entries, entry.length < 2 ^ 32)
    (others : decodeHandles count more = .ok (recs, tail)) :
    decodeHandles (count + 1) (handleHeader handleId nodeid openFlags kind entries.length ++
        ((entries.flatMap fun entry => le 4 entry.length ++ entry) ++ more)) = .ok
      ((if kind = 0 then HandleRec.file handleId nodeid openFlags
        else .dir handleId nodeid openFlags entries) :: recs, tail) := by
  have whole := handleHeader_length handleId nodeid openFlags kind entries.length
  have listed := decodeEntries_encode entries sized more
  have room := entries_room entries
  generalize (entries.flatMap fun entry => le 4 entry.length ++ entry) = listing at listed room ⊢
  have body : (handleHeader handleId nodeid openFlags kind entries.length ++ (listing ++ more)).drop
      handleRecHeaderSize = listing ++ more := List.drop_left' whole
  have long : ¬ (handleHeader handleId nodeid openFlags kind entries.length ++ (listing ++ more)).length <
      handleRecHeaderSize := by
    rw [List.length_append, whole]
    omega
  have inside : ¬ (listing ++ more).length < entries.length * 4 := by
    rw [List.length_append]
    omega
  have atId : u64At (handleHeader handleId nodeid openFlags kind entries.length ++ (listing ++ more)) 0 =
    handleId := by
    simp only [handleHeader, List.append_assoc]
    exact u64At_field [] _ ids.1
  have atNode : u64At (handleHeader handleId nodeid openFlags kind entries.length ++ (listing ++ more)) 8 =
    nodeid := by
    simpa only [handleHeader, List.append_assoc, le_length] using u64At_field (le 8 handleId) _ ids.2.1
  have atFlags : u32At (handleHeader handleId nodeid openFlags kind entries.length ++ (listing ++ more))
    16 =
      openFlags := by
    simpa only [handleHeader, List.append_assoc, List.length_append, le_length] using
      u32At_field (le 8 handleId ++ le 8 nodeid) _ ids.2.2
  have atKind : toNat (slice (handleHeader handleId nodeid openFlags kind entries.length ++
    (listing ++ more)) 20 1) =
      kind := by
    simpa only [handleHeader, List.append_assoc, List.length_append, le_length] using
      field 1 (le 8 handleId ++ le 8 nodeid ++ le 4 openFlags) _ (Nat.lt_of_le_of_lt known (by decide))
  have atCount : u32At (handleHeader handleId nodeid openFlags kind entries.length ++ (listing ++ more))
    24 =
      entries.length := by
    simpa only [handleHeader, List.append_assoc, List.length_append, le_length] using
      u32At_field (le 8 handleId ++ le 8 nodeid ++ le 4 openFlags ++ le 1 kind ++ le 3 0) _ counted
  simp only [decodeHandles, atKind, atCount, atId, atNode, atFlags, body, long, Nat.not_lt.mpr known,
    inside, if_false, listed, others]

theorem decodeHandles_encode (recs : List HandleRec) (sized : ∀ rec ∈ recs, rec.Sized) (tail : Bytes) :
    decodeHandles recs.length (recs.flatMap encodeHandle ++ tail) = .ok (recs, tail) := by
  induction recs with
  | nil => rfl
  | cons rec rest ih =>
    have others := ih fun other listed => sized other (List.mem_cons_of_mem _ listed)
    have fits := sized rec List.mem_cons_self
    rw [List.flatMap_cons, List.append_assoc]
    cases rec with
    | file handleId nodeid openFlags =>
      exact decodeHandles_next 0 [] fits (by decide) (by decide) nofun others
    | dir handleId nodeid openFlags entries =>
      obtain ⟨ids, counted, sizes⟩ := fits
      rw [encodeHandle, List.append_assoc]
      exact decodeHandles_next 1 entries ids (by decide) counted sizes others

end Records

/-- What precedes the records. -/
def stateHeader (d : Decoded) : Bytes :=
  le 4 stateMagic ++ le 1 (if d.modeRw then 1 else 0) ++ le 3 0 ++ le 8 d.nextInode ++ le 8 d.nextHandle ++
    le 4 d.inodes.length ++ le 4 d.handles.length

theorem stateHeader_length (d : Decoded) : (stateHeader d).length = stateHeaderSize := by
  simp only [stateHeader, List.length_append, le_length]
  rfl

theorem inodes_room (recs : List InodeRec) :
    recs.length * inodeRecHeaderSize ≤ (recs.flatMap encodeInode).length := by
  induction recs with
  | nil => exact Nat.le_refl _
  | cons rec rest ih =>
    simp only [List.length_cons, List.flatMap_cons, encodeInode, List.length_append, le_length,
      inodeRecHeaderSize] at ih ⊢
    omega

theorem handles_room (recs : List HandleRec) :
    recs.length * handleRecHeaderSize ≤ (recs.flatMap encodeHandle).length := by
  induction recs with
  | nil => exact Nat.le_refl _
  | cons rec rest ih =>
    cases rec <;>
      simp only [List.length_cons, List.flatMap_cons, encodeHandle, List.length_append, le_length,
        handleRecHeaderSize] at ih ⊢ <;> omega

theorem decodeState_encode (d : Decoded) (sized : d.Sized) : decodeState (encodeState d) = .ok d := by
  have layout : encodeState d = stateHeader d ++ (d.inodes.flatMap encodeInode ++
      (d.handles.flatMap encodeHandle ++ [])) := by
    simp only [encodeState, stateHeader, List.append_assoc, List.append_nil]
  have whole := stateHeader_length d
  have room := inodes_room d.inodes
  have room' := handles_room d.handles
  have inodes := decodeInodes_encode d.inodes sized.inodes (d.handles.flatMap encodeHandle ++ [])
  have handles := decodeHandles_encode d.handles sized.handles []
  rw [layout]
  generalize d.inodes.flatMap encodeInode = first at *
  generalize d.handles.flatMap encodeHandle = second at *
  have body : (stateHeader d ++ (first ++ (second ++ []))).drop stateHeaderSize = first ++ (second ++ []) :=
    List.drop_left' whole
  have long : ¬ (stateHeader d ++ (first ++ (second ++ []))).length < stateHeaderSize := by
    rw [List.length_append, whole]
    omega
  have inside : ¬ (stateHeader d ++ (first ++ (second ++ []))).length < stateHeaderSize +
      (d.inodes.length * inodeRecHeaderSize + d.handles.length * handleRecHeaderSize) := by
    rw [List.length_append, whole, List.length_append, List.append_nil]
    omega
  have magic : u32At (stateHeader d ++ (first ++ (second ++ []))) 0 = stateMagic := by
    simp only [stateHeader, List.append_assoc]
    rw [u32At_front _ (by decide)]
  have mode : (toNat (slice (stateHeader d ++ (first ++ (second ++ []))) 4 1) ≠ 0 : Bool) = d.modeRw := by
    have written : toNat (slice (stateHeader d ++ (first ++ (second ++ []))) 4 1) =
      if d.modeRw then 1 else 0 := by
      simpa only [stateHeader, List.append_assoc, le_length] using
        field 1 (le 4 stateMagic) _ (show (if d.modeRw then 1 else 0) < 256 ^ 1 by split <;> decide)
    rw [written]
    cases d.modeRw <;> rfl
  have nextInode : u64At (stateHeader d ++ (first ++ (second ++ []))) 8 = d.nextInode := by
    simpa only [stateHeader, List.append_assoc, List.length_append, le_length] using
      u64At_field (le 4 stateMagic ++ le 1 (if d.modeRw then 1 else 0) ++ le 3 0) _ sized.nextInode
  have nextHandle : u64At (stateHeader d ++ (first ++ (second ++ []))) 16 = d.nextHandle := by
    simpa only [stateHeader, List.append_assoc, List.length_append, le_length] using
      u64At_field (le 4 stateMagic ++ le 1 (if d.modeRw then 1 else 0) ++ le 3 0 ++ le 8 d.nextInode) _
        sized.nextHandle
  have inodeCount : u32At (stateHeader d ++ (first ++ (second ++ []))) 24 = d.inodes.length := by
    simpa only [stateHeader, List.append_assoc, List.length_append, le_length] using
      u32At_field (le 4 stateMagic ++ le 1 (if d.modeRw then 1 else 0) ++ le 3 0 ++ le 8 d.nextInode ++
        le 8 d.nextHandle) _ sized.inodeCount
  have handleCount : u32At (stateHeader d ++ (first ++ (second ++ []))) 28 = d.handles.length := by
    simpa only [stateHeader, List.append_assoc, List.length_append, le_length] using
      u32At_field (le 4 stateMagic ++ le 1 (if d.modeRw then 1 else 0) ++ le 3 0 ++ le 8 d.nextInode ++
        le 8 d.nextHandle ++ le 4 d.inodes.length) _ sized.handleCount
  simp only [decodeState, magic, nextInode, nextHandle, inodeCount, handleCount, long, inside, body, inodes,
    handles, if_false, ne_eq, not_true_eq_false]
  exact congrArg (fun mode => Except.ok { d with modeRw := mode }) mode

end Machinen.Mount
