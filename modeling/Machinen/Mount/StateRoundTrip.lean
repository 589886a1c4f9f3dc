import Machinen.Lib.Run
import Machinen.Mount.StateCodec

/-! What the decoder of a mount's state accepts is framed like what the builder writes, and the builder's
payload is read back whole; no beginning of it is accepted. -/
namespace Machinen.Mount.StateCodec

open Bytes Framing

/-- A payload with what the decoder ignores of it. -/
structure Frame where
  modeRw : UInt8
  pad : Bytes
  padding : pad.length = 3
  nextInode : UInt64
  nextHandle : UInt64
  inodes : List InodeFrame
  handles : List HandleFrame

namespace Frame

structure Fits (f : Frame) : Prop where
  inodeCount : f.inodes.length < 2 ^ 32
  handleCount : f.handles.length < 2 ^ 32
  inodes : ∀ inode ∈ f.inodes, inode.Fits
  handles : ∀ handle ∈ f.handles, handle.Fits

def head (f : Frame) : Bytes :=
  header f.modeRw f.pad f.nextInode f.nextHandle (.ofNat f.inodes.length) (.ofNat f.handles.length)

def body (f : Frame) : Bytes :=
  f.inodes.flatMap InodeFrame.bytes ++ f.handles.flatMap HandleFrame.bytes

def bytes (f : Frame) : Bytes := f.head ++ f.body

def decoded (f : Frame) : Decoded :=
  ⟨f.modeRw != 0, f.nextInode, f.nextHandle, f.inodes.map InodeFrame.record,
    f.handles.map HandleFrame.record⟩

theorem head_length (f : Frame) : f.head.length = stateHeaderSize := header_length f.padding ..

theorem body_room (f : Frame) :
    f.inodes.length * inodeRecHeaderSize + f.handles.length * handleRecHeaderSize ≤ f.body.length := by
  rw [body, List.length_append]
  refine Nat.add_le_add (run_room fun inode _ => ?_) (run_room fun handle _ => ?_)
  · rw [InodeFrame.bytes, List.length_append, InodeFrame.head, inodeRecHeader_length]
    exact Nat.le_add_right ..
  · rw [HandleFrame.bytes, List.length_append, HandleFrame.head, handleRecHeader_length handle.padding]
    exact Nat.le_add_right ..

end Frame

theorem readRecords_exact (inodeCount handleCount : Nat) :
    Exact (readRecords inodeCount handleCount)
      (fun f : List InodeFrame × List HandleFrame =>
        (f.1.length = inodeCount ∧ ∀ inode ∈ f.1, inode.Fits) ∧
          f.2.length = handleCount ∧ ∀ handle ∈ f.2, handle.Fits)
      (Prod.map (List.map InodeFrame.record) (List.map HandleFrame.record))
      (fun f => f.1.flatMap InodeFrame.bytes ++ f.2.flatMap HandleFrame.bytes) :=
  (readInode_exact.many inodeCount).both (readHandle_exact.many handleCount)

theorem decode_short {payload : Bytes} (short : payload.length < stateHeaderSize) :
    decode payload = some (.error .truncated) := if_pos short

def decodeBody (modeRw : UInt8) (hdr rest : Bytes) : Option (Except DecodeError Decoded) :=
  andThen (readRecords (word32 hdr 24).toNat (word32 hdr 28).toNat (hdr ++ rest) hdr.length)
    fun ((inodes, handles), off) =>
      if off ≤ (hdr ++ rest).length then
        some (.ok ⟨modeRw != 0, word64 hdr 8, word64 hdr 16, inodes, handles⟩)
      else none

theorem decode_long {hdr : Bytes} (rest : Bytes) {modeRw : UInt8} (whole : hdr.length = stateHeaderSize)
    (byte : hdr[4]? = some modeRw) :
    decode (hdr ++ rest) =
      if word32 hdr 0 ≠ .ofNat stateMagic then some (.error .badMagic)
      else if (word32 hdr 24).toNat * inodeRecHeaderSize + (word32 hdr 28).toNat * handleRecHeaderSize >
        rest.length then some (.error .truncated)
      else decodeBody modeRw hdr rest := by
  have first : part (hdr ++ rest) 0 stateHeaderSize = some hdr := by
    rw [part_some ⟨Nat.zero_le _, by rw [List.length_append]; omega⟩, Nat.sub_zero, ← whole]
    exact congrArg some (slice_append [] hdr rest)
  unfold decode
  rw [if_neg (by rw [List.length_append]; omega), first]
  dsimp only [Option.bind_eq_bind, Option.bind_some]
  split
  · rfl
  · rw [← whole]
    by_cases room : (word32 hdr 24).toNat * inodeRecHeaderSize +
      (word32 hdr 28).toNat * handleRecHeaderSize > rest.length
    · rw [if_pos (by rw [List.length_append]; omega), if_pos room]
    · rw [if_neg (by rw [List.length_append]; omega), if_neg room, byte]
      rfl

theorem decode_header (payload : Bytes) (long : ¬ payload.length < stateHeaderSize) : ∃ hdr rest modeRw,
    payload = hdr ++ rest ∧ hdr.length = stateHeaderSize ∧ hdr[4]? = some modeRw := by
  have whole : (payload.take stateHeaderSize).length = stateHeaderSize :=
    List.length_take_of_le (Nat.not_lt.mp long)
  exact ⟨_, payload.drop stateHeaderSize, _, (List.take_append_drop ..).symm, whole,
    List.getElem?_eq_getElem (by rw [whole]; decide)⟩

theorem decode_total (payload : Bytes) : ∃ result, decode payload = some result := by
  by_cases short : payload.length < stateHeaderSize
  · exact ⟨_, decode_short short⟩
  obtain ⟨hdr, rest, modeRw, rfl, whole, byte⟩ := decode_header payload short
  rw [decode_long rest whole byte]
  split
  · exact ⟨_, rfl⟩
  split
  · exact ⟨_, rfl⟩
  have exact_ := readRecords_exact (word32 hdr 24).toNat (word32 hdr 28).toNat
  refine andThen_total (exact_.total hdr rest) ?_
  rintro ⟨⟨inodes, handles⟩, off⟩ read
  obtain ⟨f, more, -, -, rfl, rfl⟩ := exact_.sound hdr rest _ off read
  dsimp only
  rw [if_pos]
  · exact ⟨_, rfl⟩
  · simp only [List.length_append]
    omega

theorem decode_sound {payload : Bytes} {d : Decoded} (read : decode payload = some (.ok d)) :
    ∃ f : Frame, f.Fits ∧ f.decoded = d ∧ f.bytes <+: payload := by
  by_cases short : payload.length < stateHeaderSize
  · rw [decode_short short] at read
    exact nomatch read
  obtain ⟨hdr, rest, modeRw, rfl, whole, byte⟩ := decode_header payload short
  rw [decode_long rest whole byte] at read
  split at read
  · exact nomatch read
  rename_i magic
  split at read
  · exact nomatch read
  obtain ⟨⟨⟨inodes, handles⟩, off⟩, records, read⟩ := of_andThen read
  obtain ⟨⟨fs, gs⟩, more, ⟨⟨inodeCount, inodeFits⟩, handleCount, handleFits⟩, value, rfl, rfl⟩ :=
    (readRecords_exact ..).sound hdr rest _ off records
  cases value
  dsimp only at read
  split at read
  · cases read
    refine ⟨⟨modeRw, slice hdr 5 3, slice_length hdr 5 3 (by rw [whole]; decide), word64 hdr 8,
      word64 hdr 16, fs, gs⟩, ⟨?_, ?_, inodeFits, handleFits⟩, rfl, more, ?_⟩
    · show fs.length < 2 ^ 32
      rw [inodeCount]
      exact UInt32.toNat_lt _
    · show gs.length < 2 ^ 32
      rw [handleCount]
      exact UInt32.toNat_lt _
    · simp only [Frame.bytes, Frame.head, Frame.body, inodeCount, handleCount, UInt32.ofNat_toNat,
        header_words whole byte (not_not.mp magic), List.append_assoc]
  · exact nomatch read

theorem decode_complete (f : Frame) (fits : f.Fits) (more : Bytes) :
    decode (f.bytes ++ more) = some (.ok f.decoded) := by
  obtain ⟨magic, byte, nextInode, nextHandle, inodeCount, handleCount⟩ := header_read f.padding f.modeRw
    f.nextInode f.nextHandle (.ofNat f.inodes.length) (.ofNat f.handles.length) f.head rfl
  have room := f.body_room
  rw [Frame.bytes, List.append_assoc, decode_long _ f.head_length byte, if_neg (not_not.mpr magic),
    if_neg,
    decodeBody, inodeCount, handleCount, count_back fits.inodeCount, count_back fits.handleCount,
    Frame.body, (readRecords_exact ..).complete (f.inodes, f.handles) _ more
      ⟨⟨rfl, fits.inodes⟩, rfl, fits.handles⟩, andThen_ok]
  · dsimp only [Prod.map]
    rw [if_pos, nextInode, nextHandle]
    · rfl
    · simp only [List.length_append]
      omega
  · rw [inodeCount, handleCount, count_back fits.inodeCount, count_back fits.handleCount,
      List.length_append]
    omega

theorem Frame.prefix_free {f g : Frame} (fits : f.Fits) (fits' : g.Fits) (more more' : Bytes)
    (same : f.bytes ++ more = g.bytes ++ more') : f.bytes = g.bytes := by
  unfold Frame.bytes at same
  rw [List.append_assoc, List.append_assoc] at same
  obtain ⟨heads, bodies⟩ := List.append_inj same (f.head_length.trans g.head_length.symm)
  obtain ⟨-, -, -, -, inodeCount, handleCount⟩ := header_read f.padding f.modeRw f.nextInode f.nextHandle
    (.ofNat f.inodes.length) (.ofNat f.handles.length) f.head rfl
  obtain ⟨-, -, -, -, inodeCount', handleCount'⟩ :=
    header_read g.padding g.modeRw g.nextInode g.nextHandle
    (.ofNat g.inodes.length) (.ofNat g.handles.length) f.head heads.symm
  have inodes : g.inodes.length = f.inodes.length := by
    rw [← count_back fits'.inodeCount, ← inodeCount', inodeCount, count_back fits.inodeCount]
  have handles : g.handles.length = f.handles.length := by
    rw [← count_back fits'.handleCount, ← handleCount', handleCount, count_back fits.handleCount]
  have records := (readRecords_exact f.inodes.length f.handles.length).prefix_free
    (f := (f.inodes, f.handles)) (g := (g.inodes, g.handles)) ⟨⟨rfl, fits.inodes⟩, rfl, fits.handles⟩
    ⟨⟨inodes, fits'.inodes⟩, handles, fits'.handles⟩ bodies
  exact congrArg₂ (· ++ ·) heads records.1

theorem decode_cut {f : Frame} (fits : f.Fits) {cut : Bytes} (begins : cut <+: f.bytes)
    (strict : cut ≠ f.bytes) : ∃ e, decode cut = some (.error e) := by
  obtain ⟨result, read⟩ := decode_total cut
  cases result with
  | error e => exact ⟨e, read⟩
  | ok d =>
    obtain ⟨g, fits', -, rest, ended⟩ := decode_sound read
    obtain ⟨more, whole⟩ := begins
    have same : f.bytes = g.bytes := Frame.prefix_free fits fits' [] (rest ++ more) (by
      rw [List.append_nil, ← whole, ← ended, List.append_assoc])
    have nothing : more = [] := by
      apply List.eq_nil_of_length_eq_zero
      have lengths := congrArg List.length whole
      rw [← ended, same, List.length_append, List.length_append] at lengths
      omega
    rw [nothing, List.append_nil] at whole
    exact absurd whole strict

/-- A record that is added to a builder. -/
inductive Add where
  | inode (nodeid nlookup : UInt64) (relPath : Bytes)
  | fileHandle (handleId nodeid : UInt64) (openFlags : UInt32)
  | dirHandle (handleId nodeid : UInt64) (dirEntries : List Bytes)
deriving DecidableEq, Repr

namespace Add

def inode? : Add → Option InodeRec
  | .inode nodeid nlookup relPath => some ⟨nodeid, nlookup, relPath⟩
  | _ => none

def handle? : Add → Option HandleRec
  | .inode .. => none
  | .fileHandle handleId nodeid openFlags => some ⟨handleId, nodeid, openFlags, .file, []⟩
  | .dirHandle handleId nodeid dirEntries => some ⟨handleId, nodeid, 0, .dir, dirEntries⟩

/-- The lengths that the builder asserts. -/
def Sized : Add → Prop
  | .inode _ _ relPath => relPath.length < 2 ^ 32
  | .fileHandle .. => True
  | .dirHandle _ _ dirEntries => dirEntries.length < 2 ^ 32 ∧ ∀ entry ∈ dirEntries, entry.length < 2 ^ 32

end Add

def Builder.add (b : Builder) : Add → Option Builder
  | .inode nodeid nlookup relPath => b.addInode nodeid nlookup relPath
  | .fileHandle handleId nodeid openFlags => b.addFileHandle handleId nodeid openFlags
  | .dirHandle handleId nodeid dirEntries => b.addDirHandle handleId nodeid dirEntries

/-- Builder.init and then the records, one after the other. -/
def build (modeRw : Bool) (nextInode nextHandle : UInt64) (adds : List Add) : Option Builder :=
  Run.exec Builder.add { modeRw, nextInode, nextHandle } adds

theorem increment_eq {count more : UInt32} (next : increment count = some more) :
    count.toNat + 1 < 2 ^ 32 ∧ more.toNat = count.toNat + 1 := by
  unfold increment at next
  split at next
  · rename_i room
    cases next
    refine ⟨room, ?_⟩
    rw [UInt32.toNat_add]
    exact Nat.mod_eq_of_lt room
  · exact nomatch next

theorem appendEntries_eq (entries : List Bytes) (body : Bytes) : Builder.appendEntries body entries =
    if ∀ entry ∈ entries, entry.length < 2 ^ 32 then some
      (body ++ entries.flatMap entryBytes) else none := by
  induction entries generalizing body with
  | nil =>
    rw [if_pos nofun, List.flatMap_nil, List.append_nil]
    rfl
  | cons entry entries ih =>
    unfold Builder.appendEntries
    rw [ih, List.flatMap_cons, List.append_assoc]
    by_cases small : entry.length < 2 ^ 32
    · rw [if_pos small]
      simp only [List.forall_mem_cons, small, true_and]
    · rw [if_neg small, if_neg fun all => small (all entry List.mem_cons_self)]

/-- A record as the builder writes it. -/
def InodeRec.bytes (record : InodeRec) : Bytes := InodeFrame.bytes ⟨record, 0⟩

def HandleRec.bytes (record : HandleRec) : Bytes :=
  HandleFrame.bytes ⟨record, zeros 3, 0, zeros_length 3⟩

structure Builder.Added (b : Builder) (a : Add) (b' : Builder) : Prop where
  sized : a.Sized
  modeRw : b'.modeRw = b.modeRw
  nextInode : b'.nextInode = b.nextInode
  nextHandle : b'.nextHandle = b.nextHandle
  inodeCount : b'.inodeCount.toNat = b.inodeCount.toNat + a.inode?.toList.length
  handleCount : b'.handleCount.toNat = b.handleCount.toNat + a.handle?.toList.length
  inodeBody : b'.inodeBody = b.inodeBody ++ a.inode?.toList.flatMap InodeRec.bytes
  handleBody : b'.handleBody = b.handleBody ++ a.handle?.toList.flatMap HandleRec.bytes

theorem Builder.added {b b' : Builder} {a : Add} (next : b.add a = some b') : b.Added a b' := by
  cases a with
  | inode nodeid nlookup relPath =>
    simp only [Builder.add, Builder.addInode, Option.bind_eq_bind, Option.ite_none_right_eq_some,
      Option.bind_eq_some_iff, Option.some.injEq] at next
    obtain ⟨sized, count, counted, rfl⟩ := next
    refine ⟨sized, rfl, rfl, rfl, (increment_eq counted).2, rfl, ?_, ?_⟩
    · simp only [Add.inode?, Option.toList_some, List.flatMap_singleton, InodeRec.bytes,
        InodeFrame.bytes, InodeFrame.head, List.append_assoc]
    · exact (List.append_nil _).symm
  | fileHandle handleId nodeid openFlags =>
    simp only [Builder.add, Builder.addFileHandle, Option.bind_eq_bind, Option.bind_eq_some_iff,
      Option.some.injEq] at next
    obtain ⟨count, counted, rfl⟩ := next
    refine ⟨trivial, rfl, rfl, rfl, rfl, (increment_eq counted).2, (List.append_nil _).symm, ?_⟩
    simp only [Add.handle?, Option.toList_some, List.flatMap_singleton, HandleRec.bytes,
      HandleFrame.bytes, HandleFrame.head, List.flatMap_nil, List.append_nil, List.length_nil]
    rfl
  | dirHandle handleId nodeid dirEntries =>
    simp only [Builder.add, Builder.addDirHandle, appendEntries_eq, Option.bind_eq_bind,
      Option.ite_none_right_eq_some, Option.bind_eq_some_iff, Option.some.injEq] at next
    obtain ⟨counted, body, ⟨sized, rfl⟩, count, counted', rfl⟩ := next
    refine ⟨⟨counted, sized⟩, rfl, rfl, rfl, rfl, (increment_eq counted').2, (List.append_nil _).symm,
      ?_⟩
    simp only [Add.handle?, Option.toList_some, List.flatMap_singleton, HandleRec.bytes,
      HandleFrame.bytes, HandleFrame.head, List.append_assoc]

theorem increment_room {count : UInt32} (room : count.toNat + 1 < 2 ^ 32) :
    increment count = some (count + 1) := if_pos room

theorem Builder.add_isSome (b : Builder) (a : Add) : (b.add a).isSome ↔ a.Sized ∧
    b.inodeCount.toNat + a.inode?.toList.length < 2 ^ 32 ∧
    b.handleCount.toNat + a.handle?.toList.length < 2 ^ 32 := by
  constructor
  · intro accepted
    obtain ⟨b', next⟩ := Option.isSome_iff_exists.mp accepted
    have added := Builder.added next
    exact ⟨added.sized, added.inodeCount ▸ b'.inodeCount.toNat_lt,
      added.handleCount ▸ b'.handleCount.toNat_lt⟩
  · rintro ⟨sized, inodes, handles⟩
    cases a with
    | inode nodeid nlookup relPath =>
      have small : relPath.length < 2 ^ 32 := sized
      show (b.addInode ..).isSome
      rw [Builder.addInode, if_pos small, increment_room inodes]
      rfl
    | fileHandle handleId nodeid openFlags =>
      show (b.addFileHandle ..).isSome
      rw [Builder.addFileHandle, increment_room handles]
      rfl
    | dirHandle handleId nodeid dirEntries =>
      obtain ⟨counted, small⟩ : dirEntries.length < 2 ^ 32 ∧ ∀ entry ∈ dirEntries,
        entry.length < 2 ^ 32 := sized
      show (b.addDirHandle ..).isSome
      rw [Builder.addDirHandle, if_pos counted, appendEntries_eq, if_pos small, increment_room handles]
      rfl

/-- What a builder holds, as the decoder gives it. -/
structure Builder.Holds (b : Builder) (d : Decoded) : Prop where
  modeRw : b.modeRw = d.modeRw
  nextInode : b.nextInode = d.nextInode
  nextHandle : b.nextHandle = d.nextHandle
  inodeCount : b.inodeCount.toNat = d.inodes.length
  handleCount : b.handleCount.toNat = d.handles.length
  inodeBody : b.inodeBody = d.inodes.flatMap InodeRec.bytes
  handleBody : b.handleBody = d.handles.flatMap HandleRec.bytes
  inodes : ∀ record ∈ d.inodes, record.path.length < 2 ^ 32
  handles : ∀ record ∈ d.handles,
    record.dirEntries.length < 2 ^ 32 ∧ ∀ entry ∈ record.dirEntries, entry.length < 2 ^ 32

def Decoded.push (d : Decoded) (a : Add) : Decoded :=
  { d with inodes := d.inodes ++ a.inode?.toList, handles := d.handles ++ a.handle?.toList }

theorem Add.sized_inode {a : Add} (sized : a.Sized) {record : InodeRec} (is : record ∈ a.inode?.toList) :
    record.path.length < 2 ^ 32 := by
  cases a with
  | inode nodeid nlookup relPath =>
    obtain rfl := List.mem_singleton.mp is
    exact sized
  | fileHandle => exact nomatch is
  | dirHandle => exact nomatch is

theorem Add.sized_handle {a : Add} (sized : a.Sized) {record : HandleRec}
    (is : record ∈ a.handle?.toList) :
    record.dirEntries.length < 2 ^ 32 ∧ ∀ entry ∈ record.dirEntries, entry.length < 2 ^ 32 := by
  cases a with
  | inode => exact nomatch is
  | fileHandle handleId nodeid openFlags =>
    obtain rfl := List.mem_singleton.mp is
    exact ⟨Nat.zero_lt_succ _, nofun⟩
  | dirHandle handleId nodeid dirEntries =>
    obtain rfl := List.mem_singleton.mp is
    exact sized

theorem Builder.Holds.add {b b' : Builder} {d : Decoded} {a : Add} (holds : b.Holds d)
    (next : b.add a = some b') : b'.Holds (d.push a) := by
  have added := Builder.added next
  refine ⟨added.modeRw.trans holds.modeRw, added.nextInode.trans holds.nextInode,
    added.nextHandle.trans holds.nextHandle, ?_, ?_, ?_, ?_, ?_, ?_⟩
  · rw [added.inodeCount, holds.inodeCount, Decoded.push, List.length_append]
  · rw [added.handleCount, holds.handleCount, Decoded.push, List.length_append]
  · rw [added.inodeBody, holds.inodeBody, Decoded.push, List.flatMap_append]
  · rw [added.handleBody, holds.handleBody, Decoded.push, List.flatMap_append]
  · exact fun record is => (List.mem_append.mp is).elim (holds.inodes record)
      (Add.sized_inode added.sized)
  · exact fun record is => (List.mem_append.mp is).elim (holds.handles record)
      (Add.sized_handle added.sized)

theorem Builder.run_holds {b b' : Builder} {d : Decoded} {adds : List Add} (holds : b.Holds d)
    (run : Run.exec Builder.add b adds = some b') : b'.Holds (adds.foldl Decoded.push d) := by
  induction adds generalizing b d with
  | nil => exact Option.some.inj run ▸ holds
  | cons a adds ih =>
    obtain ⟨m, first, rest⟩ := Run.exec_cons run
    exact ih (holds.add first) rest

theorem filterMap_cons_toList {α β : Type} (f : α → Option β) (a : α) (as : List α) :
    (a :: as).filterMap f = (f a).toList ++ as.filterMap f := by
  rw [List.filterMap_cons]
  cases f a <;> rfl

theorem push_all (adds : List Add) (d : Decoded) : adds.foldl Decoded.push d =
    { d with
      inodes := d.inodes ++ adds.filterMap Add.inode?
      handles := d.handles ++ adds.filterMap Add.handle? } := by
  induction adds generalizing d with
  | nil => simp only [List.foldl_nil, List.filterMap_nil, List.append_nil]
  | cons a adds ih =>
    rw [List.foldl_cons, ih, filterMap_cons_toList, filterMap_cons_toList]
    simp only [Decoded.push, List.append_assoc]

theorem Builder.run_isSome (b : Builder) (adds : List Add) : (Run.exec Builder.add b adds).isSome ↔
    (∀ a ∈ adds, a.Sized) ∧ b.inodeCount.toNat + (adds.filterMap Add.inode?).length < 2 ^ 32 ∧
      b.handleCount.toNat + (adds.filterMap Add.handle?).length < 2 ^ 32 := by
  induction adds generalizing b with
  | nil => exact iff_of_true rfl ⟨List.forall_mem_nil _, b.inodeCount.toNat_lt, b.handleCount.toNat_lt⟩
  | cons a adds ih =>
    rw [List.forall_mem_cons, filterMap_cons_toList, filterMap_cons_toList, List.length_append,
      List.length_append]
    unfold Run.exec
    cases next : b.add a with
    | none =>
      refine iff_of_false Bool.false_ne_true ?_
      rintro ⟨⟨sized, -⟩, inodes, handles⟩
      have accepted := (b.add_isSome a).mpr ⟨sized, by omega, by omega⟩
      rw [next] at accepted
      cases accepted
    | some b' =>
      have added := Builder.added next
      rw [Option.bind_some, ih, added.inodeCount, added.handleCount, Nat.add_assoc, Nat.add_assoc,
        and_iff_right added.sized]

/-- The frame of what a builder holds. -/
def Decoded.frame (d : Decoded) : Frame where
  modeRw := if d.modeRw then 1 else 0
  pad := zeros 3
  padding := zeros_length 3
  nextInode := d.nextInode
  nextHandle := d.nextHandle
  inodes := d.inodes.map fun record => ⟨record, 0⟩
  handles := d.handles.map fun record => ⟨record, zeros 3, 0, zeros_length 3⟩

theorem Decoded.decoded_frame (d : Decoded) : d.frame.decoded = d := by
  have mode : ((if d.modeRw then 1 else 0 : UInt8) != 0) = d.modeRw := by
    cases d.modeRw <;> rfl
  simp only [Frame.decoded, Decoded.frame, mode, List.map_map]
  congr
  · exact List.map_id _
  · exact List.map_id _

namespace Builder.Holds

variable {b : Builder} {d : Decoded}

theorem fits (holds : b.Holds d) : d.frame.Fits where
  inodeCount := by
    rw [Decoded.frame, List.length_map, ← holds.inodeCount]
    exact b.inodeCount.toNat_lt
  handleCount := by
    rw [Decoded.frame, List.length_map, ← holds.handleCount]
    exact b.handleCount.toNat_lt
  inodes := List.forall_mem_map.mpr holds.inodes
  handles := List.forall_mem_map.mpr holds.handles

theorem finish_eq (holds : b.Holds d) : b.finish = d.frame.bytes := by
  rw [Builder.finish, Frame.bytes, Frame.head, Frame.body, Decoded.frame]
  dsimp only
  rw [List.length_map, List.length_map, List.flatMap_map, List.flatMap_map, ← holds.inodeCount,
    ← holds.handleCount, UInt32.ofNat_toNat, UInt32.ofNat_toNat, holds.modeRw, holds.nextInode,
    holds.nextHandle, holds.inodeBody, holds.handleBody]
  rfl

end Builder.Holds

theorem build_isSome (modeRw : Bool) (nextInode nextHandle : UInt64) (adds : List Add) :
    (build modeRw nextInode nextHandle adds).isSome ↔ (∀ a ∈ adds, a.Sized) ∧
      (adds.filterMap Add.inode?).length < 2 ^ 32 ∧ (adds.filterMap Add.handle?).length < 2 ^ 32 := by
  have accepted := Builder.run_isSome { modeRw, nextInode, nextHandle } adds
  rwa [show (0 : UInt32).toNat = 0 from rfl, Nat.zero_add, Nat.zero_add] at accepted

theorem build_holds {modeRw : Bool} {nextInode nextHandle : UInt64} {adds : List Add} {b : Builder}
    (built : build modeRw nextInode nextHandle adds = some b) : b.Holds
      ⟨modeRw, nextInode, nextHandle, adds.filterMap Add.inode?, adds.filterMap Add.handle?⟩ := by
  have holds := Builder.run_holds (d := ⟨modeRw, nextInode, nextHandle, [], []⟩)
    ⟨rfl, rfl, rfl, rfl, rfl, rfl, rfl, nofun, nofun⟩ built
  rw [push_all] at holds
  exact holds

def InodeRec.add (record : InodeRec) : Add := .inode record.nodeid record.nlookup record.path

/-- As dumpState adds it: a file handle without entries, a directory handle without flags. -/
def HandleRec.add (record : HandleRec) : Add :=
  match record.kind with
  | .file => .fileHandle record.handleId record.nodeid record.openFlags
  | .dir => .dirHandle record.handleId record.nodeid record.dirEntries

def encode (d : Decoded) : Option Bytes :=
  (build d.modeRw d.nextInode d.nextHandle (d.inodes.map InodeRec.add ++
    d.handles.map HandleRec.add)).map Builder.finish

/-- What the decoder ignores is as the builder writes it. -/
structure Frame.Plain (f : Frame) : Prop where
  modeRw : f.modeRw = 0 ∨ f.modeRw = 1
  pad : f.pad = zeros 3
  inodes : ∀ inode ∈ f.inodes, inode.pad = 0
  handles : ∀ handle ∈ f.handles, handle.pad = zeros 3 ∧ handle.pad2 = 0
  fileEntries : ∀ handle ∈ f.handles, handle.record.kind = .file → handle.record.dirEntries = []
  dirFlags : ∀ handle ∈ f.handles, handle.record.kind = .dir → handle.record.openFlags = 0

namespace Frame.Plain

variable {f : Frame}

theorem frame_decoded (plain : f.Plain) : f.decoded.frame = f := by
  obtain ⟨modeRw, pad, padding, nextInode, nextHandle, inodes, handles⟩ := f
  have mode : (if (modeRw != 0) = true then 1 else 0) = modeRw := by
    rcases plain.modeRw with rfl | rfl <;> rfl
  have zero : pad = zeros 3 := plain.pad
  subst zero
  simp only [Decoded.frame, Frame.decoded, List.map_map, Frame.mk.injEq, true_and]
  refine ⟨mode, ?_, ?_⟩
  · refine (List.map_congr_left fun inode listed => ?_).trans (List.map_id _)
    obtain ⟨record, pad⟩ := inode
    obtain rfl : pad = 0 := plain.inodes _ listed
    rfl
  · refine (List.map_congr_left fun handle listed => ?_).trans (List.map_id _)
    obtain ⟨record, pad, pad2, padding⟩ := handle
    obtain ⟨rfl, rfl⟩ : pad = zeros 3 ∧ pad2 = 0 := plain.handles _ listed
    rfl

theorem handle_add (plain : f.Plain) {handle : HandleFrame} (listed : handle ∈ f.handles) :
    handle.record.add.handle? = some handle.record := by
  obtain ⟨⟨handleId, nodeid, openFlags, kind, dirEntries⟩, pad, pad2, padding⟩ := handle
  have entries := plain.fileEntries _ listed
  have flags := plain.dirFlags _ listed
  cases kind with
  | file =>
    obtain rfl : dirEntries = [] := entries rfl
    rfl
  | dir =>
    obtain rfl : openFlags = 0 := flags rfl
    rfl

theorem adds_inodes (f : Frame) : (f.decoded.inodes.map InodeRec.add ++
    f.decoded.handles.map HandleRec.add).filterMap Add.inode? = f.decoded.inodes := by
  rw [List.filterMap_append, List.filterMap_map, List.filterMap_map]
  have inodes : Add.inode? ∘ InodeRec.add = some := rfl
  have handles : Add.inode? ∘ HandleRec.add = fun _ => none := by
    funext record
    simp only [Function.comp_apply, HandleRec.add]
    split <;> rfl
  rw [inodes, handles, List.filterMap_some, List.filterMap_none, List.append_nil]

theorem adds_handles (plain : f.Plain) : (f.decoded.inodes.map InodeRec.add ++
    f.decoded.handles.map HandleRec.add).filterMap Add.handle? = f.decoded.handles := by
  rw [List.filterMap_append, List.filterMap_map, List.filterMap_map]
  have inodes : Add.handle? ∘ InodeRec.add = fun _ => none := rfl
  rw [inodes, List.filterMap_none, List.nil_append, Frame.decoded]
  dsimp only
  rw [List.filterMap_map, ← List.filterMap_eq_map]
  exact List.filterMap_congr fun handle listed => plain.handle_add listed

theorem adds_sized (fits : f.Fits) : ∀ a ∈ f.decoded.inodes.map InodeRec.add ++
    f.decoded.handles.map HandleRec.add, a.Sized := by
  intro a listed
  rcases List.mem_append.mp listed with mine | mine
  · obtain ⟨record, there, rfl⟩ := List.mem_map.mp mine
    obtain ⟨inode, framed, rfl⟩ := List.mem_map.mp there
    exact fits.inodes inode framed
  · obtain ⟨record, there, rfl⟩ := List.mem_map.mp mine
    obtain ⟨handle, framed, rfl⟩ := List.mem_map.mp there
    have sized := fits.handles handle framed
    unfold HandleRec.add
    split
    · trivial
    · exact sized

theorem encode_decoded (plain : f.Plain) (fits : f.Fits) : encode f.decoded = some f.bytes := by
  have accepted := (build_isSome f.decoded.modeRw f.decoded.nextInode f.decoded.nextHandle
    (f.decoded.inodes.map InodeRec.add ++ f.decoded.handles.map HandleRec.add)).mpr
    ⟨adds_sized fits, ?_, ?_⟩
  · obtain ⟨b, built⟩ := Option.isSome_iff_exists.mp accepted
    have holds := build_holds built
    rw [adds_inodes, plain.adds_handles] at holds
    rw [encode, built, Option.map_some, holds.finish_eq]
    exact congrArg (fun g : Frame => some g.bytes) plain.frame_decoded
  · rw [adds_inodes]
    simpa only [Frame.decoded, List.length_map] using fits.inodeCount
  · rw [plain.adds_handles]
    simpa only [Frame.decoded, List.length_map] using fits.handleCount

end Frame.Plain

/-- The builder takes every record whose lengths and numbers fit their fields; what it finishes is decoded
to the records in order, and no beginning of it is; and of any payload the decoder accepts just a framed
beginning, which is the encoding of the records if what it ignores there is as the builder writes it. -/
theorem state_codec :
    (∀ modeRw nextInode nextHandle adds, (build modeRw nextInode nextHandle adds).isSome ↔
      (∀ a ∈ adds, a.Sized) ∧ (adds.filterMap Add.inode?).length < 2 ^ 32 ∧
        (adds.filterMap Add.handle?).length < 2 ^ 32) ∧
    (∀ modeRw nextInode nextHandle adds b, build modeRw nextInode nextHandle adds = some b →
      decode b.finish = some (.ok
        ⟨modeRw, nextInode, nextHandle, adds.filterMap Add.inode?, adds.filterMap Add.handle?⟩) ∧
      ∀ cut, cut <+: b.finish → cut ≠ b.finish → ∃ e, decode cut = some (.error e)) ∧
    ∀ payload, ∃ result, decode payload = some result ∧ ∀ d, result = .ok d →
      ∃ f : Frame, f.decoded = d ∧ f.bytes <+: payload ∧ (f.Plain → encode d = some f.bytes) := by
  refine ⟨?_, ?_, ?_⟩
  · exact build_isSome
  · intro modeRw nextInode nextHandle adds b built
    have holds := build_holds built
    rw [holds.finish_eq]
    have whole := decode_complete _ holds.fits []
    rw [List.append_nil, Decoded.decoded_frame] at whole
    exact ⟨whole, fun cut begins strict => decode_cut holds.fits begins strict⟩
  · intro payload
    obtain ⟨result, read⟩ := decode_total payload
    refine ⟨result, read, ?_⟩
    rintro d rfl
    obtain ⟨f, fits, rfl, begins⟩ := decode_sound read
    exact ⟨f, rfl, begins, fun plain => plain.encode_decoded fits⟩

/-- Any mode byte but zero is decoded as writable, and only one is written. -/
theorem mode_byte_not_kept : ¬ ∀ payload d, decode payload = some (.ok d) →
    ∃ bytes, encode d = some bytes ∧ bytes <+: payload := by
  intro every
  let f : Frame := ⟨2, zeros 3, rfl, 2, 1, [], []⟩
  have read : decode (f.bytes ++ []) = some (.ok f.decoded) :=
    decode_complete f ⟨by decide, by decide, nofun, nofun⟩ []
  have written : encode f.decoded = some (header 1 (zeros 3) 2 1 0 0) := rfl
  obtain ⟨bytes, encoded, more, same⟩ := every _ _ read
  obtain rfl := Option.some.inj (written.symm.trans encoded)
  have byte : some (1 : UInt8) = some 2 := congrArg (fun xs => xs[4]?) same
  exact absurd byte (by decide)

end Machinen.Mount.StateCodec
