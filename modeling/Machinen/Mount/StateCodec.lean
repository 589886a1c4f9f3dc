import Machinen.Lib.Framing
import Machinen.Mount.Payload

/-! The payload of a mount's state as the code writes and reads it: a builder that adds records one by
one, and a decoder that goes through the payload by offsets. -/
namespace Machinen.Mount.StateCodec

open Bytes Framing

inductive Kind where
  | file | dir
deriving DecidableEq, Repr

def Kind.byte : Kind → UInt8
  | .file => 0
  | .dir => 1

structure InodeRec where
  nodeid : UInt64
  nlookup : UInt64
  path : Bytes
deriving DecidableEq, Repr

structure HandleRec where
  handleId : UInt64
  nodeid : UInt64
  openFlags : UInt32
  kind : Kind
  dirEntries : List Bytes
deriving DecidableEq, Repr

structure Decoded where
  modeRw : Bool
  nextInode : UInt64
  nextHandle : UInt64
  inodes : List InodeRec
  handles : List HandleRec
deriving DecidableEq, Repr

structure Builder where
  modeRw : Bool
  nextInode : UInt64
  nextHandle : UInt64
  inodeCount : UInt32 := 0
  handleCount : UInt32 := 0
  inodeBody : Bytes := []
  handleBody : Bytes := []

/-- A count at its end traps. -/
def increment (count : UInt32) : Option UInt32 :=
  if count.toNat + 1 < 2 ^ 32 then some (count + 1) else none

def inodeRecHeader (nodeid nlookup : UInt64) (pathLen pad : UInt32) : Bytes :=
  le64 nodeid ++ (le64 nlookup ++ (le32 pathLen ++ le32 pad))

def handleRecHeader (handleId nodeid : UInt64) (openFlags : UInt32) (kind : UInt8) (pad : Bytes)
    (entryCount pad2 : UInt32) : Bytes :=
  le64 handleId ++ (le64 nodeid ++ (le32 openFlags ++ (kind :: pad ++ (le32 entryCount ++ le32 pad2))))

def header (modeRw : UInt8) (pad : Bytes) (nextInode nextHandle : UInt64)
    (inodeCount handleCount : UInt32) : Bytes :=
  le32 (.ofNat stateMagic) ++ (modeRw :: pad ++ (le64 nextInode ++ (le64 nextHandle ++
    (le32 inodeCount ++ le32 handleCount))))

def entryBytes (entry : Bytes) : Bytes := le32 (.ofNat entry.length) ++ entry

namespace Builder

def addInode (b : Builder) (nodeid nlookup : UInt64) (relPath : Bytes) : Option Builder :=
  if relPath.length < 2 ^ 32 then do
    some { b with
      inodeBody := b.inodeBody ++ inodeRecHeader nodeid nlookup (.ofNat relPath.length) 0 ++ relPath
      inodeCount := ← increment b.inodeCount }
  else none

def addFileHandle (b : Builder) (handleId nodeid : UInt64) (openFlags : UInt32) : Option Builder := do
  some { b with
    handleBody := b.handleBody ++ handleRecHeader handleId nodeid openFlags Kind.file.byte (zeros 3) 0 0
    handleCount := ← increment b.handleCount }

def appendEntries : Bytes → List Bytes → Option Bytes
  | body, [] => some body
  | body, entry :: entries =>
    if entry.length < 2 ^ 32 then appendEntries (body ++ entryBytes entry) entries else none

def addDirHandle (b : Builder) (handleId nodeid : UInt64) (dirEntries : List Bytes) : Option Builder :=
  if dirEntries.length < 2 ^ 32 then do
    some { b with
      handleBody := ← appendEntries (b.handleBody ++ handleRecHeader handleId nodeid 0 Kind.dir.byte (zeros 3)
        (.ofNat dirEntries.length) 0) dirEntries
      handleCount := ← increment b.handleCount }
  else none

def finish (b : Builder) : Bytes :=
  header (if b.modeRw then 1 else 0) (zeros 3) b.nextInode b.nextHandle b.inodeCount b.handleCount ++
    (b.inodeBody ++ b.handleBody)

end Builder

/-- A header of `headerSize` bytes and behind it as many bytes as its word at `lenAt` says. -/
def readSized {α : Type} (headerSize lenAt : Nat) (make : Bytes → Bytes → α) : Reader DecodeError α :=
  fun payload off =>
    if ¬ off ≤ payload.length then none
    else if off + headerSize > payload.length then some (.error .truncated)
    else do
      let header ← part payload off (off + headerSize)
      let off := off + headerSize
      let len := (word32 header lenAt).toNat
      if off + len > payload.length then some (.error .truncated)
      else do
        let body ← part payload off (off + len)
        some (.ok (make header body, off + len))

/-- One iteration of the loop over the inodes. -/
def readInode : Reader DecodeError InodeRec :=
  readSized inodeRecHeaderSize 16 fun ih path => ⟨word64 ih 0, word64 ih 8, path⟩

/-- One iteration of the loop over a handle's entries. -/
def readEntry : Reader DecodeError Bytes := readSized 4 0 fun _ entry => entry

/-- One iteration of the loop over the handles. -/
def readHandle : Reader DecodeError HandleRec := fun payload off =>
  if ¬ off ≤ payload.length then none
  else if off + handleRecHeaderSize > payload.length then some (.error .truncated)
  else do
    let hh ← part payload off (off + handleRecHeaderSize)
    let off := off + handleRecHeaderSize
    let kind ← hh[20]?
    if kind > Kind.dir.byte then some (.error .badKind)
    else
      let entryCount := (word32 hh 24).toNat
      if off + entryCount * 4 > payload.length then some (.error .truncated)
      else andThen (many readEntry entryCount payload off) fun (entries, off) =>
        some (.ok (⟨word64 hh 0, word64 hh 8, word32 hh 16,
          if kind = Kind.file.byte then .file else .dir, entries⟩, off))

/-- Everything behind the header. -/
def readRecords (inodeCount handleCount : Nat) : Reader DecodeError (List InodeRec × List HandleRec) :=
  both (many readInode inodeCount) (many readHandle handleCount)

def decode (payload : Bytes) : Option (Except DecodeError Decoded) :=
  if payload.length < stateHeaderSize then some (.error .truncated)
  else do
    let hdr ← part payload 0 stateHeaderSize
    if word32 hdr 0 ≠ .ofNat stateMagic then some (.error .badMagic)
    else
      let inodeCount := (word32 hdr 24).toNat
      let handleCount := (word32 hdr 28).toNat
      if stateHeaderSize + (inodeCount * inodeRecHeaderSize + handleCount * handleRecHeaderSize) >
          payload.length then some (.error .truncated)
      else do
        let modeRw ← hdr[4]?
        andThen (readRecords inodeCount handleCount payload
          stateHeaderSize) fun ((inodes, handles), off) =>
          if off ≤ payload.length then
            some (.ok ⟨modeRw != 0, word64 hdr 8, word64 hdr 16, inodes, handles⟩)
          else none

section Words

theorem word32_slice (xs : Bytes) (off len at_ : Nat) (inside : at_ + 4 ≤ len) :
    word32 (slice xs off len) at_ = word32 xs (off + at_) := by
  unfold word32
  rw [slice_slice xs off len at_ 4 inside]

theorem word64_slice (xs : Bytes) (off len at_ : Nat) (inside : at_ + 8 ≤ len) :
    word64 (slice xs off len) at_ = word64 xs (off + at_) := by
  unfold word64
  rw [slice_slice xs off len at_ 8 inside]

theorem slice_left {xs : Bytes} (ys : Bytes) {at_ width : Nat} (inside : at_ + width ≤ xs.length) :
    slice (xs ++ ys) at_ width = slice xs at_ width := by
  unfold slice
  rw [List.drop_append_of_le_length (by omega), List.take_append_of_le_length]
  rw [List.length_drop]
  omega

theorem word32_left {xs : Bytes} (ys : Bytes) (at_ : Nat) (inside : at_ + 4 ≤ xs.length) :
    word32 (xs ++ ys) at_ = word32 xs at_ := by
  unfold word32
  rw [slice_left ys inside]

end Words

section Sized

variable {α : Type} {headerSize lenAt : Nat} {make : Bytes → Bytes → α}

/-- A sized record sees only what stands from its offset on, and never leaves it. -/
theorem readSized_at (front rest : Bytes) (inside : lenAt + 4 ≤ headerSize) :
    readSized headerSize lenAt make (front ++ rest) front.length =
      if rest.length < headerSize + (word32 rest lenAt).toNat then some (.error .truncated)
      else some (.ok (make (slice rest 0 headerSize) (slice rest headerSize (word32 rest lenAt).toNat),
        front.length + (headerSize + (word32 rest lenAt).toNat))) := by
  unfold readSized
  rw [if_neg (not_not.mpr (by rw [List.length_append]; omega))]
  by_cases short : rest.length < headerSize
  · rw [if_pos (by rw [List.length_append]; omega), if_pos (by omega)]
  · rw [if_neg (by rw [List.length_append]; omega)]
    have header : part (front ++ rest) front.length (front.length + headerSize) =
        some (slice rest 0 headerSize) :=
      (part_shift front rest 0 headerSize).trans (part_some ⟨Nat.zero_le _, Nat.not_lt.mp short⟩)
    rw [header]
    dsimp only [Option.bind_eq_bind, Option.bind_some]
    rw [word32_slice rest 0 headerSize lenAt inside, Nat.zero_add]
    by_cases cut : rest.length < headerSize + (word32 rest lenAt).toNat
    · rw [if_pos (by rw [List.length_append]; omega), if_pos cut]
    · rw [if_neg (by rw [List.length_append]; omega), if_neg cut, Nat.add_assoc, part_shift,
        part_some ⟨Nat.le_add_right .., Nat.not_lt.mp cut⟩, Nat.add_sub_cancel_left]
      rfl

theorem readSized_exact {φ : Type} {Frame : φ → Prop} {value : φ → α} (head body : φ → Bytes)
    (inside : lenAt + 4 ≤ headerSize) (sized : ∀ f, Frame f → (head f).length = headerSize)
    (counts : ∀ f, Frame f → (word32 (head f) lenAt).toNat = (body f).length)
    (makes : ∀ f, Frame f → make (head f) (body f) = value f)
    (onto : ∀ h b : Bytes, h.length = headerSize → (word32 h lenAt).toNat = b.length →
      ∃ f, Frame f ∧ head f = h ∧ body f = b) :
    Exact (readSized headerSize lenAt make) Frame value (fun f => head f ++ body f) where
  total front rest := by
    rw [readSized_at front rest inside]
    split <;> exact ⟨_, rfl⟩
  sound front rest a stop done := by
    rw [readSized_at front rest inside] at done
    split at done
    · exact nomatch done
    rename_i whole
    cases done
    have room := Nat.not_lt.mp whole
    have bodied := slice_length rest headerSize (word32 rest lenAt).toNat room
    have headed := slice_length rest 0 headerSize (by omega)
    obtain ⟨f, framed, isHead, isBody⟩ := onto (slice rest 0 headerSize) _ headed (by
      rw [word32_slice rest 0 headerSize lenAt inside, Nat.zero_add]
      exact bodied.symm)
    refine ⟨f, rest.drop (headerSize + (word32 rest lenAt).toNat), framed,
      by rw [← makes f framed, isHead, isBody], ?_, ?_⟩
    · rw [isHead, isBody, List.append_assoc, ← drop_eq_slice_append]
      have whole := drop_eq_slice_append rest 0 headerSize
      rwa [Nat.zero_add] at whole
    · rw [isHead, isBody, List.length_append, List.length_append, headed, bodied]
  complete f front more framed := by
    have counted := counts f framed
    have whole := sized f framed
    have same : word32 (head f ++ body f ++ more) lenAt = word32 (head f) lenAt := by
      rw [List.append_assoc]
      exact word32_left _ _ (by rw [whole]; exact inside)
    have bodied : slice (head f ++ body f ++ more) headerSize (word32 (head f) lenAt).toNat =
      body f := by
      rw [counted, ← whole, List.append_assoc]
      exact slice_append ..
    have headed : slice (head f ++ body f ++ more) 0 headerSize = head f := by
      rw [← whole, List.append_assoc]
      exact slice_append [] ..
    rw [readSized_at front _ inside, same, bodied, headed, counted, makes f framed, if_neg]
    · rw [List.length_append, List.length_append, whole]
    · rw [List.length_append, List.length_append, whole]
      omega

end Sized

section Headers

variable {h : Bytes}

theorem inodeRecHeader_length (nodeid nlookup : UInt64) (pathLen pad : UInt32) :
    (inodeRecHeader nodeid nlookup pathLen pad).length = inodeRecHeaderSize := by
  simp only [inodeRecHeader, List.length_append, le64_length, le32_length]
  rfl

theorem inodeRecHeader_words (whole : h.length = inodeRecHeaderSize) :
    inodeRecHeader (word64 h 0) (word64 h 8) (word32 h 16) (word32 h 20) = h := by
  have size : h.length = 24 := whole
  unfold inodeRecHeader
  rw [le64_word64 (by omega), le64_word64 (by omega), le32_word32 (by omega), le32_word32 (by omega)]
  have last : h.drop 24 = [] := List.drop_of_length_le (by omega)
  have split := drop_eq_slice_append h
  conv_rhs => rw [← List.drop_zero (l := h), split 0 8, split 8 8, split 16 4, split 20 4, last]
  rw [List.append_nil]

theorem handleRecHeader_length {pad : Bytes} (padding : pad.length = 3) (handleId nodeid : UInt64)
    (openFlags : UInt32) (kind : UInt8) (entryCount pad2 : UInt32) :
    (handleRecHeader handleId nodeid openFlags kind pad entryCount pad2).length =
      handleRecHeaderSize := by
  simp only [handleRecHeader, List.length_append, List.length_cons, le64_length, le32_length, padding]
  rfl

theorem handleRecHeader_words {kind : UInt8} (whole : h.length = handleRecHeaderSize)
    (byte : h[20]? = some kind) :
    handleRecHeader (word64 h 0) (word64 h 8) (word32 h 16) kind (slice h 21 3) (word32 h 24)
      (word32 h 28) = h := by
  have size : h.length = 32 := whole
  unfold handleRecHeader
  rw [le64_word64 (by omega), le64_word64 (by omega), le32_word32 (by omega), le32_word32 (by omega),
    le32_word32 (by omega)]
  have last : h.drop 32 = [] := List.drop_of_length_le (by omega)
  have split := drop_eq_slice_append h
  have single : h.drop 20 = kind :: h.drop 21 := by
    obtain ⟨inside, rfl⟩ := List.getElem?_eq_some_iff.mp byte
    exact List.drop_eq_getElem_cons inside
  conv_rhs => rw [← List.drop_zero (l := h), split 0 8, split 8 8, split 16 4, single, split 21 3,
    split 24 4, split 28 4, last]
  rw [List.append_nil]
  rfl

theorem header_length {pad : Bytes} (padding : pad.length = 3) (modeRw : UInt8)
    (nextInode nextHandle : UInt64) (inodeCount handleCount : UInt32) :
    (header modeRw pad nextInode nextHandle inodeCount handleCount).length = stateHeaderSize := by
  simp only [header, List.length_append, List.length_cons, le64_length, le32_length, padding]
  rfl

theorem header_words {modeRw : UInt8} (whole : h.length = stateHeaderSize) (byte : h[4]? = some modeRw)
    (magic : word32 h 0 = .ofNat stateMagic) :
    header modeRw (slice h 5 3) (word64 h 8) (word64 h 16) (word32 h 24) (word32 h 28) = h := by
  have size : h.length = 32 := whole
  unfold header
  rw [← magic, le64_word64 (by omega), le64_word64 (by omega), le32_word32 (by omega),
    le32_word32 (by omega), le32_word32 (by omega)]
  have last : h.drop 32 = [] := List.drop_of_length_le (by omega)
  have split := drop_eq_slice_append h
  have single : h.drop 4 = modeRw :: h.drop 5 := by
    obtain ⟨inside, rfl⟩ := List.getElem?_eq_some_iff.mp byte
    exact List.drop_eq_getElem_cons inside
  conv_rhs => rw [← List.drop_zero (l := h), split 0 4, single, split 5 3, split 8 8, split 16 8,
    split 24 4, split 28 4, last]
  rw [List.append_nil]
  rfl

/-- A word that stands at the end of a header. -/
theorem word32_last (front : Bytes) (x : UInt32) : word32 (front ++ le32 x) front.length = x := by
  have read := word32_append front x []
  rwa [List.append_nil] at read

theorem word32_first (x : UInt32) (rest : Bytes) : word32 (le32 x ++ rest) 0 = x :=
  word32_append [] x rest

theorem word64_first (x : UInt64) (rest : Bytes) : word64 (le64 x ++ rest) 0 = x :=
  word64_append [] x rest

theorem inodeRecHeader_read (nodeid nlookup : UInt64) (pathLen pad : UInt32) :
    word64 (inodeRecHeader nodeid nlookup pathLen pad) 0 = nodeid ∧
      word64 (inodeRecHeader nodeid nlookup pathLen pad) 8 = nlookup ∧
      word32 (inodeRecHeader nodeid nlookup pathLen pad) 16 = pathLen := by
  unfold inodeRecHeader
  refine ⟨word64_first .., ?_, ?_⟩
  · simpa only [le64_length] using word64_append (le64 nodeid) nlookup (le32 pathLen ++ le32 pad)
  · simpa only [List.append_assoc, List.length_append, le64_length] using
      word32_append (le64 nodeid ++ le64 nlookup) pathLen (le32 pad)

theorem handleRecHeader_read {pad : Bytes} (padding : pad.length = 3) (handleId nodeid : UInt64)
    (openFlags : UInt32) (kind : UInt8) (entryCount pad2 : UInt32) (hh : Bytes)
    (is : handleRecHeader handleId nodeid openFlags kind pad entryCount pad2 = hh) :
    word64 hh 0 = handleId ∧ word64 hh 8 = nodeid ∧ word32 hh 16 = openFlags ∧ hh[20]? = some kind ∧
      word32 hh 24 = entryCount := by
  subst is
  unfold handleRecHeader
  have front : (le64 handleId ++ (le64 nodeid ++ le32 openFlags)).length = 20 := by
    simp only [List.length_append, le64_length, le32_length]
  refine ⟨word64_first .., ?_, ?_, ?_, ?_⟩
  · simpa only [le64_length] using word64_append (le64 handleId) nodeid _
  · simpa only [List.append_assoc, List.length_append, le64_length] using
      word32_append (le64 handleId ++ le64 nodeid) openFlags _
  · have found : (le64 handleId ++ (le64 nodeid ++ le32 openFlags) ++ (kind :: pad ++ (le32 entryCount ++
        le32 pad2)))[20]? = some kind := by
      rw [List.getElem?_append_right (Nat.le_of_eq front), front]
      rfl
    simpa only [List.append_assoc] using found
  · simpa only [List.append_assoc, List.length_append, List.length_cons, le64_length, le32_length,
      padding] using word32_append (le64 handleId ++ (le64 nodeid ++ (le32 openFlags ++ (kind :: pad))))
        entryCount (le32 pad2)

theorem header_read {pad : Bytes} (padding : pad.length = 3) (modeRw : UInt8)
    (nextInode nextHandle : UInt64) (inodeCount handleCount : UInt32) (hdr : Bytes)
    (is : header modeRw pad nextInode nextHandle inodeCount handleCount = hdr) :
    word32 hdr 0 = .ofNat stateMagic ∧ hdr[4]? = some modeRw ∧ word64 hdr 8 = nextInode ∧
      word64 hdr 16 = nextHandle ∧ word32 hdr 24 = inodeCount ∧ word32 hdr 28 = handleCount := by
  subst is
  unfold header
  have front : (le32 (.ofNat stateMagic)).length = 4 := le32_length _
  generalize UInt32.ofNat stateMagic = magic at front ⊢
  refine ⟨word32_first .., ?_, ?_, ?_, ?_, ?_⟩
  · rw [List.getElem?_append_right (Nat.le_of_eq front), front]
    rfl
  · simpa only [List.append_assoc, List.length_append, List.length_cons, front, padding] using
      word64_append (le32 magic ++ (modeRw :: pad)) nextInode _
  · simpa only [List.append_assoc, List.length_append, List.length_cons, le64_length, front,
      padding] using word64_append (le32 magic ++ (modeRw :: pad ++ le64 nextInode)) nextHandle _
  · simpa only [List.append_assoc, List.length_append, List.length_cons, le64_length, front,
      padding] using
      word32_append (le32 magic ++ (modeRw :: pad ++ (le64 nextInode ++ le64 nextHandle))) inodeCount _
  · simpa only [List.append_assoc, List.length_append, List.length_cons, le64_length, le32_length, front,
      padding] using word32_last (le32 magic ++ (modeRw :: pad ++ (le64 nextInode ++ (le64 nextHandle ++
        le32 inodeCount)))) handleCount

end Headers

/-- An inode record with the padding of its header. -/
structure InodeFrame where
  record : InodeRec
  pad : UInt32

namespace InodeFrame

def Fits (f : InodeFrame) : Prop := f.record.path.length < 2 ^ 32

def head (f : InodeFrame) : Bytes :=
  inodeRecHeader f.record.nodeid f.record.nlookup (.ofNat f.record.path.length) f.pad

def bytes (f : InodeFrame) : Bytes := f.head ++ f.record.path

end InodeFrame

/-- A handle record with the padding of its header. -/
structure HandleFrame where
  record : HandleRec
  pad : Bytes
  pad2 : UInt32
  padding : pad.length = 3

namespace HandleFrame

def Fits (f : HandleFrame) : Prop :=
  f.record.dirEntries.length < 2 ^ 32 ∧ ∀ entry ∈ f.record.dirEntries, entry.length < 2 ^ 32

def head (f : HandleFrame) : Bytes :=
  handleRecHeader f.record.handleId f.record.nodeid f.record.openFlags f.record.kind.byte f.pad
    (.ofNat f.record.dirEntries.length) f.pad2

def bytes (f : HandleFrame) : Bytes := f.head ++ f.record.dirEntries.flatMap entryBytes

end HandleFrame

theorem count_back {n : Nat} (small : n < 2 ^ 32) : (UInt32.ofNat n).toNat = n :=
  UInt32.toNat_ofNat_of_lt' small

theorem readInode_exact : Exact readInode InodeFrame.Fits InodeFrame.record InodeFrame.bytes := by
  refine readSized_exact InodeFrame.head (fun f => f.record.path) (by decide)
    (fun f _ => inodeRecHeader_length ..) ?_ ?_ ?_
  · intro f fits
    rw [InodeFrame.head, (inodeRecHeader_read ..).2.2, count_back fits]
  · intro f _
    obtain ⟨nodeid, nlookup, -⟩ := inodeRecHeader_read f.record.nodeid f.record.nlookup
      (.ofNat f.record.path.length) f.pad
    rw [InodeFrame.head, nodeid, nlookup]
  · intro h b whole counted
    refine ⟨⟨⟨word64 h 0, word64 h 8, b⟩, word32 h 20⟩, ?_, ?_, rfl⟩
    · show b.length < 2 ^ 32
      rw [← counted]
      exact UInt32.toNat_lt _
    · show inodeRecHeader (word64 h 0) (word64 h 8) (.ofNat b.length) (word32 h 20) = h
      rw [← counted, UInt32.ofNat_toNat, inodeRecHeader_words whole]

theorem readEntry_exact : Exact readEntry (fun entry => entry.length < 2 ^ 32) id entryBytes := by
  have counts (entry : Bytes) : word32 (le32 (.ofNat entry.length)) 0 = .ofNat entry.length :=
    word32_last [] _
  refine readSized_exact (fun entry : Bytes => le32 (.ofNat entry.length)) id (by decide)
    (fun _ _ => le32_length _) ?_ (fun _ _ => rfl) ?_
  · intro entry small
    rw [counts, count_back small]
    rfl
  · intro h b whole counted
    have same : slice h 0 4 = h := by
      rw [← whole]
      exact List.take_length
    refine ⟨b, ?_, ?_, rfl⟩
    · show b.length < 2 ^ 32
      rw [← counted]
      exact UInt32.toNat_lt _
    · show le32 (.ofNat b.length) = h
      rw [← counted, UInt32.ofNat_toNat, le32_word32 (Nat.le_of_eq whole.symm), same]

/-- The entries of a record, after its header was read. -/
def readEntries (hh : Bytes) (kind : UInt8) (payload : Bytes) (off : Nat) :
    Option (Except DecodeError (HandleRec × Nat)) :=
  andThen (many readEntry (word32 hh 24).toNat payload off) fun (entries, off) =>
    some (.ok (⟨word64 hh 0, word64 hh 8, word32 hh 16, if kind = Kind.file.byte then .file else .dir,
      entries⟩, off))

theorem readHandle_short {front rest : Bytes} (short : rest.length < handleRecHeaderSize) :
    readHandle (front ++ rest) front.length = some (.error .truncated) := by
  unfold readHandle
  rw [if_neg (not_not.mpr (by rw [List.length_append]; omega)),
    if_pos (by rw [List.length_append]; omega)]

theorem readHandle_long (front : Bytes) {hh : Bytes} (rest : Bytes) {kind : UInt8}
    (whole : hh.length = handleRecHeaderSize) (byte : hh[20]? = some kind) :
    readHandle (front ++ (hh ++ rest)) front.length =
      if kind > Kind.dir.byte then some (.error .badKind)
      else if (word32 hh 24).toNat * 4 > rest.length then some (.error .truncated)
      else readEntries hh kind (front ++ hh ++ rest) (front ++ hh).length := by
  have header : part (front ++ (hh ++ rest)) front.length (front.length + handleRecHeaderSize) =
    some hh := by
    have shifted := part_shift front (hh ++ rest) 0 handleRecHeaderSize
    rw [Nat.add_zero] at shifted
    rw [shifted, part_some ⟨Nat.zero_le _, by rw [List.length_append]; omega⟩, Nat.sub_zero, ← whole]
    exact congrArg some (slice_append [] hh rest)
  unfold readHandle
  rw [if_neg (not_not.mpr (by rw [List.length_append]; omega)),
    if_neg (by rw [List.length_append, List.length_append]; omega), header]
  dsimp only [Option.bind_eq_bind, Option.bind_some]
  rw [byte]
  dsimp only [Option.bind_some]
  split
  · rfl
  · rw [← List.append_assoc, List.length_append, @List.length_append _ front, whole]
    by_cases room : (word32 hh 24).toNat * 4 > rest.length
    · rw [if_pos (by omega), if_pos room]
    · rw [if_neg (by omega), if_neg room]
      rfl

theorem kind_back {kind : UInt8} (known : ¬ kind > Kind.dir.byte) :
    (if kind = Kind.file.byte then Kind.file else .dir).byte = kind := by
  split
  · rename_i file
    exact file.symm
  · rename_i other
    have below : kind.toNat ≤ 1 := Nat.not_lt.mp known
    have above : kind.toNat ≠ 0 := fun zero => other (UInt8.toNat_inj.mp zero)
    exact UInt8.toNat_inj.mp (show 1 = kind.toNat by omega)

theorem byte_known (kind : Kind) : ¬ kind.byte > Kind.dir.byte := by
  cases kind <;> decide

theorem kind_forth (kind : Kind) :
    (if kind.byte = Kind.file.byte then Kind.file else .dir) = kind := by
  cases kind <;> rfl

theorem readHandle_exact : Exact readHandle HandleFrame.Fits HandleFrame.record HandleFrame.bytes := by
  have entries (count : Nat) := readEntry_exact.many count
  have headed (rest : Bytes) (long : ¬ rest.length < handleRecHeaderSize) : ∃ hh more kind,
      rest = hh ++ more ∧ hh.length = handleRecHeaderSize ∧ hh[20]? = some kind := by
    have whole : (rest.take handleRecHeaderSize).length = handleRecHeaderSize :=
      List.length_take_of_le (Nat.not_lt.mp long)
    exact ⟨_, rest.drop handleRecHeaderSize, _, (List.take_append_drop ..).symm, whole,
      List.getElem?_eq_getElem (by rw [whole]; decide)⟩
  refine ⟨?_, ?_, ?_⟩
  · intro front rest
    by_cases short : rest.length < handleRecHeaderSize
    · exact ⟨_, readHandle_short short⟩
    · obtain ⟨hh, more, kind, rfl, whole, byte⟩ := headed rest short
      rw [readHandle_long front more whole byte]
      split
      · exact ⟨_, rfl⟩
      · split
        · exact ⟨_, rfl⟩
        · exact andThen_total ((entries _).total _ more) fun _ _ => ⟨_, rfl⟩
  · intro front rest a stop done
    by_cases short : rest.length < handleRecHeaderSize
    · rw [readHandle_short short] at done
      exact nomatch done
    · obtain ⟨hh, more, kind, rfl, whole, byte⟩ := headed rest short
      rw [readHandle_long front more whole byte] at done
      split at done
      · exact nomatch done
      rename_i known
      split at done
      · exact nomatch done
      obtain ⟨⟨read, end_⟩, listed, done⟩ := of_andThen done
      cases done
      obtain ⟨found, more', ⟨counted, small⟩, rfl, rfl, rfl⟩ := (entries _).sound _ more read stop listed
      rw [List.map_id]
      refine ⟨⟨⟨_, _, _, _, found⟩, slice hh 21 3, word32 hh 28, ?_⟩, more', ⟨?_, small⟩, rfl, ?_, ?_⟩
      · exact slice_length hh 21 3 (by rw [whole]; decide)
      · show found.length < 2 ^ 32
        rw [counted]
        exact UInt32.toNat_lt _
      all_goals
        simp only [HandleFrame.bytes, HandleFrame.head, kind_back known, counted, UInt32.ofNat_toNat,
          handleRecHeader_words whole byte, List.append_assoc]
  · intro f front more fits
    obtain ⟨handleId, nodeid, openFlags, byte, count⟩ := handleRecHeader_read f.padding f.record.handleId
      f.record.nodeid f.record.openFlags f.record.kind.byte (.ofNat f.record.dirEntries.length) f.pad2
      f.head rfl
    have room : f.record.dirEntries.length * 4 ≤ (f.record.dirEntries.flatMap entryBytes).length :=
      run_room fun entry _ => by rw [entryBytes, List.length_append, le32_length]; omega
    have whole : f.head.length = handleRecHeaderSize := handleRecHeader_length f.padding ..
    rw [HandleFrame.bytes, List.append_assoc, readHandle_long front _ whole byte, if_neg (byte_known _),
      if_neg, readEntries, count, count_back fits.1,
      (entries _).complete f.record.dirEntries _ more ⟨rfl, fits.2⟩, andThen_ok]
    · simp only [handleId, nodeid, openFlags, kind_forth, List.map_id, List.append_assoc]
    · rw [count, count_back fits.1, List.length_append]
      omega

end Machinen.Mount.StateCodec
