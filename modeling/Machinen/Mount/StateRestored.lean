import Machinen.Mount.StateRoundTrip

/-! The decoder by offsets and the one that the restore of a mount is built on read the same records. -/
namespace Machinen.Mount.StateCodec

open Bytes Framing

theorem u32At_eq (xs : Bytes) (off : Nat) : u32At xs off = (word32 xs off).toNat :=
  (UInt32.toNat_ofNat_of_lt' (slice_lt xs off 4)).symm

theorem u64At_eq (xs : Bytes) (off : Nat) : u64At xs off = (word64 xs off).toNat :=
  (UInt64.toNat_ofNat_of_lt' (slice_lt xs off 8)).symm

/-- A loop by offsets gives what a loop over what is left gives. -/
def Follows {α β : Type} (read : Reader DecodeError α) (f : α → β)
    (parse : Bytes → Except DecodeError (β × Bytes)) : Prop :=
  ∀ front rest, ∃ result, read (front ++ rest) front.length = some result ∧
    parse rest = result.map fun (a, stop) => (f a, (front ++ rest).drop stop)

theorem Follows.behind {α β : Type} {read : Reader DecodeError α} {f : α → β}
    {parse : Bytes → Except DecodeError (β × Bytes)} (follows : Follows read f parse) {xs : Bytes} {off : Nat}
    (within : off ≤ xs.length) :
    ∃ result, read xs off = some result ∧
      parse (xs.drop off) = result.map fun (a, stop) => (f a, xs.drop stop) := by
  have behind := follows (xs.take off) (xs.drop off)
  rwa [List.take_append_drop, List.length_take_of_le within] at behind

theorem follows_cons {α β : Type} {read : Reader DecodeError α} {f : α → β} {count : Nat}
    {parse : Bytes → Except DecodeError (β × Bytes)}
    {parses : Bytes → Except DecodeError (List β × Bytes)}
    (one : Follows read f parse) (others : Follows (many read count) (List.map f) parses)
    (whole : ∀ xs off a stop, read xs off = some (.ok (a, stop)) → stop ≤ xs.length) :
    Follows (many read (count + 1)) (List.map f) fun rest =>
      (parse rest).bind fun (b, more) => (parses more).map fun (bs, last) => (b :: bs, last) := by
  intro front rest
  obtain ⟨result, first, parsed⟩ := one front rest
  unfold many
  dsimp only
  rw [first, parsed]
  cases result with
  | error e => exact ⟨.error e, rfl, rfl⟩
  | ok read_ =>
    obtain ⟨a, stop⟩ := read_
    obtain ⟨result', second, parsed'⟩ := others.behind (whole _ _ _ _ first)
    rw [andThen_ok]
    dsimp only [Except.map, bind, Except.bind]
    rw [second, parsed']
    cases result' with
    | error e => exact ⟨.error e, rfl, rfl⟩
    | ok read' => exact ⟨_, rfl, rfl⟩

section Sized

variable {α β : Type} {headerSize lenAt : Nat} {make : Bytes → Bytes → α}

/-- The next sized record of what is left. -/
def nextSized (headerSize lenAt : Nat) (make : Bytes → Bytes → α) (rest : Bytes) :
    Except DecodeError (α × Bytes) :=
  if rest.length < headerSize then .error .truncated
  else if (rest.drop headerSize).length < u32At rest lenAt then .error .truncated
  else .ok (make rest ((rest.drop headerSize).take (u32At rest lenAt)),
    (rest.drop headerSize).drop (u32At rest lenAt))

theorem readSized_follows (inside : lenAt + 4 ≤ headerSize) {f : α → β} {make' : Bytes → Bytes → β}
    (same : ∀ rest body, headerSize ≤ rest.length →
      f (make (slice rest 0 headerSize) body) = make' rest body) :
    Follows (readSized headerSize lenAt make) f (nextSized headerSize lenAt make') := by
  intro front rest
  rw [readSized_at front rest inside, nextSized, u32At_eq, List.length_drop]
  by_cases cut : rest.length < headerSize + (word32 rest lenAt).toNat
  · refine ⟨.error .truncated, if_pos cut, ?_⟩
    split
    · rfl
    · rw [if_pos (by omega)]
      rfl
  · refine ⟨_, if_neg cut, ?_⟩
    rw [if_neg (by omega), if_neg (by omega)]
    dsimp only [Except.map]
    rw [same rest _ (by omega), List.drop_append, List.drop_of_length_le (Nat.le_add_right ..),
      List.nil_append, Nat.add_sub_cancel_left, List.drop_drop]
    rfl

end Sized

theorem stays {α φ : Type} {read : Reader DecodeError α} {Frame : φ → Prop} {value : φ → α}
    {bytes : φ → Bytes} (exact : Exact read Frame value bytes)
    (asserts : ∀ xs off, ¬ off ≤ xs.length → read xs off = none) (xs : Bytes) (off : Nat) (a : α)
    (stop : Nat) (done : read xs off = some (.ok (a, stop))) : stop ≤ xs.length := by
  by_cases within : off ≤ xs.length
  · exact (exact.stops within done).2
  · rw [asserts xs off within] at done
    exact nomatch done

theorem follows_both {α α' β β' : Type} {read : Reader DecodeError α} {read' : Reader DecodeError α'}
    {f : α → β} {f' : α' → β'} {parse : Bytes → Except DecodeError (β × Bytes)}
    {parse' : Bytes → Except DecodeError (β' × Bytes)} (one : Follows read f parse)
    (other : Follows read' f' parse')
    (whole : ∀ xs off a stop, off ≤ xs.length → read xs off = some (.ok (a, stop)) → stop ≤ xs.length) :
    Follows (both read read') (Prod.map f f') fun rest =>
      (parse rest).bind fun (b, more) => (parse' more).map fun (b', last) => ((b, b'), last) := by
  intro front rest
  obtain ⟨result, first, parsed⟩ := one front rest
  unfold both
  dsimp only
  rw [first, parsed]
  cases result with
  | error e => exact ⟨.error e, rfl, rfl⟩
  | ok done =>
    obtain ⟨a, stop⟩ := done
    have within : stop ≤ (front ++ rest).length := whole _ _ _ _ (by rw [List.length_append]; omega) first
    obtain ⟨result', second, parsed'⟩ := other.behind within
    rw [andThen_ok]
    dsimp only [Except.map, bind, Except.bind]
    rw [second, parsed']
    cases result' with
    | error e => exact ⟨.error e, rfl, rfl⟩
    | ok done' => exact ⟨_, rfl, rfl⟩

theorem many_nil_follows {α β : Type} (read : Reader DecodeError α) (f : α → β) :
    Follows (many read 0) (List.map f) fun rest => .ok ([], rest) :=
  fun _ _ => ⟨_, rfl, congrArg (fun last => Except.ok ([], last)) List.drop_left.symm⟩

def InodeRec.restored (record : InodeRec) : Mount.InodeRec :=
  ⟨record.nodeid.toNat, record.nlookup.toNat, record.path⟩

def HandleRec.restored (record : HandleRec) : Mount.HandleRec :=
  match record.kind with
  | .file => .file record.handleId.toNat record.nodeid.toNat record.openFlags.toNat
  | .dir => .dir record.handleId.toNat record.nodeid.toNat record.openFlags.toNat record.dirEntries

def Decoded.restored (d : Decoded) : Mount.Decoded :=
  ⟨d.modeRw, d.nextInode.toNat, d.nextHandle.toNat, d.inodes.map InodeRec.restored,
    d.handles.map HandleRec.restored⟩

theorem decodeInodes_follows (count : Nat) :
    Follows (many readInode count) (List.map InodeRec.restored) (decodeInodes count) := by
  induction count with
  | zero => exact many_nil_follows _ _
  | succ count ih =>
    have one : Follows readInode InodeRec.restored
        (nextSized inodeRecHeaderSize 16 fun rest path => ⟨u64At rest 0, u64At rest 8, path⟩) := by
      refine readSized_follows (by decide) fun rest body _ => ?_
      rw [InodeRec.restored, u64At_eq, u64At_eq]
      dsimp only
      rw [word64_slice rest 0 _ 0 (by decide), word64_slice rest 0 _ 8 (by decide)]
    convert follows_cons one ih (stays readInode_exact fun _ _ outside => if_pos outside) using 1
    funext rest
    rw [decodeInodes]
    unfold nextSized
    dsimp only
    split
    · rfl
    · split
      · rfl
      · dsimp only [Except.bind]
        cases decodeInodes count _ <;> rfl

theorem decodeEntries_follows (count : Nat) :
    Follows (many readEntry count) id (decodeEntries count) := by
  rw [← List.map_id_fun]
  induction count with
  | zero => exact many_nil_follows _ _
  | succ count ih =>
    have one : Follows readEntry id (nextSized 4 0 fun _ entry => entry) :=
      readSized_follows (by decide) fun _ _ _ => rfl
    convert follows_cons one ih (stays readEntry_exact fun _ _ outside => if_pos outside) using 1
    funext rest
    rw [decodeEntries]
    unfold nextSized
    dsimp only
    split
    · rfl
    · split
      · rfl
      · dsimp only [Except.bind]
        cases decodeEntries count _ <;> rfl

theorem word_byte {hh : Bytes} {at_ : Nat} {byte : UInt8} (there : hh[at_]? = some byte) (more : Bytes) :
    toNat (slice (hh ++ more) at_ 1) = byte.toNat := by
  obtain ⟨inside, rfl⟩ := List.getElem?_eq_some_iff.mp there
  rw [slice_left more (by omega), slice, List.drop_eq_getElem_cons inside]
  exact Nat.add_zero _

theorem word64_left {xs : Bytes} (ys : Bytes) (at_ : Nat) (inside : at_ + 8 ≤ xs.length) :
    word64 (xs ++ ys) at_ = word64 xs at_ := by
  unfold word64
  rw [slice_left ys inside]

/-- The next handle of what is left. -/
def nextHandle (rest : Bytes) : Except DecodeError (Mount.HandleRec × Bytes) :=
  let body := rest.drop Mount.handleRecHeaderSize
  if rest.length < Mount.handleRecHeaderSize then .error .truncated
  else if 1 < toNat (slice rest 20 1) then .error .badKind
  else if body.length < u32At rest 24 * 4 then .error .truncated
  else (decodeEntries (u32At rest 24) body).map fun (entries, more) =>
    (if toNat (slice rest 20 1) = 0 then .file (u64At rest 0) (u64At rest 8) (u32At rest 16)
      else .dir (u64At rest 0) (u64At rest 8) (u32At rest 16) entries, more)

theorem readHandle_follows : Follows readHandle HandleRec.restored nextHandle := by
  intro front rest
  by_cases short : rest.length < handleRecHeaderSize
  · exact ⟨_, readHandle_short short, if_pos short⟩
  have whole : (rest.take handleRecHeaderSize).length = handleRecHeaderSize :=
    List.length_take_of_le (Nat.not_lt.mp short)
  have split : rest.take handleRecHeaderSize ++ rest.drop handleRecHeaderSize = rest :=
    List.take_append_drop ..
  obtain ⟨hh, more, is, is'⟩ : ∃ hh more, hh = rest.take handleRecHeaderSize ∧
    more = rest.drop handleRecHeaderSize := ⟨_, _, rfl, rfl⟩
  rw [← is] at whole
  rw [← is, ← is'] at split
  obtain ⟨kind, byte⟩ : ∃ kind, hh[20]? = some kind :=
    ⟨_, List.getElem?_eq_getElem (by rw [whole]; decide)⟩
  have size : hh.length = 32 := whole
  have kindByte : toNat (slice rest 20 1) = kind.toNat := split ▸ word_byte byte more
  have count : u32At rest 24 = (word32 hh 24).toNat := by
    rw [u32At_eq, ← split, word32_left more 24 (by omega)]
  have handleId : u64At rest 0 = (word64 hh 0).toNat := by
    rw [u64At_eq, ← split, word64_left more 0 (by omega)]
  have nodeid : u64At rest 8 = (word64 hh 8).toNat := by
    rw [u64At_eq, ← split, word64_left more 8 (by omega)]
  have openFlags : u32At rest 16 = (word32 hh 16).toNat := by
    rw [u32At_eq, ← split, word32_left more 16 (by omega)]
  unfold nextHandle
  dsimp only
  rw [if_neg short, ← is', kindByte, count, handleId, nodeid, openFlags]
  conv =>
    enter [1, result, 1]
    rw [← split, readHandle_long front more whole byte]
  by_cases unknown : kind > Kind.dir.byte
  · exact ⟨_, if_pos unknown, if_pos unknown⟩
  rw [if_neg unknown, if_neg (show ¬ 1 < kind.toNat from unknown)]
  by_cases room : (word32 hh 24).toNat * 4 > more.length
  · exact ⟨_, if_pos room, if_pos room⟩
  rw [if_neg room, if_neg room]
  obtain ⟨result, listed, parsed⟩ := decodeEntries_follows (word32 hh 24).toNat (front ++ hh) more
  rw [parsed, readEntries, listed]
  cases result with
  | error e => exact ⟨.error e, rfl, rfl⟩
  | ok read =>
    refine ⟨_, rfl, ?_⟩
    dsimp only [Except.map]
    rw [← split, List.append_assoc]
    have zero : kind = Kind.file.byte ↔ kind.toNat = 0 := UInt8.toNat_inj.symm
    by_cases file : kind.toNat = 0
    · rw [if_pos file, if_pos (zero.mpr file)]
      rfl
    · rw [if_neg file, if_neg (mt zero.mp file)]
      rfl

theorem decodeHandles_follows (count : Nat) :
    Follows (many readHandle count) (List.map HandleRec.restored) (decodeHandles count) := by
  induction count with
  | zero => exact many_nil_follows _ _
  | succ count ih =>
    convert follows_cons readHandle_follows ih (stays readHandle_exact fun _ _ outside =>
      if_pos outside) using 1
    funext rest
    rw [decodeHandles]
    unfold nextHandle
    dsimp only
    split
    · rfl
    split
    · rfl
    split
    · rfl
    cases decodeEntries _ _ with
    | error e => rfl
    | ok read =>
      dsimp only [Except.bind, Except.map]
      cases decodeHandles count _ <;> rfl

theorem readRecords_follows (inodeCount handleCount : Nat) :
    Follows (readRecords inodeCount handleCount)
      (Prod.map (List.map InodeRec.restored) (List.map HandleRec.restored)) fun rest =>
        (decodeInodes inodeCount rest).bind fun (inodes, more) =>
          (decodeHandles handleCount more).map fun (handles, last) => ((inodes, handles), last) :=
  follows_both (decodeInodes_follows inodeCount) (decodeHandles_follows handleCount)
    fun _ _ _ _ within done => ((readInode_exact.many inodeCount).stops within done).2

theorem decodeState_eq {payload : Bytes} {result : Except DecodeError Decoded}
    (read : decode payload = some result) : decodeState payload = result.map Decoded.restored := by
  by_cases short : payload.length < stateHeaderSize
  · rw [decode_short short] at read
    cases read
    exact if_pos short
  obtain ⟨hdr, rest, modeRw, rfl, whole, byte⟩ := decode_header payload short
  have size : hdr.length = 32 := whole
  have drop : (hdr ++ rest).drop stateHeaderSize = rest := List.drop_left' whole
  rw [decode_long rest whole byte] at read
  unfold decodeState
  have word (at_ : Nat) (inside : at_ + 4 ≤ 32) : word32 (hdr ++ rest) at_ = word32 hdr at_ :=
    word32_left rest at_ (by omega)
  have words (at_ : Nat) (inside : at_ + 8 ≤ 32) : word64 (hdr ++ rest) at_ = word64 hdr at_ :=
    word64_left rest at_ (by omega)
  simp only [u32At_eq, u64At_eq, word 0 (by decide), word 24 (by decide), word 28 (by decide),
    words 8 (by decide), words 16 (by decide), word_byte byte rest, drop]
  rw [if_neg short]
  have magic : (word32 hdr 0).toNat ≠ stateMagic ↔ word32 hdr 0 ≠ .ofNat stateMagic := by
    rw [not_iff_not, ← UInt32.toNat_inj, count_back (by decide)]
  by_cases bad : word32 hdr 0 ≠ .ofNat stateMagic
  · rw [if_pos bad] at read
    cases read
    exact if_pos (magic.mpr bad)
  rw [if_neg bad] at read
  rw [if_neg (mt magic.mp bad)]
  by_cases room : (word32 hdr 24).toNat * inodeRecHeaderSize + (word32 hdr
    28).toNat * handleRecHeaderSize > rest.length
  · rw [if_pos room] at read
    cases read
    exact if_pos (by rw [List.length_append]; omega)
  rw [if_neg room] at read
  rw [if_neg (by rw [List.length_append]; omega)]
  obtain ⟨records, found, parsed⟩ := readRecords_follows (word32 hdr 24).toNat (word32 hdr 28).toNat hdr
    rest
  have mode : decide (modeRw.toNat ≠ 0) = (modeRw != 0) := by
    rw [Bool.eq_iff_iff, decide_eq_true_iff, bne_iff_ne]
    exact not_congr (UInt8.toNat_inj (b := 0))
  calc
    _ = ((decodeInodes (word32 hdr 24).toNat rest).bind fun (inodes, more) =>
          (decodeHandles (word32 hdr 28).toNat more).map fun (handles, last) =>
            ((inodes, handles), last)).map
          fun ((inodes, handles), _) => (⟨decide (modeRw.toNat ≠ 0), (word64 hdr 8).toNat,
            (word64 hdr 16).toNat, inodes, handles⟩ : Mount.Decoded) := by
      cases decodeInodes (word32 hdr 24).toNat rest with
      | error e => rfl
      | ok done =>
        dsimp only [Except.bind]
        cases decodeHandles (word32 hdr 28).toNat done.2 <;> rfl
    _ = result.map Decoded.restored := by
      rw [show (decodeInodes _ rest).bind _ = _ from parsed, mode]
      rw [decodeBody, found] at read
      cases records with
      | error e =>
        cases read
        rfl
      | ok done =>
        have kept := ((readRecords_exact ..).stops (by rw [List.length_append]; omega) found).2
        rw [andThen_ok] at read
        dsimp only at read
        rw [if_pos kept] at read
        cases read
        rfl

end Machinen.Mount.StateCodec
