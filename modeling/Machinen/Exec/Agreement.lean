import Machinen.Exec.Wire
import Mathlib.Data.List.TakeWhile

/-! Both ends of the wire agree. What the agent frames reaches the host whatever the data
events are; what the host writes is parsed by the agent as it was meant, within the limits
of the agent. -/
namespace Machinen.Exec.Wire

def payloads (stream : Stream) (chunks : List (Stream × Bytes)) : Bytes :=
  chunks.flatMap fun chunk => if chunk.1 = stream then chunk.2 else []

theorem ascii_self {line : Bytes} (low : ∀ byte ∈ line, byte.toNat < 0x80) : ascii line = line := by
  refine (List.map_congr_left fun byte listed => ?_).trans (List.map_id line)
  apply UInt8.toNat_inj.mp
  have masked : byte.toNat &&& 0x7f = byte.toNat % 2 ^ 7 := Nat.and_two_pow_sub_one_eq_mod byte.toNat 7
  rw [UInt8.toNat_and, show (0x7f : UInt8).toNat = 0x7f from rfl, masked]
  exact Nat.mod_eq_of_lt (low byte listed)

theorem fields_pair {tag : UInt8} (low : tag.toNat < 0x80) (apart : tag ≠ space) (n : Nat) :
    fields (ascii ([tag, space] ++ Decimal.encode n)) = ([tag], some (Decimal.encode n)) := by
  have plain : ascii ([tag, space] ++ Decimal.encode n) = [tag, space] ++ Decimal.encode n := by
    refine ascii_self fun byte listed => ?_
    rcases List.mem_append.mp listed with front | digit
    · rcases List.mem_cons.mp front with rfl | front
      · exact low
      · exact List.mem_singleton.mp front ▸ by decide
    · have bounds := Decimal.encode_digits n byte digit
      simp only [Decimal.isDigit, Bool.and_eq_true, decide_eq_true_eq, UInt8.le_iff_toNat_le] at bounds
      exact Nat.lt_of_le_of_lt bounds.2 (by decide)
  rw [plain]
  have free := Decimal.encode_free (show Decimal.isDigit space = false by decide) n
  have whole : (Decimal.encode n).takeWhile (· ≠ space) = Decimal.encode n :=
    List.takeWhile_eq_self_iff.mpr fun digit listed => decide_eq_true (free digit listed)
  unfold fields
  simp only [List.cons_append, List.nil_append, List.takeWhile_cons, List.dropWhile_cons,
    decide_eq_true apart, ne_eq, not_true, decide_false, if_true]
  exact Prod.ext rfl (congrArg some whole)

theorem parseHeaderLine_payload {tags : List Stream} {stream : Stream} (listed : stream ∈ tags) (n : Nat) :
    parseHeaderLine tags ([tagByte stream, space] ++ Decimal.encode n) = .ok (.payload stream n) := by
  have apart : tagByte stream ≠ space := by cases stream <;> decide
  have notExit : [tagByte stream] ≠ [(0x58 : UInt8)] := by cases stream <;> decide
  have found : tags.find? (fun other => decide ([tagByte stream] = [tagByte other])) = some stream := by
    have present : (tags.find? fun other => decide ([tagByte stream] = [tagByte other])).isSome = true :=
      List.find?_isSome.mpr ⟨stream, listed, decide_eq_true rfl⟩
    obtain ⟨other, found⟩ := Option.isSome_iff_exists.mp present
    have matches_ := List.find?_some found
    have same : [tagByte stream] = [tagByte other] := of_decide_eq_true matches_
    have equal : other = stream := by cases stream <;> cases other <;> first | rfl | exact nomatch same
    rw [found, equal]
  have low : (tagByte stream).toNat < 0x80 := by cases stream <;> decide
  unfold parseHeaderLine
  rw [fields_pair low apart]
  dsimp only
  rw [if_neg notExit, found]
  unfold parseFrameLength
  rw [Option.getD_some, Decimal.leading_encode]
  rfl

theorem parseHeaderLine_exit (tags : List Stream) (code : Nat) :
    parseHeaderLine tags ([0x58, space] ++ Decimal.encode code) = .ok (.exit (some code)) := by
  unfold parseHeaderLine
  rw [fields_pair (by decide) (by decide)]
  dsimp only
  rw [if_pos rfl, Option.getD_some, Decimal.leading_encode]

theorem line_unique {line other rest more : Bytes} (plain : newline ∉ line) (free : newline ∉ other)
    (same : line ++ newline :: rest = other ++ newline :: more) : line = other ∧ rest = more := by
  induction line generalizing other with
  | nil =>
    cases other with
    | nil => exact ⟨rfl, (List.cons.inj same).2⟩
    | cons byte other => exact absurd ((List.cons.inj same).1 ▸ List.mem_cons_self) free
  | cons byte line ih =>
    cases other with
    | nil => exact absurd ((List.cons.inj same).1 ▸ List.mem_cons_self) plain
    | cons byte' other =>
      obtain ⟨first, tail⟩ := List.cons.inj same
      obtain ⟨lines, rests⟩ := ih (fun listed => plain (List.mem_cons_of_mem _ listed))
        (fun listed => free (List.mem_cons_of_mem _ listed)) tail
      exact ⟨by rw [first, lines], rests⟩

theorem readHeader_none {p : Parser} (none_ : p.readHeader = none) : newline ∉ p.buf := by
  unfold Parser.readHeader at none_
  split at none_
  · rename_i empty
    intro listed
    have all := List.dropWhile_eq_nil_iff.mp empty newline listed
    exact absurd rfl (of_decide_eq_true all)
  · cases none_

theorem readHeader_some {p q : Parser} {line : Bytes} (some_ : p.readHeader = some (line, q)) :
    newline ∉ line ∧ ∃ rest, p.buf = line ++ newline :: rest ∧ q = { p with buf := rest } := by
  unfold Parser.readHeader at some_
  split at some_
  · cases some_
  · rename_i byte rest found
    obtain ⟨rfl, rfl⟩ := Prod.mk.inj (Option.some.inj some_)
    refine ⟨fun listed => ?_, rest, ?_, rfl⟩
    · have other := List.mem_takeWhile_imp listed
      exact absurd rfl (of_decide_eq_true other)
    · have stops := List.head?_dropWhile_not (fun byte => decide (byte ≠ newline)) p.buf
      rw [found] at stops
      have same : byte = newline := by simpa using stops
      subst same
      rw [← found, List.takeWhile_append_dropWhile]

/-- A parser between two frames, or inside a payload of which a piece is still to come. -/
structure Tracks (tags : List Stream) (total : Stream → Bytes) (code : Nat) (p : Parser) (rest : Bytes) :
    Prop where
  running : p.exitCode = none
  pending : ∃ piece stream chunks, p.awaitingBytes = piece.length ∧
    (piece ≠ [] → p.payloadTag = some stream) ∧
    (∀ chunk ∈ chunks, chunk.1 ∈ tags) ∧ p.buf ++ rest = piece ++ framed chunks code ∧
    ∀ other, p.delivered other ++ (if other = stream then piece else []) ++ payloads other chunks =
      total other

/-- A parser that has seen the exit frame. -/
structure Exited (total : Stream → Bytes) (code : Nat) (p : Parser) (rest : Bytes) : Prop where
  exitCode : p.exitCode = some (some (code : Int))
  delivered : p.delivered = total
  idle : p.awaitingBytes = 0
  drained : p.buf = [] ∧ rest = []

theorem framed_cons (chunk : Stream × Bytes) (chunks : List (Stream × Bytes)) (code : Nat) :
    framed (chunk :: chunks) code = ([tagByte chunk.1, space] ++ Decimal.encode chunk.2.length) ++
      newline :: (chunk.2 ++ framed chunks code) := by
  simp only [framed, sendFrame, List.flatMap_cons, List.append_assoc, List.cons_append, List.nil_append]

theorem framed_nil (code : Nat) : framed [] code =
    ([0x58, space] ++ Decimal.encode code) ++ newline :: [] := by
  simp only [framed, sendExit, List.flatMap_nil, List.nil_append]

theorem header_plain {tag : UInt8} (apart : tag ≠ newline) (n : Nat) :
    newline ∉ [tag, space] ++ Decimal.encode n := by
  have free := Decimal.encode_free (show Decimal.isDigit newline = false by decide) n
  intro listed
  simp only [List.cons_append, List.nil_append, List.mem_cons] at listed
  rcases listed with rfl | impossible | digit
  · exact apart rfl
  · exact absurd impossible (by decide)
  · exact free newline digit rfl

section Streams

variable {tags : List Stream} {total : Stream → Bytes} {code : Nat} {p : Parser} {rest : Bytes}

theorem tracks_payload (tracks : Tracks tags total code p rest) (awaits : p.awaitingBytes > 0) :
    Tracks tags total code p.consumePayload rest := by
  obtain ⟨piece, stream, chunks, length, tag, listed, bytes, whole⟩ := tracks.pending
  have some_ : piece ≠ [] := by
    rintro rfl
    rw [length] at awaits
    exact absurd awaits (Nat.lt_irrefl 0)
  have tagged := tag some_
  let taken := min p.awaitingBytes p.buf.length
  have front : p.buf.take taken = piece.take taken := by
    have both := congrArg (List.take taken) bytes
    rwa [List.take_append_of_le_length (Nat.min_le_right ..),
      List.take_append_of_le_length (length ▸ Nat.min_le_left ..)] at both
  have back : p.buf.drop taken ++ rest = piece.drop taken ++ framed chunks code := by
    have both := congrArg (List.drop taken) bytes
    rwa [List.drop_append_of_le_length (Nat.min_le_right ..),
      List.drop_append_of_le_length (length ▸ Nat.min_le_left ..)] at both
  refine ⟨tracks.running, piece.drop taken, stream, chunks, ?_, ?_, listed, back, ?_⟩
  · rw [List.length_drop, ← length]
    rfl
  · intro more
    have left : ¬ p.awaitingBytes - taken = 0 := by
      rw [length, ← List.length_drop]
      exact fun none_ => more (List.length_eq_zero_iff.mp none_)
    exact (if_neg left).trans tagged
  · intro other
    rw [← whole other]
    have delivered : p.consumePayload.delivered =
        Function.update p.delivered stream (p.delivered stream ++ piece.take taken) := by
      unfold Parser.consumePayload
      rw [tagged]
      dsimp only
      rw [← front]
    rw [delivered]
    by_cases same : other = stream
    · subst same
      rw [Function.update_self, if_pos rfl, if_pos rfl, List.append_assoc (p.delivered other),
        List.take_append_drop]
    · rw [Function.update_of_ne same, if_neg same, if_neg same]

/-- The line in front of the buffer is the header of the next frame. -/
theorem tracks_header (tracks : Tracks tags total code p rest) (idle : p.awaitingBytes = 0) {line : Bytes}
    {q : Parser} (read : p.readHeader = some (line, q)) :
    (parseHeaderLine tags line = .ok (.exit (some code)) ∧
        Exited total code { q with exitCode := some (some code) } rest) ∨
    ∃ stream length, parseHeaderLine tags line = .ok (.payload stream length) ∧
        Tracks tags total code { q with awaitingBytes := length, payloadTag := some stream } rest := by
  obtain ⟨plain, behind, buffer, rfl⟩ := readHeader_some read
  obtain ⟨piece, stream, chunks, length, -, listed, bytes, whole⟩ := tracks.pending
  have none_ : piece = [] := List.length_eq_zero_iff.mp (length.symm.trans idle)
  subst none_
  rw [buffer, List.nil_append, List.append_assoc, List.cons_append] at bytes
  cases chunks with
  | nil =>
    rw [framed_nil] at bytes
    obtain ⟨rfl, empty⟩ := line_unique plain (header_plain (by decide) code) bytes
    refine .inl ⟨parseHeaderLine_exit tags code, rfl, ?_, idle, List.append_eq_nil_iff.mp empty⟩
    funext other
    have all := whole other
    simpa only [payloads, List.flatMap_nil, List.append_nil, ite_self] using all
  | cons chunk chunks =>
    rw [framed_cons] at bytes
    have apart : tagByte chunk.1 ≠ newline := by cases chunk.1 <;> decide
    obtain ⟨rfl, more⟩ := line_unique plain (header_plain apart chunk.2.length) bytes
    refine .inr ⟨chunk.1, chunk.2.length, parseHeaderLine_payload (listed chunk List.mem_cons_self) _,
      tracks.running,
      chunk.2, chunk.1, chunks, rfl, fun _ => rfl,
      fun other later => listed other (List.mem_cons_of_mem _ later), more,
      fun other => ?_⟩
    rw [← whole other]
    simp only [payloads, List.flatMap_cons, ite_self, List.append_nil, List.append_assoc, eq_comm]

/-- The loop stops when it has seen the exit frame or needs more data. -/
structure Waits (tags : List Stream) (total : Stream → Bytes) (code : Nat) (p : Parser) (rest : Bytes) :
    Prop where
  tracks : Tracks tags total code p rest
  stuck : (p.awaitingBytes > 0 ∧ p.buf = []) ∨ (p.awaitingBytes = 0 ∧ newline ∉ p.buf)

theorem step_tracks (fuel : Nat) (enough : p.buf.length < fuel) (tracks : Tracks tags total code p rest) :
    ∃ q, Parser.step (parseHeaderLine tags) fuel p = .ok q ∧
      (Exited total code q rest ∨ Waits tags total code q rest) := by
  induction fuel generalizing p with
  | zero => exact absurd enough (Nat.not_lt_zero _)
  | succ fuel ih =>
    unfold Parser.step
    by_cases awaits : p.awaitingBytes > 0
    · rw [if_pos awaits]
      by_cases empty : p.buf = []
      · rw [if_pos empty]
        exact ⟨p, rfl, .inr ⟨tracks, .inl ⟨awaits, empty⟩⟩⟩
      · rw [if_neg empty]
        have some_ := List.length_pos_iff.mpr empty
        have shorter : p.consumePayload.buf.length < p.buf.length := by
          change (p.buf.drop (min p.awaitingBytes p.buf.length)).length < p.buf.length
          rw [List.length_drop]
          omega
        exact ih (by omega) (tracks_payload tracks awaits)
    · rw [if_neg awaits]
      have idle : p.awaitingBytes = 0 := Nat.eq_zero_of_not_pos awaits
      cases read : p.readHeader with
      | none => exact ⟨p, rfl, .inr ⟨tracks, .inr ⟨idle, readHeader_none read⟩⟩⟩
      | some header =>
        obtain ⟨line, q⟩ := header
        obtain ⟨-, behind, buffer, same⟩ := readHeader_some read
        have shorter : q.buf.length < p.buf.length := by
          rw [same, buffer, List.length_append, List.length_cons]
          exact Nat.lt_add_left _ (Nat.lt_succ_self _)
        dsimp only
        rcases tracks_header tracks idle read with ⟨parsed, exited⟩ | ⟨stream, length, parsed, next⟩
        · rw [parsed]
          exact ⟨_, rfl, .inl exited⟩
        · rw [parsed]
          exact ih (show q.buf.length < fuel by omega) next

theorem framed_ne_nil (chunks : List (Stream × Bytes)) (code : Nat) : framed chunks code ≠ [] := by
  unfold framed sendExit
  exact List.append_ne_nil_of_right_ne_nil _ nofun

theorem newline_mem_framed (chunks : List (Stream × Bytes)) (code : Nat) : newline ∈ framed chunks code :=
  List.mem_append_right _ (List.mem_append_right _ (List.mem_singleton_self _))

/-- With nothing more to come the exit frame has been seen. -/
theorem waits_more (waits : Waits tags total code p []) : False := by
  obtain ⟨piece, stream, chunks, length, -, -, bytes, -⟩ := waits.tracks.pending
  rw [List.append_nil] at bytes
  rcases waits.stuck with ⟨-, empty⟩ | ⟨idle, plain⟩
  · rw [empty] at bytes
    exact framed_ne_nil chunks code (List.append_eq_nil_iff.mp bytes.symm).2
  · refine plain ?_
    rw [bytes]
    exact List.mem_append_right _ (newline_mem_framed chunks code)

theorem exited_ingest {header : Bytes → Except ExecError Header} {data : Bytes}
    (exited : Exited total code p (data ++ rest)) :
    p.ingest header data = .ok p ∧ Exited total code p rest := by
  obtain ⟨exitCode, delivered, idle, empty, more⟩ := exited
  obtain ⟨rfl, rfl⟩ := List.append_eq_nil_iff.mp more
  refine ⟨?_, exitCode, delivered, idle, empty, rfl⟩
  obtain ⟨buf, awaitingBytes, payloadTag, delivered, exitCode⟩ := p
  cases idle
  cases empty
  rfl

theorem waits_ingest {data : Bytes} (waits : Waits tags total code p (data ++ rest)) :
    ∃ q, p.ingest (parseHeaderLine tags) data = .ok q ∧
      (Exited total code q rest ∨ Waits tags total code q rest) := by
  obtain ⟨piece, stream, chunks, length, tag, listed, bytes, whole⟩ := waits.tracks.pending
  refine step_tracks _ ?_ ⟨waits.tracks.running, piece, stream, chunks, length, tag, listed, ?_, whole⟩
  · rw [List.length_append]
    exact Nat.lt_succ_self _
  · rw [List.append_assoc]
    exact bytes

theorem events_delivered (events : List Bytes)
    (started : Exited total code p events.flatten ∨ Waits tags total code p events.flatten) :
    ∃ q, events.foldlM (Parser.ingest (parseHeaderLine tags)) p = .ok q ∧ Exited total code q [] := by
  induction events generalizing p with
  | nil =>
    rcases started with exited | waits
    · exact ⟨p, rfl, exited⟩
    · exact absurd waits waits_more
  | cons data events ih =>
    rw [List.flatten_cons] at started
    rw [List.foldlM_cons]
    rcases started with exited | waits
    · obtain ⟨same, still⟩ := @exited_ingest _ _ _ _ (parseHeaderLine tags) _ exited
      rw [same]
      exact ih (.inl still)
    · obtain ⟨q, moved, stopped⟩ := waits_ingest waits
      rw [moved]
      exact ih stopped

end Streams

theorem start_waits {tags : List Stream} {chunks : List (Stream × Bytes)} {code : Nat}
    (listed : ∀ chunk ∈ chunks, chunk.1 ∈ tags) :
    Waits tags (fun stream => payloads stream chunks) code {} (framed chunks code) where
  tracks := ⟨rfl, [], .out, chunks, rfl, fun some_ => absurd rfl some_, listed, rfl, fun other => by
    rw [ite_self]
    rfl⟩
  stuck := .inr ⟨rfl, List.not_mem_nil⟩

theorem frames_delivered {tags : List Stream} {chunks : List (Stream × Bytes)} {code : Nat}
    {events : List Bytes}
    (listed : ∀ chunk ∈ chunks, chunk.1 ∈ tags) (split : events.flatten = framed chunks code) :
    ∃ p, events.foldlM (Parser.ingest (parseHeaderLine tags)) {} = .ok p ∧
      p.exitCode = some (some (code : Int)) ∧ ∀ stream, p.delivered stream = payloads stream chunks := by
  obtain ⟨p, delivered, exited⟩ := events_delivered events (.inr (split ▸ start_waits listed))
  exact ⟨p, delivered, exited.exitCode, fun stream => congrFun exited.delivered stream⟩

theorem readLine_line {line : Bytes} (plain : newline ∉ line) (room : Nat) (rest : Bytes) :
    readLine room (line ++ newline :: rest) = if line.length < room then some (line, rest) else none := by
  induction line generalizing room with
  | nil =>
    cases room with
    | zero => rfl
    | succ room => exact if_pos rfl
  | cons byte line ih =>
    cases room with
    | zero => rfl
    | succ room =>
      have other : byte ≠ newline := fun same => plain (same ▸ List.mem_cons_self)
      rw [List.cons_append, readLine, if_neg other, ih fun listed => plain (List.mem_cons_of_mem _ listed)]
      by_cases fits : line.length < room
      · rw [if_pos fits, List.length_cons, if_pos (Nat.add_lt_add_right fits 1)]
        rfl
      · rw [if_neg fits, List.length_cons, if_neg fun longer => fits (Nat.lt_of_add_lt_add_right longer)]
        rfl

theorem readExact_append (bytes rest : Bytes) :
    readExact bytes.length (bytes ++ rest) = some (bytes, rest) := by
  unfold readExact
  rw [if_pos (by rw [List.length_append]; exact Nat.le_add_right ..), List.take_left, List.drop_left]

theorem tokenize_word {word : Bytes} (token : Bytes) (some_ : token ++ word ≠ []) (plain : space ∉ word)
    (rest : Bytes) : tokenize token (word ++ space :: rest) = (token ++ word) :: tokenize [] rest := by
  induction word generalizing token with
  | nil =>
    rw [List.append_nil] at some_
    rw [List.nil_append, tokenize, if_pos rfl, if_neg some_, List.append_nil]
  | cons byte word ih =>
    have other : byte ≠ space := fun same => plain (same ▸ List.mem_cons_self)
    rw [List.cons_append, tokenize, if_neg other,
      ih (token ++ [byte]) (by simp) fun listed => plain (List.mem_cons_of_mem _ listed), List.append_assoc]
    rfl

theorem tokenize_last {word : Bytes} (token : Bytes) (some_ : token ++ word ≠ []) (plain : space ∉ word) :
    tokenize token word = [token ++ word] := by
  induction word generalizing token with
  | nil =>
    rw [List.append_nil] at some_
    rw [tokenize, if_neg some_, List.append_nil]
  | cons byte word ih =>
    have other : byte ≠ space := fun same => plain (same ▸ List.mem_cons_self)
    rw [tokenize, if_neg other, ih (token ++ [byte]) (by simp) fun listed =>
      plain (List.mem_cons_of_mem _ listed), List.append_assoc]
    rfl

theorem encode_plain {byte : UInt8} (other : Decimal.isDigit byte = false) (n : Nat) :
    byte ∉ Decimal.encode n :=
  fun listed => Decimal.encode_free other n byte listed rfl

theorem tokens_number (n : Nat) (rest : Bytes) :
    tokenize [] (Decimal.encode n ++ space :: rest) = Decimal.encode n :: tokenize [] rest :=
  tokenize_word [] (Decimal.encode_ne_nil n) (encode_plain (by decide) n) rest

theorem tokens_last (n : Nat) : tokenize [] (Decimal.encode n) = [Decimal.encode n] :=
  tokenize_last [] (Decimal.encode_ne_nil n) (encode_plain (by decide) n)

namespace HostRequest

/-- What the agent is to be asked for. -/
def meaning : HostRequest → Request
  | .run cmd => .command cmd
  | .reseed seedHex => .reseed seedHex
  | .startPty cols rows cmd none => .pty cols rows cmd
  | .startPty cols rows cmd (some name) => .session cols rows name cmd
  | .killPtySession name => .kill name

/-- The bytes that the shell, or the helper that reseeds, is to get. -/
def payload : HostRequest → Option Bytes
  | .run cmd => some cmd
  | .reseed seedHex => some seedHex
  | .startPty _ _ cmd _ => some cmd
  | .killPtySession _ => none

/-- The limits of the agent. -/
def Fits : HostRequest → Prop
  | .run cmd => cmd.length ≤ maxExec2Cmd ∧ 0 ∉ cmd
  | .reseed seedHex => 1 ≤ seedHex.length ∧ seedHex.length ≤ maxReseedHex ∧ 0 ∉ seedHex
  | .startPty cols rows cmd _ => cols ≤ maxU16 ∧ rows ≤ maxU16 ∧ cmd.length ≤ maxExec2Cmd ∧ 0 ∉ cmd
  | .killPtySession _ => True

end HostRequest

theorem argument_whole (bytes : Bytes) : argument bytes = bytes ↔ 0 ∉ bytes := by
  unfold argument
  rw [List.takeWhile_eq_self_iff]
  constructor
  · intro all listed
    exact absurd rfl (of_decide_eq_true (all 0 listed))
  · intro none_ byte listed
    exact decide_eq_true fun zero => none_ (zero ▸ listed)

theorem handleConnection_line {line : Bytes} (plain : newline ∉ line) (rest : Bytes) :
    handleConnection (line ++ newline :: rest) =
      if line.length < lineBuffer then dispatch line rest else .refused none := by
  unfold handleConnection
  rw [readLine_line plain]
  by_cases fits : line.length < lineBuffer
  · rw [if_pos fits, if_pos fits]
  · rw [if_neg fits, if_neg fits]

theorem bodyOf_encode {refusal : Option Nat} {limit : Nat} (bytes rest : Bytes)
    (use : Bytes → Bytes → Parsed) (word : limit ≤ maxU32) :
    bodyOf refusal limit (Decimal.unsigned maxU32 (Decimal.encode bytes.length)) (bytes ++ rest) use =
      if bytes.length ≤ limit then use bytes rest else .refused refusal := by
  rw [Decimal.unsigned_encode]
  by_cases fits : bytes.length ≤ limit
  · rw [if_pos (Nat.le_trans fits word), if_pos fits]
    unfold bodyOf
    dsimp only
    rw [if_neg (Nat.not_lt.mpr fits), readExact_append]
  · rw [if_neg fits]
    split
    · unfold bodyOf
      dsimp only
      rw [if_pos (Nat.lt_of_not_le fits)]
    · rfl

theorem dispatch_exec (cmd rest : Bytes) :
    dispatch (text "EXEC " ++ cmd) rest = .request (.command cmd) rest := by
  simp [dispatch, text]

theorem dispatch_exec2 (digits rest : Bytes) :
    dispatch (text "EXEC2 " ++ digits) rest = handleExec2 (text "EXEC2 " ++ digits) rest := by
  simp [dispatch, text]

theorem dispatch_reseed (digits rest : Bytes) :
    dispatch (text "RESEED " ++ digits) rest = handleReseed (text "RESEED " ++ digits) rest := by
  simp [dispatch, text]

theorem dispatch_pty (fields_ rest : Bytes) :
    dispatch (text "PTY " ++ fields_) rest = handlePty (text "PTY " ++ fields_) rest := by
  simp [dispatch, text]

theorem dispatch_session (fields_ rest : Bytes) :
    dispatch (text "PTYSESSION " ++ fields_) rest =
      handlePtysession (text "PTYSESSION " ++ fields_) rest := by
  simp [dispatch, text]

theorem dispatch_kill (digits rest : Bytes) :
    dispatch (text "PTYKILL " ++ digits) rest = handlePtykill (text "PTYKILL " ++ digits) rest := by
  simp [dispatch, text]

theorem sized_request {op : Bytes} (plain : newline ∉ op) (short : op.length < 4000) (bytes rest : Bytes)
    {limit : Nat} (word : limit < 10 ^ 10) {request : Request} {accepts : Prop}
    (bounded : accepts → bytes.length ≤ limit)
    (dispatched : dispatch (op ++ Decimal.encode bytes.length) (bytes ++ rest) = .request request rest ↔
      accepts) :
    handleConnection (op ++ Decimal.encode bytes.length ++ [newline] ++ bytes ++ rest) =
      .request request rest ↔ accepts := by
  have free : newline ∉ op ++ Decimal.encode bytes.length := fun listed =>
    (List.mem_append.mp listed).elim plain (encode_plain (by decide) _)
  rw [List.append_assoc _ bytes rest, List.append_assoc _ [newline], List.singleton_append,
    handleConnection_line free]
  by_cases fits : (op ++ Decimal.encode bytes.length).length < lineBuffer
  · rw [if_pos fits]
    exact dispatched
  · rw [if_neg fits]
    refine ⟨nofun, fun accepted => absurd ?_ fits⟩
    have digits := Decimal.encode_length (Nat.lt_of_le_of_lt (bounded accepted) word)
    rw [List.length_append]
    unfold lineBuffer
    omega

theorem exec2_request (cmd rest : Bytes) :
    handleConnection (text "EXEC2 " ++ Decimal.encode cmd.length ++ [newline] ++ cmd ++ rest) =
      .request (.command cmd) rest ↔ cmd.length ≤ maxExec2Cmd := by
  refine sized_request (by decide) (by decide) cmd rest (by decide : maxExec2Cmd < _) id ?_
  rw [dispatch_exec2]
  unfold handleExec2
  rw [show (text "EXEC2 " ++ Decimal.encode cmd.length).drop 6 = Decimal.encode cmd.length from rfl,
    bodyOf_encode _ _ _ (by decide)]
  split
  · exact iff_of_true rfl ‹_›
  · exact iff_of_false nofun ‹_›

theorem kill_request (name rest : Bytes) :
    handleConnection (text "PTYKILL " ++ Decimal.encode name.length ++ [newline] ++ name ++ rest) =
      .request (.kill name) rest ↔ name.length ≤ maxSessionName := by
  refine sized_request (by decide) (by decide) name rest (by decide : maxSessionName < _) id ?_
  rw [dispatch_kill]
  unfold handlePtykill
  rw [show (text "PTYKILL " ++ Decimal.encode name.length).drop 8 = Decimal.encode name.length from rfl,
    bodyOf_encode _ _ _ (by decide)]
  split
  · exact iff_of_true rfl ‹_›
  · exact iff_of_false nofun ‹_›

theorem reseed_request (seedHex rest : Bytes) :
    handleConnection (text "RESEED " ++ Decimal.encode seedHex.length ++ [newline] ++ seedHex ++ rest) =
      .request (.reseed seedHex) rest ↔ 1 ≤ seedHex.length ∧ seedHex.length ≤ maxReseedHex := by
  refine sized_request (by decide) (by decide) seedHex rest (by decide : maxReseedHex < _) And.right ?_
  rw [dispatch_reseed]
  unfold handleReseed
  rw [show (text "RESEED " ++ Decimal.encode seedHex.length).drop 7 =
    Decimal.encode seedHex.length from rfl]
  have body := @bodyOf_encode (some 2) _ seedHex rest (fun seedHex rest => .request (.reseed seedHex) rest)
    (show maxReseedHex ≤ maxU32 by decide)
  split
  · rename_i zero
    refine iff_of_false nofun fun ⟨some_, _⟩ => ?_
    rw [Decimal.unsigned_encode] at zero
    split at zero
    · have none_ := Option.some.inj zero
      omega
    · exact nomatch zero
  · rename_i nonzero
    rw [body]
    by_cases fits : seedHex.length ≤ maxReseedHex
    · rw [if_pos fits]
      refine iff_of_true rfl ⟨?_, fits⟩
      by_contra empty
      refine nonzero ?_
      rw [Decimal.unsigned_encode, if_pos (Nat.le_trans fits (by decide))]
      exact congrArg some (by omega)
    · rw [if_neg fits]
      exact iff_of_false nofun fun both => fits both.2

theorem legacy_request {cmd : Bytes} (plain : newline ∉ cmd) (short : cmd.length ≤ legacyMaxBytes)
    (rest : Bytes) :
    handleConnection (text "EXEC " ++ cmd ++ [newline] ++ rest) = .request (.command cmd) rest := by
  have free : newline ∉ text "EXEC " ++ cmd :=
    fun listed => (List.mem_append.mp listed).elim (by decide) plain
  unfold legacyMaxBytes at short
  rw [List.append_assoc _ [newline], List.singleton_append, handleConnection_line free, if_pos,
    dispatch_exec]
  rw [List.length_append]
  change 5 + cmd.length < 4096
  omega

theorem parsePtyHeader_fields (cols rows length : Nat) :
    parsePtyHeader (text "PTY " ++ (Decimal.encode cols ++
      space :: (Decimal.encode rows ++ space :: Decimal.encode length))) =
      if cols ≤ maxU16 ∧ rows ≤ maxU16 ∧ length ≤ maxExec2Cmd then some ⟨cols, rows, length⟩ else none := by
  have tokens : tokenize [] ((text "PTY " ++
    (Decimal.encode cols ++ space :: (Decimal.encode rows ++ space ::
      Decimal.encode length))).drop 4) = [Decimal.encode cols, Decimal.encode rows,
      Decimal.encode length] := by
    change tokenize [] (Decimal.encode cols ++ _) = _
    rw [tokens_number, tokens_number, tokens_last]
  unfold parsePtyHeader
  rw [tokens]
  dsimp only [Option.bind_eq_bind]
  rw [Decimal.unsigned_encode, Decimal.unsigned_encode, Decimal.unsigned_encode]
  by_cases fits : cols ≤ maxU16 ∧ rows ≤ maxU16 ∧ length ≤ maxExec2Cmd
  · rw [if_pos fits.1, if_pos fits.2.1, if_pos (Nat.le_trans fits.2.2 (by decide)), if_pos fits]
    exact if_neg (Nat.not_lt.mpr fits.2.2)
  · rw [if_neg fits]
    by_cases wide : cols ≤ maxU16
    · by_cases high : rows ≤ maxU16
      · have long : length > maxExec2Cmd := Nat.lt_of_not_le fun short => fits ⟨wide, high, short⟩
        rw [if_pos wide, if_pos high]
        split
        · exact if_pos long
        · rfl
      · rw [if_pos wide, if_neg high]
        rfl
    · rw [if_neg wide]
      rfl

theorem parsePtysessionHeader_fields (cols rows nameLen cmdLen : Nat) :
    parsePtysessionHeader (text "PTYSESSION " ++
      (Decimal.encode cols ++ space :: (Decimal.encode rows ++ space ::
      (Decimal.encode nameLen ++ space :: Decimal.encode cmdLen)))) =
      if cols ≤ maxU16 ∧ rows ≤ maxU16 ∧ nameLen ≤ maxSessionName ∧ cmdLen ≤ maxExec2Cmd
      then some ⟨cols, rows, nameLen, cmdLen⟩ else none := by
  have tokens : tokenize [] ((text "PTYSESSION " ++
    (Decimal.encode cols ++ space :: (Decimal.encode rows ++ space ::
      (Decimal.encode nameLen ++ space :: Decimal.encode cmdLen)))).drop 11) =
      [Decimal.encode cols, Decimal.encode rows, Decimal.encode nameLen, Decimal.encode cmdLen] := by
    change tokenize [] (Decimal.encode cols ++ _) = _
    rw [tokens_number, tokens_number, tokens_number, tokens_last]
  unfold parsePtysessionHeader
  rw [tokens]
  dsimp only [Option.bind_eq_bind]
  rw [Decimal.unsigned_encode, Decimal.unsigned_encode, Decimal.unsigned_encode, Decimal.unsigned_encode]
  by_cases fits : cols ≤ maxU16 ∧ rows ≤ maxU16 ∧ nameLen ≤ maxSessionName ∧ cmdLen ≤ maxExec2Cmd
  · obtain ⟨wide, high, name, cmd⟩ := fits
    rw [if_pos wide, if_pos high, if_pos (Nat.le_trans name (by decide)),
      if_pos (Nat.le_trans cmd (by decide)), if_pos ⟨wide, high, name, cmd⟩]
    exact if_neg (not_or.mpr ⟨Nat.not_lt.mpr name, Nat.not_lt.mpr cmd⟩)
  · rw [if_neg fits]
    by_cases wide : cols ≤ maxU16
    · by_cases high : rows ≤ maxU16
      · have long : nameLen > maxSessionName ∨ cmdLen > maxExec2Cmd := by
          by_contra short
          rw [not_or] at short
          exact fits ⟨wide, high, Nat.le_of_not_lt short.1, Nat.le_of_not_lt short.2⟩
        rw [if_pos wide, if_pos high]
        split
        · split
          · exact if_pos long
          · rfl
        · rfl
      · rw [if_pos wide, if_neg high]
        rfl
    · rw [if_neg wide]
      rfl

theorem pty_request (cols rows : Nat) (cmd rest : Bytes) :
    handleConnection (text "PTY " ++ Decimal.encode cols ++ [space] ++ Decimal.encode rows ++ [space] ++
        Decimal.encode cmd.length ++ [newline] ++ cmd ++ rest) = .request (.pty cols rows cmd) rest ↔
      cols ≤ maxU16 ∧ rows ≤ maxU16 ∧ cmd.length ≤ maxExec2Cmd := by
  have digits := @encode_plain newline (by decide)
  have line : text "PTY " ++ Decimal.encode cols ++ [space] ++ Decimal.encode rows ++ [space] ++
      Decimal.encode cmd.length ++ [newline] ++ cmd ++ rest =
        (text "PTY " ++ (Decimal.encode cols ++ space ::
        (Decimal.encode rows ++ space :: Decimal.encode cmd.length))) ++ newline :: (cmd ++ rest) := by
    simp only [List.append_assoc, List.cons_append, List.nil_append]
  have free : newline ∉ text "PTY " ++ (Decimal.encode cols ++ space ::
        (Decimal.encode rows ++ space :: Decimal.encode cmd.length)) := by
    simp only [List.mem_append, List.mem_cons, digits]
    decide
  rw [line, handleConnection_line free, dispatch_pty]
  unfold handlePty
  rw [parsePtyHeader_fields]
  by_cases fits : cols ≤ maxU16 ∧ rows ≤ maxU16 ∧ cmd.length ≤ maxExec2Cmd
  · have wide := Decimal.encode_length (k := 4) (Nat.lt_of_le_of_lt fits.1 (by decide))
    have high := Decimal.encode_length (k := 4) (Nat.lt_of_le_of_lt fits.2.1 (by decide))
    have long := Decimal.encode_length (k := 6) (Nat.lt_of_le_of_lt fits.2.2 (by decide))
    have prefix_ : (text "PTY ").length = 4 := rfl
    rw [if_pos, if_pos fits]
    · dsimp only
      rw [readExact_append]
      exact iff_of_true rfl fits
    · simp only [List.length_append, List.length_cons, lineBuffer, prefix_]
      omega
  · rw [if_neg fits]
    split
    · exact iff_of_false nofun fits
    · exact iff_of_false nofun fits

theorem validSessionName_iff (name : Bytes) : validSessionName name = validatePtySessionName name := by
  have bytes : ∀ ch : UInt8, ((0x41 ≤ ch && ch ≤ 0x5a) || (0x61 ≤ ch && ch ≤ 0x7a) ||
    (0x30 ≤ ch && ch ≤ 0x39) ||
      ch == 0x2e || ch == 0x5f || ch == 0x2d) = isNameByte ch := by
    intro ch
    unfold isNameByte
    simp only [Bool.or_assoc]
    rw [Bool.or_left_comm (ch == 0x2e)]
  have lengths : (!(name.length == 0 || decide (maxSessionName < name.length))) =
      (decide (1 ≤ name.length) && decide (name.length ≤ 64)) := by
    unfold maxSessionName
    rw [Bool.eq_iff_iff]
    simp only [Bool.not_eq_true', Bool.or_eq_false_iff, beq_eq_false_iff_ne, decide_eq_false_iff_not,
      Bool.and_eq_true, decide_eq_true_eq]
    omega
  unfold validSessionName validatePtySessionName
  rw [lengths]
  simp only [bytes]

theorem valid_short {name : Bytes} (valid : validatePtySessionName name = true) :
    name.length ≤ maxSessionName := by
  unfold validatePtySessionName at valid
  simp only [Bool.and_eq_true, decide_eq_true_eq] at valid
  exact valid.1.2

theorem session_request {name : Bytes} (valid : validatePtySessionName name = true) (cols rows : Nat)
    (cmd rest : Bytes) :
    handleConnection (text "PTYSESSION " ++ Decimal.encode cols ++ [space] ++ Decimal.encode rows ++
      [space] ++
        Decimal.encode name.length ++ [space] ++ Decimal.encode cmd.length ++ [newline] ++ name ++ cmd ++
          rest) =
      .request (.session cols rows name cmd) rest ↔ cols ≤ maxU16 ∧ rows ≤ maxU16 ∧
        cmd.length ≤ maxExec2Cmd := by
  have digits := @encode_plain newline (by decide)
  have short := valid_short valid
  have line : text "PTYSESSION " ++ Decimal.encode cols ++ [space] ++ Decimal.encode rows ++ [space] ++
      Decimal.encode name.length ++ [space] ++ Decimal.encode cmd.length ++ [newline] ++ name ++ cmd ++
        rest =
      (text "PTYSESSION " ++ (Decimal.encode cols ++ space :: (Decimal.encode rows ++ space ::
        (Decimal.encode name.length ++ space :: Decimal.encode cmd.length)))) ++
          newline :: (name ++ (cmd ++ rest)) := by
    simp only [List.append_assoc, List.cons_append, List.nil_append]
  have free : newline ∉ text "PTYSESSION " ++
    (Decimal.encode cols ++ space :: (Decimal.encode rows ++ space ::
        (Decimal.encode name.length ++ space :: Decimal.encode cmd.length))) := by
    simp only [List.mem_append, List.mem_cons, digits]
    decide
  rw [line, handleConnection_line free, dispatch_session]
  unfold handlePtysession
  rw [parsePtysessionHeader_fields]
  by_cases fits : cols ≤ maxU16 ∧ rows ≤ maxU16 ∧ cmd.length ≤ maxExec2Cmd
  · obtain ⟨colsFit, rowsFit, cmdFits⟩ := fits
    have wide := Decimal.encode_length (k := 4) (Nat.lt_of_le_of_lt colsFit (by decide))
    have high := Decimal.encode_length (k := 4) (Nat.lt_of_le_of_lt rowsFit (by decide))
    have long := Decimal.encode_length (k := 6) (Nat.lt_of_le_of_lt cmdFits (by decide))
    have named := Decimal.encode_length (k := 1) (Nat.lt_of_le_of_lt short (by decide))
    have prefix_ : (text "PTYSESSION ").length = 11 := rfl
    rw [if_pos, if_pos ⟨colsFit, rowsFit, short, cmdFits⟩]
    · dsimp only
      rw [readExact_append]
      dsimp only
      rw [readExact_append]
      dsimp only
      rw [validSessionName_iff, if_pos valid]
      exact iff_of_true rfl ⟨colsFit, rowsFit, cmdFits⟩
    · simp only [List.length_append, List.length_cons, lineBuffer, prefix_]
      omega
  · have unfit : ¬ (cols ≤ maxU16 ∧ rows ≤ maxU16 ∧ name.length ≤ maxSessionName ∧
      cmd.length ≤ maxExec2Cmd) :=
      fun all => fits ⟨all.1, all.2.1, all.2.2.2⟩
    rw [if_neg unfit]
    split
    · exact iff_of_false nofun fits
    · exact iff_of_false nofun fits

/-- A request of the host is parsed as it was meant, and its bytes reach the program that they
are for, exactly when it is within the limits of the agent. -/
theorem request_agrees {request : HostRequest} {bytes : Bytes} (written : request.write = some bytes)
    (rest : Bytes) :
    (handleConnection (bytes ++ rest) = .request request.meaning rest ∧
      request.meaning.argument = request.payload) ↔ request.Fits := by
  have whole : ∀ cmd : Bytes, some (argument cmd) = some cmd ↔ 0 ∉ cmd := fun cmd => by
    rw [Option.some.injEq, argument_whole]
  cases request with
  | run cmd =>
    unfold HostRequest.write at written
    dsimp only at written
    split at written
    · cases written
      exact and_congr (exec2_request cmd rest) (whole cmd)
    · rename_i legacy
      cases written
      simp only [Bool.or_eq_true, List.any_eq_true, decide_eq_true_eq, not_or, not_exists,
        not_and] at legacy
      obtain ⟨plain, short⟩ := legacy
      have free : newline ∉ cmd := fun listed => absurd rfl (plain newline listed).2
      have few : cmd.length ≤ maxExec2Cmd := Nat.le_trans (Nat.le_of_not_lt short) (by decide)
      exact and_congr (iff_of_true (legacy_request free (Nat.le_of_not_lt short) rest) few) (whole cmd)
  | reseed seedHex =>
    cases written
    exact (and_congr (reseed_request seedHex rest) (whole seedHex)).trans and_assoc
  | startPty cols rows cmd sessionName =>
    cases sessionName with
    | none =>
      cases written
      refine (and_congr (pty_request cols rows cmd rest) (whole cmd)).trans ?_
      simp only [HostRequest.Fits, and_assoc]
    | some name =>
      unfold HostRequest.write at written
      dsimp only at written
      split at written
      · rename_i valid
        cases written
        refine (and_congr (session_request valid cols rows cmd rest) (whole cmd)).trans ?_
        simp only [HostRequest.Fits, and_assoc]
      · cases written
  | killPtySession name =>
    unfold HostRequest.write at written
    dsimp only at written
    split at written
    · rename_i valid
      cases written
      exact iff_of_true ⟨(kill_request name rest).mpr (valid_short valid), rfl⟩ trivial
    · cases written

namespace HostFrame

/-- What a frame is to do; an empty chunk is not sent. -/
def meaning : HostFrame → Option Input
  | .stdin chunk => if chunk = [] then none else some (.bytes chunk)
  | .resize cols rows => some (.resize cols rows)

def Fits : HostFrame → Prop
  | .stdin chunk => chunk.length ≤ maxPtyInput
  | .resize cols rows => cols ≤ maxU16 ∧ rows ≤ maxU16

end HostFrame

theorem stdin_frame {lengthLimit : Nat} (word : maxPtyInput ≤ lengthLimit) (chunk rest : Bytes) :
    inputFrame lengthLimit (text "I " ++ Decimal.encode chunk.length ++ [newline] ++ chunk ++ rest) =
      some (.bytes chunk, rest) ↔ chunk.length ≤ maxPtyInput := by
  have free : newline ∉ text "I " ++ Decimal.encode chunk.length := fun listed =>
    (List.mem_append.mp listed).elim (by decide) (encode_plain (by decide) _)
  have op : text "I " <+: text "I " ++ Decimal.encode chunk.length := List.prefix_append ..
  unfold inputFrame
  rw [List.append_assoc _ chunk rest, List.append_assoc _ [newline], List.singleton_append,
    readLine_line free]
  by_cases fits : chunk.length ≤ maxPtyInput
  · have digits := Decimal.encode_length (k := 4) (Nat.lt_of_le_of_lt fits (by decide))
    rw [if_pos]
    · refine iff_of_true ?_ fits
      simp only [Option.bind_eq_bind, Option.bind_some]
      rw [if_pos op, show (text "I " ++ Decimal.encode chunk.length).drop 2 =
        Decimal.encode chunk.length from rfl,
        Decimal.unsigned_encode, if_pos (Nat.le_trans fits word), Option.bind_some,
        if_neg (Nat.not_lt.mpr fits), readExact_append]
      rfl
    · rw [List.length_append]
      change 2 + _ < 256
      omega
  · refine iff_of_false ?_ fits
    split
    · simp only [Option.bind_eq_bind, Option.bind_some]
      rw [if_pos op, show (text "I " ++ Decimal.encode chunk.length).drop 2 =
        Decimal.encode chunk.length from rfl, Decimal.unsigned_encode]
      split
      · rw [Option.bind_some, if_pos (Nat.lt_of_not_le fits)]
        exact nofun
      · exact nofun
    · exact nofun

theorem resize_frame (lengthLimit cols rows : Nat) (rest : Bytes) :
    inputFrame lengthLimit (text "R " ++ Decimal.encode cols ++ [space] ++ Decimal.encode rows ++
      [newline] ++ rest) = some (.resize cols rows, rest) ↔ cols ≤ maxU16 ∧ rows ≤ maxU16 := by
  have digits := @encode_plain newline (by decide)
  have line : text "R " ++ Decimal.encode cols ++ [space] ++ Decimal.encode rows ++ [newline] ++ rest =
      (text "R " ++ (Decimal.encode cols ++ space :: Decimal.encode rows)) ++ newline :: rest := by
    simp only [List.append_assoc, List.cons_append, List.nil_append]
  have free : newline ∉ text "R " ++ (Decimal.encode cols ++ space :: Decimal.encode rows) := by
    simp only [List.mem_append, List.mem_cons, digits]
    decide
  have other : ¬ text "I " <+: text "R " ++ (Decimal.encode cols ++ space :: Decimal.encode rows) := by
    simp [text]
  have op : text "R " <+: text "R " ++ (Decimal.encode cols ++ space :: Decimal.encode rows) :=
    List.prefix_append ..
  have body : resizeOf ((text "R " ++ (Decimal.encode cols ++ space :: Decimal.encode rows)).drop 2) =
      some (if cols ≤ maxU16 ∧ rows ≤ maxU16 then .resize cols rows else .ignored) := by
    unfold resizeOf
    have drop : (text "R " ++ (Decimal.encode cols ++ space :: Decimal.encode rows)).drop 2 =
        Decimal.encode cols ++ space :: Decimal.encode rows := rfl
    rw [drop, tokens_number, tokens_last]
    dsimp only
    rw [Decimal.unsigned_encode, Decimal.unsigned_encode]
    by_cases wide : cols ≤ maxU16
    · by_cases high : rows ≤ maxU16
      · rw [if_pos wide, if_pos high, if_pos ⟨wide, high⟩]
      · rw [if_pos wide, if_neg high, if_neg fun both => high (And.right both)]
    · rw [if_neg wide, if_neg fun both => wide (And.left both)]
  unfold inputFrame
  rw [line, readLine_line free]
  by_cases fits : cols ≤ maxU16 ∧ rows ≤ maxU16
  · have wide := Decimal.encode_length (k := 4) (Nat.lt_of_le_of_lt fits.1 (by decide))
    have high := Decimal.encode_length (k := 4) (Nat.lt_of_le_of_lt fits.2 (by decide))
    have prefix_ : (text "R ").length = 2 := rfl
    rw [if_pos]
    · refine iff_of_true ?_ fits
      simp only [Option.bind_eq_bind, Option.bind_some]
      rw [if_neg other, if_pos op, body, if_pos fits]
      rfl
    · simp only [List.length_append, List.length_cons, frameBuffer, prefix_]
      omega
  · refine iff_of_false ?_ fits
    split
    · simp only [Option.bind_eq_bind, Option.bind_some]
      rw [if_neg other, if_pos op, body, if_neg fits]
      rintro ⟨⟩
    · rintro ⟨⟩

theorem frame_agrees {lengthLimit : Nat} (word : maxPtyInput ≤ lengthLimit) {frame : HostFrame}
    {input : Input} (meant : frame.meaning = some input) (rest : Bytes) :
    inputFrame lengthLimit (frame.write ++ rest) = some (input, rest) ↔ frame.Fits := by
  cases frame with
  | stdin chunk =>
    unfold HostFrame.meaning at meant
    dsimp only at meant
    split at meant
    · cases meant
    · rename_i some_
      cases meant
      unfold HostFrame.write
      dsimp only
      rw [if_neg some_]
      exact stdin_frame word chunk rest
  | resize cols rows =>
    cases meant
    exact resize_frame lengthLimit cols rows rest

theorem silent_frame {frame : HostFrame} (silent : frame.meaning = none) : frame.write = [] := by
  cases frame with
  | stdin chunk =>
    unfold HostFrame.meaning at silent
    dsimp only at silent
    split at silent
    · rename_i empty
      exact if_pos empty
    · cases silent
  | resize cols rows => cases silent

theorem write_ne_nil {frame : HostFrame} {input : Input} (meant : frame.meaning = some input) :
    frame.write ≠ [] := by
  cases frame with
  | stdin chunk =>
    unfold HostFrame.meaning at meant
    dsimp only at meant
    split at meant
    · cases meant
    · rename_i some_
      unfold HostFrame.write
      dsimp only
      rw [if_neg some_]
      exact nofun
  | resize cols rows => exact nofun

theorem inputFrames_succ {frame : Bytes → Option (Input × Bytes)} {stream : Bytes} (some_ : stream ≠ [])
    (fuel : Nat) : inputFrames frame (fuel + 1) stream =
      (frame stream).bind fun (input, rest) => (inputFrames frame fuel rest).bind fun more =>
      some (input :: more) := by
  cases stream with
  | nil => exact absurd rfl some_
  | cons byte rest => rfl

theorem frames_agree {lengthLimit : Nat} (word : maxPtyInput ≤ lengthLimit) {frames : List HostFrame}
    (fits : ∀ frame ∈ frames, frame.Fits) {fuel : Nat}
    (enough : (frames.flatMap HostFrame.write).length ≤ fuel) :
    inputFrames (inputFrame lengthLimit) fuel (frames.flatMap HostFrame.write) =
      some (frames.filterMap HostFrame.meaning) := by
  induction frames generalizing fuel with
  | nil => cases fuel <;> rfl
  | cons frame frames ih =>
    have later : ∀ other ∈ frames, other.Fits :=
      fun other listed => fits other (List.mem_cons_of_mem _ listed)
    rw [List.flatMap_cons] at enough ⊢
    rw [List.length_append] at enough
    cases meant : frame.meaning with
    | none =>
      rw [silent_frame meant, List.nil_append, List.filterMap_cons_none meant]
      exact ih later (by omega)
    | some input =>
      have some_ := write_ne_nil meant
      have long := List.length_pos_iff.mpr some_
      obtain ⟨less, rfl⟩ : ∃ less, fuel = less + 1 := ⟨fuel - 1, by omega⟩
      rw [inputFrames_succ (List.append_ne_nil_of_left_ne_nil some_ _),
        (frame_agrees word meant _).mpr (fits frame List.mem_cons_self), Option.bind_some]
      dsimp only
      rw [ih later (by omega), List.filterMap_cons_some meant]
      rfl

theorem payloads_out (chunks : List Bytes) :
    payloads .out (chunks.map fun chunk => (Stream.out, chunk)) = chunks.flatten := by
  unfold payloads
  rw [List.flatMap_map]
  exact List.flatMap_id

/-- The two ends of the wire, in both directions. -/
theorem exec_wire_agrees :
    (∀ chunks code events, events.flatten = framed chunks code → ∃ p, stepExecParser events = .ok p ∧
      p.exitCode = some (some (code : Int)) ∧ ∀ stream, p.delivered stream = payloads stream chunks) ∧
    (∀ (chunks : List Bytes) code events, events.flatten =
      framed (chunks.map fun chunk => (Stream.out, chunk)) code →
      ∃ p, ingestPtyOutput events = .ok p ∧ p.exitCode = some (some (code : Int)) ∧
        p.delivered .out = chunks.flatten) ∧
    (∀ request bytes rest, HostRequest.write request = some bytes → request.Fits →
      handleConnection (bytes ++ rest) = .request request.meaning rest ∧
        request.meaning.argument = request.payload) ∧
    (∀ (frames : List HostFrame) fuel, (∀ frame ∈ frames, frame.Fits) →
      (frames.flatMap HostFrame.write).length ≤ fuel →
      inputFrames ptyFrame fuel (frames.flatMap HostFrame.write) =
        some (frames.filterMap HostFrame.meaning) ∧
      inputFrames brokerFrame fuel (frames.flatMap HostFrame.write) =
        some (frames.filterMap HostFrame.meaning)) := by
  have usize : maxPtyInput ≤ maxUsize := by decide
  have u32 : maxPtyInput ≤ maxU32 := by decide
  refine ⟨fun chunks code events split => ?_, fun chunks code events split => ?_,
    fun request bytes rest written fits => (request_agrees written rest).mpr fits,
    fun frames fuel fits enough => ⟨frames_agree usize fits enough, frames_agree u32 fits enough⟩⟩
  · exact frames_delivered (fun chunk _ => by cases chunk.1 <;> decide) split
  · obtain ⟨p, parsed, exited, delivered⟩ := @frames_delivered [.out] _ _ _ (fun chunk listed => by
      obtain ⟨bytes, -, rfl⟩ := List.mem_map.mp listed
      exact List.mem_singleton_self _) split
    exact ⟨p, parsed, exited, (delivered .out).trans (payloads_out chunks)⟩

/-- A chunk of output that is split inside its header and its payload, and a short command. -/
theorem exec_wire_agrees_split :
    (∃ p, stepExecParser [[0x4f, 0x20], [0x32, 0x0a, 0x68], [0x69, 0x58, 0x20, 0x37], [0x0a]] = .ok p ∧
      p.exitCode = some (some 7) ∧ ∀ stream, p.delivered stream = payloads stream [(.out, [0x68, 0x69])]) ∧
    handleConnection ([0x45, 0x58, 0x45, 0x43, 0x20, 0x6c, 0x73, 0x0a] ++ []) =
      .request (.command [0x6c, 0x73]) [] :=
  ⟨exec_wire_agrees.1 [(.out, [0x68, 0x69])] 7 _ (by decide),
    (exec_wire_agrees.2.2.1 (.run [0x6c, 0x73]) _ [] rfl ⟨by decide, by decide⟩).1⟩

/-- What is beyond the limits: a large chunk of input, a large terminal, a large command, an
empty seed and a NUL in a command. -/
theorem exec_wire_limits :
    (∃ chunk : Bytes, ptyFrame (HostFrame.write (.stdin chunk) ++ []) ≠ some (.bytes chunk, []) ∧
      brokerFrame (HostFrame.write (.stdin chunk) ++ []) ≠ some (.bytes chunk, [])) ∧
    ptyFrame (HostFrame.write (.resize 65536 24) ++ []) ≠ some (.resize 65536 24, []) ∧
    (∃ cmd bytes, HostRequest.write (.run cmd) = some bytes ∧
      handleConnection (bytes ++ []) ≠ .request (.command cmd) []) ∧
    (∃ bytes, HostRequest.write (.reseed []) = some bytes ∧
      handleConnection (bytes ++ []) ≠ .request (.reseed []) []) ∧
    (HostRequest.meaning (.run [0x6c, 0x00, 0x73])).argument ≠ HostRequest.payload
      (.run [0x6c, 0x00, 0x73]) := by
  obtain ⟨chunk, large⟩ : ∃ chunk : Bytes, chunk.length = maxPtyInput + 1 :=
    ⟨_, List.length_replicate (a := (0 : UInt8))⟩
  obtain ⟨cmd, long⟩ : ∃ cmd : Bytes, cmd.length = maxExec2Cmd + 1 :=
    ⟨_, List.length_replicate (a := (0 : UInt8))⟩
  have some_ : HostFrame.meaning (.stdin chunk) = some (.bytes chunk) := if_neg fun empty => by
    rw [empty] at large
    cases large
  have tooLarge : ¬ HostFrame.Fits (.stdin chunk) := fun fits =>
    Nat.not_succ_le_self maxPtyInput (Nat.le_trans (Nat.le_of_eq large.symm) fits)
  have tooLong : ¬ cmd.length ≤ maxExec2Cmd := fun fits =>
    Nat.not_succ_le_self maxExec2Cmd (Nat.le_trans (Nat.le_of_eq long.symm) fits)
  have usize : maxPtyInput ≤ maxUsize := by decide
  have u32 : maxPtyInput ≤ maxU32 := by decide
  have long_ : legacyMaxBytes < cmd.length := by
    rw [long]
    decide
  refine ⟨⟨chunk, mt (frame_agrees usize some_ []).mp tooLarge, mt (frame_agrees u32 some_ []).mp tooLarge⟩,
    mt (resize_frame maxUsize 65536 24 []).mp (by decide),
    ⟨cmd, _, if_pos ?_, mt (exec2_request cmd []).mp tooLong⟩,
    ⟨_, rfl, mt (reseed_request [] []).mp (by decide)⟩, by decide⟩
  rw [decide_eq_true long_, Bool.or_true]

end Machinen.Exec.Wire
