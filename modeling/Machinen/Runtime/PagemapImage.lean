import Machinen.Runtime.PagemapRewrite
import Mathlib.Data.List.Forall2

/-! The whole image: its messages one by one, and the exact condition under which the rewriting marks
the entries that are to be marked, counts them, and leaves everything else as it is. -/
namespace Machinen.Runtime.LazyPagemap

open Bytes

def frame (msg : Bytes) : Bytes := le 4 msg.length ++ msg

theorem messageOf_eq {bs msg rest : Bytes} (found : messageOf bs = some (msg, rest)) :
    bs = frame msg ++ rest ∧ frame msg ≠ [] ∧ msg.length < 2 ^ 32 := by
  unfold messageOf at found
  dsimp only at found
  split at found
  · cases found
  · rename_i long
    cases found
    have four : (bs.take 4).length = 4 := List.length_take_of_le (by omega)
    have length : (slice bs 4 (toNat (bs.take 4))).length = toNat (bs.take 4) :=
      slice_length bs 4 _ (by omega)
    have prefix_ : le 4 (toNat (bs.take 4)) = bs.take 4 := by
      have again := le_toNat (bs.take 4)
      rwa [four] at again
    have small : toNat (bs.take 4) < 256 ^ 4 := by
      have bound := toNat_lt (bs.take 4)
      rwa [four] at bound
    have whole : bs = frame (slice bs 4 (toNat (bs.take 4))) ++ bs.drop (4 + toNat (bs.take 4)) := by
      rw [frame, length, prefix_, slice, List.append_assoc, ← List.drop_drop, List.take_append_drop,
        List.take_append_drop]
    refine ⟨whole, ?_, by rw [length]; exact small⟩
    rw [frame, length, prefix_]
    exact List.append_ne_nil_of_left_ne_nil (fun empty => by rw [empty] at four; cases four) _

theorem messageOf_cuts : Pieces.Cuts messageOf frame := fun _ _ _ found =>
  ⟨(messageOf_eq found).1, (messageOf_eq found).2.1⟩

theorem messageOf_frame {msg : Bytes} (short : msg.length < 2 ^ 32) (rest : Bytes) :
    messageOf (frame msg ++ rest) = some (msg, rest) := by
  have size : toNat ((frame msg ++ rest).take 4) = msg.length := by
    rw [frame, List.append_assoc, List.take_left' (le_length 4 _)]
    exact toNat_le 4 _ short
  unfold messageOf
  rw [size]
  dsimp only
  rw [if_neg (by rw [frame, List.length_append, List.length_append, le_length]; omega), slice,
    ← List.drop_drop, frame, List.append_assoc, List.drop_left' (le_length 4 _), List.take_left,
    List.drop_left]

theorem messagesOf_frames {msgs : List Bytes} (short : ∀ msg ∈ msgs, msg.length < 2 ^ 32) :
    messagesOf (msgs.flatMap frame) = some msgs := by
  induction msgs with
  | nil => rfl
  | cons msg msgs ih =>
    have here := messageOf_frame (short msg List.mem_cons_self) (msgs.flatMap frame)
    have some_ := (messageOf_eq here).2.1
    rw [messagesOf, List.flatMap_cons, messageOf_cuts.all_cons (List.append_ne_nil_of_left_ne_nil some_ _),
      here, Option.bind_some]
    exact congrArg (Option.map (msg :: ·)) (ih fun other listed => short other (List.mem_cons_of_mem msg listed))

theorem readPagemapMessage_messageOf (front bs : Bytes) :
    match messageOf bs with
    | some (msg, _) =>
      readPagemapMessage (front ++ bs) front.length = .ok (msg, front.length + (frame msg).length)
    | none => ∃ t, readPagemapMessage (front ++ bs) front.length = .error t := by
  have shift : ∀ n m, slice (front ++ bs) (front.length + n) m = slice bs n m := fun n m => by
    rw [slice, slice, ← List.drop_drop, List.drop_left]
  have size : toNat (slice (front ++ bs) front.length 4) = toNat (bs.take 4) := by
    have found := shift 0 4
    rw [Nat.add_zero] at found
    rw [found]
    rfl
  unfold messageOf readPagemapMessage
  rw [size, List.length_append]
  dsimp only
  by_cases header : front.length + bs.length < front.length + 4
  · rw [if_pos header, if_pos (by omega)]
    exact ⟨_, rfl⟩
  rw [if_neg header]
  by_cases short : bs.length < 4 + toNat (bs.take 4)
  · rw [if_pos short, if_pos (by omega)]
    exact ⟨_, rfl⟩
  · rw [if_neg short, if_neg (by omega), shift]
    dsimp only
    rw [frame, List.length_append, le_length, slice_length bs 4 _ (by omega), Nat.add_assoc]

def appendAll (lazyRanges : List VmaRange) :
    List Bytes → Bool → RewriteResult → Except Thrown RewriteResult
  | [], _, state => .ok state
  | msg :: msgs, isFirst, state => do
    let state ← appendRewrittenPagemapMessage state msg isFirst lazyRanges
    appendAll lazyRanges msgs false state

theorem rewriteMessages_messagesOf (ranges : List VmaRange) (front bs : Bytes) (turns : Nat)
    (isFirst : Bool) (state : RewriteResult) (enough : bs.length ≤ turns) :
    match messagesOf bs with
    | some msgs => rewriteMessages (front ++ bs) ranges turns front.length isFirst state =
        appendAll ranges msgs isFirst state
    | none => ∃ t, rewriteMessages (front ++ bs) ranges turns front.length isFirst state = .error t := by
  induction turns generalizing front bs isFirst state with
  | zero =>
    obtain rfl := List.eq_nil_of_length_eq_zero (Nat.le_zero.mp enough)
    rfl
  | succ turns ih =>
    by_cases none_ : bs = []
    · subst none_
      rw [rewriteMessages, List.append_nil, if_neg (Nat.lt_irrefl _)]
      rfl
    have positive := List.length_pos_iff.mpr none_
    have read := readPagemapMessage_messageOf front bs
    rw [rewriteMessages, if_pos (by rw [List.length_append]; omega), messagesOf,
      messageOf_cuts.all_cons none_]
    cases found : messageOf bs with
    | none =>
      rw [found] at read
      obtain ⟨t, read⟩ := read
      exact ⟨t, by rw [read]; rfl⟩
    | some first =>
      obtain ⟨msg, rest⟩ := first
      rw [found] at read
      have shorter := messageOf_cuts.shorter found
      obtain ⟨rfl, -⟩ := messageOf_eq found
      dsimp only at read
      rw [read, Option.bind_some]
      dsimp only [bind, Except.bind]
      have later := fun state => ih (front ++ frame msg) rest false state (by omega)
      rw [List.append_assoc, List.length_append, messagesOf] at later
      cases step : appendRewrittenPagemapMessage state msg isFirst ranges with
      | error t =>
        cases inner : Pieces.all messageOf rest with
        | none => exact ⟨t, rfl⟩
        | some msgs =>
          dsimp only [Option.map_some]
          rw [appendAll, step]
          rfl
      | ok next =>
        have result := later next
        cases inner : Pieces.all messageOf rest with
        | none =>
          rw [inner] at result
          exact result
        | some msgs =>
          rw [inner] at result
          dsimp only [Option.map_some] at result ⊢
          rw [appendAll, step]
          exact result

section Entries

variable {ranges : List VmaRange}

/-- What a rewriting has done after one more entry, which has become another. -/
def RewriteResult.add (ranges : List VmaRange) (state : RewriteResult) (e e' : Entry) : RewriteResult where
  out := state.out ++ frame e'.bytes
  changed := state.changed || decide (e.ToRewrite ranges)
  entriesFlagged := state.entriesFlagged + (decide (e.ToRewrite ranges)).toNat
  entriesAlreadyLazy := state.entriesAlreadyLazy + (decide e.NumberLazy).toNat

/-- An entry that has become another can be read, and its message has a length for 32 bits. -/
structure Sound (ranges : List VmaRange) (e e' : Entry) : Prop where
  becomes : e.Becomes ranges e'
  read : entryOf e'.bytes = some e'
  short : e'.bytes.length < 2 ^ 32

theorem appendEntry_spec {msg : Bytes} {e : Entry} (read : entryOf msg = some e)
    (short : msg.length < 2 ^ 32) (state : RewriteResult) :
    if e.ToRewrite ranges ∧ e.Negative then
      ∃ t, appendRewrittenPagemapMessage state msg false ranges = .error t
    else ∃ e', Sound ranges e e' ∧
      appendRewrittenPagemapMessage state msg false ranges = .ok (state.add ranges e e') := by
  have entry := rewriteEntry_spec read ranges
  unfold appendRewrittenPagemapMessage rewritePagemapEntryMessage
  dsimp only [bind, Except.bind]
  by_cases negative : e.ToRewrite ranges ∧ e.Negative
  · rw [if_pos negative] at entry ⊢
    obtain ⟨t, entry⟩ := entry
    refine ⟨t, ?_⟩
    rw [if_neg nofun, entry]
  · rw [if_neg negative] at entry ⊢
    obtain ⟨e', becomes, read', shorter, entry⟩ := entry
    have fits : e'.bytes.length < 2 ^ 32 := Nat.lt_of_le_of_lt shorter short
    refine ⟨e', ⟨becomes, read', fits⟩, ?_⟩
    rw [if_neg nofun, entry]
    unfold appendPagemapMessage RewriteResult.add
    by_cases rewrites : e.ToRewrite ranges
    · have judged : ¬ e.NumberLazy := rewrites.1
      simp only [rewrites, judged, decide_true, decide_false, if_true, Bool.toNat_true, Bool.toNat_false,
        Bool.or_true, Nat.add_zero, pure, Except.pure, if_pos fits]
      rfl
    · have same : e' = e := by rwa [Entry.Becomes, if_neg rewrites] at becomes
      have bytes : e'.bytes = msg := same ▸ entryOf_bytes read
      rw [bytes] at fits ⊢
      by_cases judged : e.NumberLazy
      · simp only [rewrites, judged, decide_true, decide_false, if_true, Bool.false_eq_true, if_false,
          Bool.toNat_true, Bool.toNat_false, Bool.or_false, Nat.add_zero, pure, Except.pure, if_pos fits]
        rfl
      · simp only [rewrites, judged, decide_false, Bool.false_eq_true, if_false, Bool.toNat_false,
          Bool.or_false, Nat.add_zero, pure, Except.pure, if_pos fits]
        rfl

theorem appendEntry_error {msg : Bytes} (unread : entryOf msg = none) (state : RewriteResult) :
    ∃ t, appendRewrittenPagemapMessage state msg false ranges = .error t := by
  have parsed := parsePagemapEntryFields_entryOf msg
  rw [unread] at parsed
  obtain ⟨t, parsed⟩ := parsed
  refine ⟨t, ?_⟩
  unfold appendRewrittenPagemapMessage rewritePagemapEntryMessage rewriteEntry
  rw [parsed]
  rfl

def RewriteResult.addAll (ranges : List VmaRange) (state : RewriteResult) (es es' : List Entry) :
    RewriteResult where
  out := state.out ++ (es'.map Entry.bytes).flatMap frame
  changed := state.changed || es.any fun e => e.ToRewrite ranges
  entriesFlagged := state.entriesFlagged + es.countP fun e => e.ToRewrite ranges
  entriesAlreadyLazy := state.entriesAlreadyLazy + es.countP fun e => e.NumberLazy

theorem addAll_cons (state : RewriteResult) (e e' : Entry) (es es' : List Entry) :
    state.addAll ranges (e :: es) (e' :: es') = (state.add ranges e e').addAll ranges es es' := by
  unfold RewriteResult.addAll RewriteResult.add
  have count : ∀ b : Bool, (if b = true then 1 else 0) = b.toNat := fun b => by cases b <;> rfl
  rw [List.map_cons, List.flatMap_cons, List.any_cons, List.countP_cons, List.countP_cons, count, count]
  simp only [List.append_assoc, Bool.or_assoc, Nat.add_assoc, Nat.add_comm (Bool.toNat _)]

theorem appendAll_spec {msgs : List Bytes} (short : ∀ msg ∈ msgs, msg.length < 2 ^ 32)
    (state : RewriteResult) :
    match entriesOf msgs with
    | none => ∃ t, appendAll ranges msgs false state = .error t
    | some es =>
      if ∃ e ∈ es, e.ToRewrite ranges ∧ e.Negative then ∃ t, appendAll ranges msgs false state = .error t
      else ∃ es', List.Forall₂ (Sound ranges) es es' ∧
        appendAll ranges msgs false state = .ok (state.addAll ranges es es') := by
  induction msgs generalizing state with
  | nil =>
    rw [entriesOf]
    dsimp only
    rw [if_neg fun found => by obtain ⟨e, listed, -⟩ := found; cases listed]
    refine ⟨[], .nil, ?_⟩
    simp only [appendAll, RewriteResult.addAll, List.map_nil, List.flatMap_nil, List.append_nil, List.any_nil,
      Bool.or_false, List.countP_nil, Nat.add_zero]
  | cons msg msgs ih =>
    have later := ih fun other listed => short other (List.mem_cons_of_mem msg listed)
    rw [entriesOf, appendAll]
    cases read : entryOf msg with
    | none =>
      obtain ⟨t, failed⟩ := @appendEntry_error ranges msg read state
      exact ⟨t, by rw [failed]; rfl⟩
    | some e =>
      have first := @appendEntry_spec ranges msg e read (short msg List.mem_cons_self) state
      rw [Option.bind_some]
      by_cases mine : e.ToRewrite ranges ∧ e.Negative
      · rw [if_pos mine] at first
        obtain ⟨t, failed⟩ := first
        rw [failed]
        cases entriesOf msgs with
        | none => exact ⟨t, rfl⟩
        | some es =>
          dsimp only [Option.map_some]
          rw [if_pos ⟨e, List.mem_cons_self, mine⟩]
          exact ⟨t, rfl⟩
      · rw [if_neg mine] at first
        obtain ⟨e', sound, done⟩ := first
        have rest := later (state.add ranges e e')
        rw [done]
        cases others : entriesOf msgs with
        | none =>
          rw [others] at rest
          exact rest
        | some es =>
          rw [others] at rest
          dsimp only [Option.map_some] at rest ⊢
          have same : (∃ e_1 ∈ e :: es, e_1.ToRewrite ranges ∧ e_1.Negative) ↔
              ∃ e_1 ∈ es, e_1.ToRewrite ranges ∧ e_1.Negative := by
            simp only [List.mem_cons, exists_eq_or_imp, mine, false_or]
          by_cases negative : ∃ e_1 ∈ es, Entry.ToRewrite ranges e_1 ∧ Entry.Negative e_1
          · rw [if_pos negative] at rest
            rw [if_pos (same.mpr negative)]
            exact rest
          · rw [if_neg negative] at rest
            rw [if_neg (fun found => negative (same.mp found))]
            obtain ⟨es', sounds, finished⟩ := rest
            refine ⟨e' :: es', .cons sound sounds, ?_⟩
            rw [addAll_cons]
            exact finished

end Entries

theorem forall₂_left {A B : Type} {R : A → B → Prop} {as : List A} {bs : List B}
    (all : List.Forall₂ R as bs) : ∀ a ∈ as, ∃ b, R a b := by
  induction all with
  | nil => exact nofun
  | cons here _ ih => exact List.forall_mem_cons.mpr ⟨⟨_, here⟩, ih⟩

theorem fileOf_header {magic : Bytes} (header : Header magic) (bs : Bytes) :
    fileOf (magic ++ bs) = (messagesOf bs).bind (fileBehind magic) := by
  have front : (magic ++ bs).take 8 = magic := List.take_left' header.1
  have rest : (magic ++ bs).drop 8 = bs := List.drop_left' header.1
  rw [fileOf, front, rest, if_pos header]

theorem validatePagemapHeader_header (input : Bytes) :
    if Header (input.take 8) then validatePagemapHeader input = .ok ()
    else ∃ t, validatePagemapHeader input = .error t := by
  have first : slice (input.take 8) 0 4 = slice input 0 4 := by
    rw [slice, slice, List.drop_zero, List.drop_zero, List.take_take]
    rfl
  have second : slice (input.take 8) 4 4 = slice input 4 4 := by
    rw [slice, slice, List.drop_take, List.take_take]
    rfl
  have same : Header (input.take 8) ↔ 8 ≤ input.length ∧
      toNat (slice input 0 4) = IMG_COMMON_MAGIC ∧ toNat (slice input 4 4) = PAGEMAP_MAGIC := by
    rw [Header, first, second, List.length_take]
    omega
  unfold validatePagemapHeader
  split
  · rename_i header
    obtain ⟨long, common, pagemap⟩ := same.mp header
    rw [if_neg (Nat.not_lt.mpr long), if_neg (not_not.mpr common), if_neg (not_not.mpr pagemap)]
  · rename_i other
    split
    · exact ⟨_, rfl⟩
    rename_i long
    split
    · exact ⟨_, rfl⟩
    rename_i common
    split
    · exact ⟨_, rfl⟩
    rename_i pagemap
    exact absurd (same.mpr ⟨Nat.not_lt.mp long, not_not.mp common, not_not.mp pagemap⟩) other

theorem rewritePagemap_messages (input : Bytes) (ranges : List VmaRange) :
    if Header (input.take 8) then
      match messagesOf (input.drop 8) with
      | some msgs => rewritePagemap input ranges = appendAll ranges msgs true { out := input.take 8 }
      | none => ∃ t, rewritePagemap input ranges = .error t
    else ∃ t, rewritePagemap input ranges = .error t := by
  have valid := validatePagemapHeader_header input
  unfold rewritePagemap
  dsimp only [bind, Except.bind]
  by_cases header : Header (input.take 8)
  · rw [if_pos header] at valid ⊢
    have whole : input.take 8 ++ input.drop 8 = input := List.take_append_drop 8 input
    have run := rewriteMessages_messagesOf ranges (input.take 8) (input.drop 8) input.length true
      { out := input.take 8 } (by rw [List.length_drop]; omega)
    rw [whole, header.1] at run
    rw [valid]
    exact run
  · rw [if_neg header] at valid ⊢
    obtain ⟨t, valid⟩ := valid
    exact ⟨t, by rw [valid]⟩

theorem entriesOf_eq {msgs : List Bytes} {es : List Entry} (read : entriesOf msgs = some es) :
    es.map Entry.bytes = msgs := by
  induction msgs generalizing es with
  | nil =>
    cases read
    rfl
  | cons msg msgs ih =>
    obtain ⟨e, first, read⟩ := Option.bind_eq_some_iff.mp read
    obtain ⟨es', inner, rfl⟩ := Option.map_eq_some_iff.mp read
    rw [List.map_cons, entryOf_bytes first, ih inner]

theorem entriesOf_written {es : List Entry} (read : ∀ e ∈ es, entryOf e.bytes = some e) :
    entriesOf (es.map Entry.bytes) = some es := by
  induction es with
  | nil => rfl
  | cons e es ih =>
    rw [List.map_cons, entriesOf, read e List.mem_cons_self, Option.bind_some,
      ih fun other listed => read other (List.mem_cons_of_mem e listed)]
    rfl

theorem fileOf_injective {input input' : Bytes} {file : PagemapFile} (read : fileOf input = some file)
    (read' : fileOf input' = some file) : input = input' := by
  have bytes : ∀ {xs : Bytes}, fileOf xs = some file →
      xs = file.magic ++ (file.head.toList ++ file.entries.map Entry.bytes).flatMap frame := by
    intro xs read
    unfold fileOf at read
    split at read
    · obtain ⟨msgs, split, behind⟩ := Option.bind_eq_some_iff.mp read
      have rest := messageOf_cuts.all_bytes split
      cases msgs with
      | nil =>
        cases behind
        exact ((congrArg (xs.take 8 ++ ·) rest).trans (List.take_append_drop 8 xs)).symm
      | cons head msgs =>
        obtain ⟨es, inner, rfl⟩ := Option.map_eq_some_iff.mp behind
        dsimp only [Option.toList]
        rw [entriesOf_eq inner, List.singleton_append, rest, List.take_append_drop]
    · cases read
  rw [bytes read, bytes read']

structure Outcome (ranges : List VmaRange) (file : PagemapFile) (result : RewriteResult)
    (es' : List Entry) : Prop where
  sound : List.Forall₂ (Sound ranges) file.entries es'
  out : fileOf result.out = some { file with entries := es' }
  changed : result.changed = file.entries.any fun e => e.ToRewrite ranges
  flagged : result.entriesFlagged = file.entries.countP fun e => e.ToRewrite ranges
  already : result.entriesAlreadyLazy = file.entries.countP fun e => e.NumberLazy

theorem rewritePagemap_spec (input : Bytes) (ranges : List VmaRange) :
    match fileOf input with
    | none => ∃ t, rewritePagemap input ranges = .error t
    | some file =>
      if ∃ e ∈ file.entries, e.ToRewrite ranges ∧ e.Negative then
        ∃ t, rewritePagemap input ranges = .error t
      else ∃ result es', rewritePagemap input ranges = .ok result ∧ Outcome ranges file result es' := by
  have run := rewritePagemap_messages input ranges
  unfold fileOf
  by_cases header : Header (input.take 8)
  · rw [if_pos header] at run ⊢
    cases split : messagesOf (input.drop 8) with
    | none =>
      rw [split] at run
      exact run
    | some msgs =>
      rw [split] at run
      dsimp only at run
      rw [Option.bind_some, run]
      have short : ∀ msg ∈ msgs, msg.length < 2 ^ 32 := fun msg listed => by
        obtain ⟨bs, rest, found⟩ := messageOf_cuts.all_mem split listed
        exact (messageOf_eq found).2.2
      cases msgs with
      | nil =>
        dsimp only [fileBehind]
        rw [if_neg fun found => by obtain ⟨e, listed, -⟩ := found; cases listed]
        refine ⟨_, [], rfl, .nil, ?_, rfl, rfl, rfl⟩
        have written := fileOf_header header []
        rwa [List.append_nil] at written
      | cons head msgs =>
        have entries := @appendAll_spec ranges msgs
          (fun msg listed => short msg (List.mem_cons_of_mem head listed))
          { out := input.take 8 ++ frame head }
        have first : appendAll ranges (head :: msgs) true { out := input.take 8 } =
            appendAll ranges msgs false { out := input.take 8 ++ frame head } := by
          rw [appendAll, appendRewrittenPagemapMessage]
          simp only [if_true, pure, Except.pure, bind, Except.bind, appendPagemapMessage,
            if_pos (short head List.mem_cons_self)]
          rfl
        rw [first, fileBehind]
        cases read : entriesOf msgs with
        | none =>
          rw [read] at entries
          exact entries
        | some es =>
          rw [read] at entries
          dsimp only [Option.map_some] at entries ⊢
          split
          · rename_i negative
            rwa [if_pos negative] at entries
          · rename_i fine
            rw [if_neg fine] at entries
            obtain ⟨es', sounds, done⟩ := entries
            refine ⟨_, es', done, sounds, ?_, ?_, ?_, ?_⟩
            · have listed : ∀ e' ∈ es', entryOf e'.bytes = some e' ∧ e'.bytes.length < 2 ^ 32 := fun e' member => by
                obtain ⟨e, sound⟩ := forall₂_left (List.Forall₂.flip (R := flip (Sound ranges)) sounds) e' member
                exact ⟨sound.read, sound.short⟩
              have framed : messagesOf ((head :: es'.map Entry.bytes).flatMap frame) =
                  some (head :: es'.map Entry.bytes) := messagesOf_frames fun msg member => by
                rcases List.mem_cons.mp member with rfl | member
                · exact short msg List.mem_cons_self
                · obtain ⟨e', mine, rfl⟩ := List.mem_map.mp member
                  exact (listed e' mine).2
              rw [RewriteResult.addAll, List.append_assoc, ← List.flatMap_cons, fileOf_header header, framed,
                Option.bind_some, fileBehind, entriesOf_written fun e' member => (listed e' member).1]
              rfl
            · exact Bool.false_or _
            · exact Nat.zero_add _
            · exact Nat.zero_add _
  · rw [if_neg header] at run ⊢
    exact run

/-- The entry with its flag set, if it is to be marked, and otherwise the same. -/
def Entry.Expected (ranges : List VmaRange) (e e' : Entry) : Prop :=
  if e.ToMark ranges then e.WithFlags e' (e.flags ||| PE_LAZY) else e' = e

/-- The output is the same image with the entries marked that are to be, the counts are right, and
another rewriting changes nothing. -/
def Faithful (ranges : List VmaRange) (input : Bytes) (result : RewriteResult) : Prop :=
  ∃ file es', fileOf input = some file ∧ fileOf result.out = some { file with entries := es' } ∧
    List.Forall₂ (Entry.Expected ranges) file.entries es' ∧
    result.changed = file.entries.any (fun e => e.ToMark ranges) ∧
    result.entriesFlagged = file.entries.countP (fun e => e.ToMark ranges) ∧
    result.entriesAlreadyLazy = file.entries.countP (fun e => e.Lazy) ∧
    ∃ already, rewritePagemap result.out ranges =
      .ok { out := result.out, changed := false, entriesFlagged := 0, entriesAlreadyLazy := already }

namespace Entry

theorem last_none {e : Entry} (others : ∀ f ∈ e, ¬ f.Holds 4) : last 4 e = none := by
  induction e with
  | nil => rfl
  | cons f fs ih =>
    rw [last, ih fun g listed => others g (List.mem_cons_of_mem f listed), if_neg (others f List.mem_cons_self)]
    rfl

theorem WithFlags.flags {e e' : Entry} {n : Nat} (written : e.WithFlags e' n) : e'.flags = n := by
  obtain ⟨front, f, back, body, -, holds, rest, rfl, rfl⟩ := written
  have found : last 4 (front ++ ⟨f.tag, body⟩ :: back) = some (Varint.value body) := by
    induction front with
    | nil =>
      rw [List.nil_append, last, last_none rest, if_pos (show Field.Holds ⟨f.tag, body⟩ 4 from holds)]
      rfl
    | cons g front ih =>
      rw [List.cons_append, last, ih]
      rfl
  rw [Entry.flags, found]
  rfl

variable {ranges : List VmaRange} {e e' : Entry}

theorem toRewrite_iff (small : e.flags < 2 ^ 32) : e.ToRewrite ranges ↔ e.ToMark ranges := by
  unfold ToRewrite ToMark NumberLazy NumberPresent Lazy Present
  rw [number_small (by omega)]

theorem newFlags_small (small : e.flags < 2 ^ 32) : LazyPagemap.newFlags e.flags = e.flags ||| PE_LAZY := by
  rw [LazyPagemap.newFlags, number_small (by omega), Nat.mod_eq_of_lt small]

theorem newFlags_word (flags : Nat) : LazyPagemap.newFlags flags < 2 ^ 32 :=
  or_lazy_lt (Nat.mod_lt _ (by decide)) (by decide)

theorem Becomes.settled (becomes : e.Becomes ranges e') : ¬ e'.ToRewrite ranges := by
  unfold Becomes at becomes
  split at becomes
  · intro again
    apply again.1
    rw [NumberLazy, becomes.flags, number_small (Nat.lt_trans (newFlags_word _) (by decide)),
      LazyPagemap.newFlags, Nat.testBit_or]
    exact Bool.or_true _
  · rename_i left
    rwa [becomes]

theorem expected_iff (becomes : e.Becomes ranges e') :
    e.Expected ranges e' ↔ (e.ToMark ranges ∨ e.ToRewrite ranges → e.flags < 2 ^ 32) := by
  unfold Becomes at becomes
  unfold Expected
  constructor
  · intro expected matters
    by_cases rewrites : e.ToRewrite ranges
    · rw [if_pos rewrites] at becomes
      have word := newFlags_word e.flags
      rw [← becomes.flags] at word
      by_cases marks : e.ToMark ranges
      · rw [if_pos marks] at expected
        have more : e.flags ≤ e.flags ||| PE_LAZY := Nat.left_le_or
        rw [← expected.flags] at more
        exact Nat.lt_of_le_of_lt more word
      · rw [if_neg marks] at expected
        rwa [expected] at word
    · have marks := matters.resolve_right rewrites
      rw [if_neg rewrites] at becomes
      rw [if_pos marks, becomes] at expected
      have set : e.Lazy := by
        rw [Lazy, expected.flags, Nat.testBit_or]
        exact Bool.or_true _
      exact absurd set marks.1
  · intro small
    by_cases marks : e.ToMark ranges
    · have word := small (.inl marks)
      rw [if_pos ((toRewrite_iff word).mpr marks), newFlags_small word] at becomes
      rwa [if_pos marks]
    · have left : ¬ e.ToRewrite ranges := fun rewrites =>
        marks ((toRewrite_iff (small (.inr rewrites))).mp rewrites)
      rw [if_neg left] at becomes
      rwa [if_neg marks]

end Entry

theorem Outcome.again {ranges : List VmaRange} {file : PagemapFile} {result : RewriteResult}
    {es' : List Entry} (outcome : Outcome ranges file result es') :
    ∃ already, rewritePagemap result.out ranges =
      .ok { out := result.out, changed := false, entriesFlagged := 0, entriesAlreadyLazy := already } := by
  have settled : ∀ e' ∈ es', ¬ e'.ToRewrite ranges := fun e' member => by
    obtain ⟨e, sound⟩ := forall₂_left (List.Forall₂.flip (R := flip (Sound ranges)) outcome.sound) e' member
    exact sound.becomes.settled
  have second := rewritePagemap_spec result.out ranges
  rw [outcome.out] at second
  dsimp only at second
  rw [if_neg fun found => by obtain ⟨e', member, rewrites, -⟩ := found; exact settled e' member rewrites] at second
  obtain ⟨result', es'', done, next⟩ := second
  have same : es'' = es' := by
    have equal : List.Forall₂ (fun e e' => e' = e) es' es'' := by
      refine List.Forall₂.imp ?_ ((List.forall₂_and_left _ _).mpr ⟨settled, next.sound⟩)
      rintro e' e'' ⟨left, sound⟩
      have becomes := sound.becomes
      rwa [Entry.Becomes, if_neg left] at becomes
    exact (List.forall₂_eq_eq_eq ▸ equal.flip : es'' = es')
  have out : result'.out = result.out := by
    have written := next.out
    rw [same] at written
    exact fileOf_injective written outcome.out
  have none_ : (es'.any fun e => e.ToRewrite ranges) = false := by
    simpa using settled
  have zero : (es'.countP fun e => e.ToRewrite ranges) = 0 := by
    simpa using settled
  refine ⟨result'.entriesAlreadyLazy, ?_⟩
  rw [done, ← out, ← zero, ← next.flagged, ← none_, ← next.changed]

/-- The rewriting does what it is for just when an entry that is marked, or that is to be, has flags of
32 bits, and flags are found lazy as often as they are, unless flags that are negative stop it. -/
theorem rewritePagemap_faithful_iff (input : Bytes) (ranges : List VmaRange) :
    (∀ result, rewritePagemap input ranges = .ok result → Faithful ranges input result) ↔
      ∀ file, fileOf input = some file →
        (∃ e ∈ file.entries, e.ToRewrite ranges ∧ e.Negative) ∨
        (∀ e ∈ file.entries, e.ToMark ranges ∨ e.ToRewrite ranges → e.flags < 2 ^ 32) ∧
          file.entries.countP (fun e => e.NumberLazy) = file.entries.countP (fun e => e.Lazy) := by
  have run := rewritePagemap_spec input ranges
  constructor
  · intro faithful file read
    rw [read] at run
    dsimp only at run
    by_cases negative : ∃ e ∈ file.entries, e.ToRewrite ranges ∧ e.Negative
    · exact .inl negative
    rw [if_neg negative] at run
    obtain ⟨result, es', done, outcome⟩ := run
    obtain ⟨file', es'', read', out, expected, -, -, already, -⟩ := faithful result done
    obtain rfl : file = file' := Option.some.inj (read.symm.trans read')
    have same : es' = es'' := by
      have equal := outcome.out.symm.trans out
      exact congrArg PagemapFile.entries (Option.some.inj equal)
    subst same
    refine .inr ⟨?_, outcome.already.symm.trans already⟩
    have each : List.Forall₂ (fun e _ => e.ToMark ranges ∨ e.ToRewrite ranges → e.flags < 2 ^ 32)
        file.entries es' :=
      List.Forall₂.mp (fun _ _ sound mine => (Entry.expected_iff sound.becomes).mp mine) outcome.sound expected
    exact fun e member => (forall₂_left each e member).elim fun _ small => small
  · intro fine result done
    cases read : fileOf input with
    | none =>
      rw [read] at run
      obtain ⟨t, failed⟩ := run
      rw [failed] at done
      cases done
    | some file =>
      rw [read] at run
      dsimp only at run
      by_cases negative : ∃ e ∈ file.entries, e.ToRewrite ranges ∧ e.Negative
      · rw [if_pos negative] at run
        obtain ⟨t, failed⟩ := run
        rw [failed] at done
        cases done
      rw [if_neg negative] at run
      obtain ⟨result', es', done', outcome⟩ := run
      obtain rfl : result = result' := Except.ok.inj (done.symm.trans done')
      obtain ⟨small, counted⟩ := (fine file read).resolve_left negative
      have judged : ∀ e ∈ file.entries, decide (e.ToRewrite ranges) = true ↔ decide (e.ToMark ranges) = true := by
        intro e member
        rw [decide_eq_true_eq, decide_eq_true_eq]
        exact ⟨fun rewrites => (Entry.toRewrite_iff (small e member (.inr rewrites))).mp rewrites,
          fun marks => (Entry.toRewrite_iff (small e member (.inl marks))).mpr marks⟩
      refine ⟨file, es', read, outcome.out, ?_, ?_, ?_, outcome.already.trans counted, outcome.again⟩
      · refine List.Forall₂.imp ?_ ((List.forall₂_and_left _ _).mpr ⟨small, outcome.sound⟩)
        rintro e e' ⟨mine, sound⟩
        exact (Entry.expected_iff sound.becomes).mpr mine
      · rw [outcome.changed, Bool.eq_iff_iff, List.any_eq_true, List.any_eq_true]
        exact exists_congr fun e => and_congr_right fun member => judged e member
      · rw [outcome.flagged]
        exact List.countP_congr judged

/-- An image with one entry, of one page at 4096. -/
def onePage (flags : Bytes) : Bytes :=
  le 4 IMG_COMMON_MAGIC ++ le 4 PAGEMAP_MAGIC ++ frame [] ++ frame ([8, 0x80, 0x20, 32] ++ flags ++ [40, 1])

def onePageEntry (flags : Bytes) : Entry := [⟨[8], [0x80, 0x20]⟩, ⟨[32], flags⟩, ⟨[40], [1]⟩]

/-- Flags with bit 32 lose it when the entry is marked. -/
theorem wide_flags_lost : ¬ ∀ result,
    rewritePagemap (onePage (Varint.encode 9 (2 ^ 32 + 4))) [⟨4096, 8192⟩] = .ok result →
      Faithful [⟨4096, 8192⟩] (onePage (Varint.encode 9 (2 ^ 32 + 4))) result := by
  intro faithful
  have done : rewritePagemap (onePage (Varint.encode 9 (2 ^ 32 + 4))) [⟨4096, 8192⟩] =
      .ok { out := onePage [6], changed := true, entriesFlagged := 1 } := by rfl
  have before : (fileOf (onePage (Varint.encode 9 (2 ^ 32 + 4)))).map PagemapFile.entries =
      some [onePageEntry (Varint.encode 9 (2 ^ 32 + 4))] := by decide +kernel
  have after_ : (fileOf (onePage [6])).map PagemapFile.entries = some [onePageEntry [6]] := by
    decide +kernel
  obtain ⟨file, es', read, out, expected, -⟩ := faithful _ done
  rw [read] at before
  rw [out] at after_
  obtain rfl : es' = [onePageEntry [6]] := Option.some.inj after_
  rw [show file.entries = _ from Option.some.inj before] at expected
  cases expected with
  | cons mine _ =>
    have marks : (onePageEntry (Varint.encode 9 (2 ^ 32 + 4))).ToMark [⟨4096, 8192⟩] := by decide +kernel
    rw [Entry.Expected, if_pos marks] at mine
    have flags := mine.flags
    revert flags
    decide +kernel

end Machinen.Runtime.LazyPagemap
