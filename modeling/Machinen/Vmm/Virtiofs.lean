import Machinen.Lib.Scatter
import Machinen.Mount.Protocol
import Machinen.Vmm.BlkCompletion
import Machinen.Vmm.ExactlyOnce
import Mathlib.Data.List.TakeWhile

/-! The virtio-fs transport: what `handle_request` gathers from a chain, what of the answer it lays
over the writable descriptors, and the one used entry that completes the chain. -/
namespace Machinen.Vmm.Virtiofs

open Bytes Scatter

variable {S : Type}

def MAX_FUSE_MESSAGE : Nat := 256 * 1024
def MAX_CHAIN_DESCRIPTORS : Nat := 256

/-- What `fuse.dispatch` returns: a frame, whose header has 32 bits for its length, nothing, or
the error of an allocation. -/
inductive Answer where
  | reply (frame : Bytes) (short : frame.length < 2 ^ 32)
  | noReply
  | failed

/-- The request handlers, with a state of their own; none where they stop the process. -/
abbrev Dispatch (S : Type) := S → Bytes → Option (S × Answer)

structure Gathered where
  req : Bytes := []
  writable : List VringDesc := []

/-- One descriptor of the walk; the inner none ends the walk. -/
def takeDescriptor (m : Memory) (d : VringDesc) (g : Gathered) : Option (Option Gathered) :=
  if d.isWritable then
    some (some (if g.writable.length < MAX_CHAIN_DESCRIPTORS then
      { g with writable := g.writable ++ [d] } else g))
  else if 0 < d.len then do
    match ← m.guestSlice d.addr d.len with
    | none => return none
    | some src =>
      let take := min d.len (MAX_FUSE_MESSAGE - g.req.length)
      return some { g with req := g.req ++ slice m.bytes src take }
  else some (some g)

def gatherRequest (m : Memory) (dev : Device) (qIdx : Nat) : Nat → Nat → Gathered → Option Gathered
  | 0, _, g => some g
  | steps + 1, idx, g => do
    match ← queueDescriptor m dev qIdx idx with
    | none => return g
    | some d =>
      match ← takeDescriptor m d g with
      | none => return g
      | some taken => if d.hasNext then gatherRequest m dev qIdx steps d.next taken else return taken

def scatterReply (reply : Bytes) : List VringDesc → Memory → Nat → Nat → Option (Memory × Nat)
  | [], m, _, written => some (m, written)
  | wd :: rest, m, off, written =>
    if reply.length ≤ off then some (m, written)
    else do
      match ← m.guestSlice wd.addr wd.len with
      | none => return (m, written)
      | some dst =>
        let n := min wd.len (reply.length - off)
        let total ← u32 (written + n)
        scatterReply reply rest (m.write dst (slice reply off n)) (off + n) total

def handleRequest (dispatch : Dispatch S) : Handler S := fun s m dev qIdx head => do
  let g ← gatherRequest m dev qIdx MAX_CHAIN_DESCRIPTORS head {}
  if g.req.length < Mount.fuseInHeaderSize then
    let pushed ← queuePushUsed m dev qIdx head 0
    return (s, pushed, dev)
  else
    let (s', answer) ← dispatch s g.req
    match answer with
    | .reply frame _ =>
      let (filled, written) ← scatterReply frame g.writable m 0 0
      let pushed ← queuePushUsed filled dev qIdx head written
      return (s', pushed, dev)
    | .noReply | .failed =>
      let pushed ← queuePushUsed m dev qIdx head 0
      return (s', pushed, dev)

/-- The descriptors that a walk of so many steps comes to; on a cycle it goes round. -/
def descriptors (m : Memory) (q : Queue) : Nat → Nat → List VringDesc
  | 0, _ => []
  | steps + 1, idx =>
    match readDescriptor m q idx with
    | some (some d) => d :: if d.hasNext then descriptors m q steps d.next else []
    | _ => []

/-- The device can use the descriptor: an empty one that it reads is skipped. -/
def Usable (m : Memory) (d : VringDesc) : Prop :=
  d.isWritable = false → d.len ≠ 0 → m.Contains d.addr d.len

instance (m : Memory) (d : VringDesc) : Decidable (Usable m d) := inferInstanceAs (Decidable (_ → _ → _))

def reached (m : Memory) (ds : List VringDesc) : List VringDesc := ds.takeWhile fun d => Usable m d

def readable (ds : List VringDesc) : List VringDesc := ds.filter fun d => !d.isWritable

def writable (ds : List VringDesc) : List VringDesc := ds.filter VringDesc.isWritable

def request (m : Memory) (ds : List VringDesc) : Bytes :=
  (m.contents (readable (reached m ds))).take MAX_FUSE_MESSAGE

def inRam (m : Memory) (ds : List VringDesc) : List VringDesc :=
  ds.takeWhile fun d => m.Contains d.addr d.len

def window (m : Memory) (ds : List VringDesc) : List VringDesc := inRam m (writable (reached m ds))

def segment (m : Memory) (d : VringDesc) : Segment := ⟨d.addr - m.base, d.len⟩

def Answer.bytes : Answer → Bytes
  | .reply frame _ => frame
  | .noReply | .failed => []

structure Placed (m : Memory) (q : Queue) : Prop extends UsedRing m q where
  table : m.base ≤ q.descAddr ∧ q.descAddr + 16 * q.num ≤ m.base + m.bytes.length

def BesideUsed (q : Queue) (d : VringDesc) : Prop :=
  d.addr + d.len ≤ q.deviceAddr ∨ q.deviceAddr + 4 + 8 * q.num ≤ d.addr

structure Completed (m m' : Memory) (q : Queue) (head : Nat) (ws : List VringDesc) (reply : Bytes) :
    Prop where
  base : m'.base = m.base
  length : m'.bytes.length = m.bytes.length
  /-- The reply is laid over the descriptors in order, then the entry is published; nothing else is
  written. -/
  laid : ∃ filled : Memory, filled.base = m.base ∧
    filled.bytes = scatter m.bytes (ws.map (segment m)) reply ∧
    m'.bytes = pushedBytes filled q head (min (room ws) reply.length) ∧
    OneUsed q filled m' head (min (room ws) reply.length)
  untouched : ∀ i, (∀ d ∈ ws, d.Misses (m.base + i)) →
    (m.base + i < q.deviceAddr ∨ q.deviceAddr + 4 + 8 * q.num ≤ m.base + i) → m'.bytes[i]? = m.bytes[i]?
  /-- Buffers that lie beside one another and the used ring hold the reply, and behind it what they
  held. -/
  holds : (∀ d ∈ ws, BesideUsed q d) →
    (ws.Pairwise fun a b => a.addr + a.len ≤ b.addr ∨ b.addr + b.len ≤ a.addr) →
    OneUsed q m m' head (min (room ws) reply.length) ∧
      m'.contents ws = reply.take (room ws) ++ (m.contents ws).drop reply.length

variable {reply : Bytes} {ws : List VringDesc}

theorem take_append_take {A : Type} (n : Nat) (xs ys : List A) :
    (xs.take n ++ ys).take n = (xs ++ ys).take n := by
  by_cases short : xs.length ≤ n
  · rw [List.take_of_length_le short]
  · have full : (xs.take n).length = n := List.length_take_of_le (by omega)
    rw [List.take_append_of_le_length (by omega), List.take_append_of_le_length (by omega),
      List.take_take, Nat.min_self]

section Walk

variable {m : Memory} {q : Queue}

theorem contents_cons_readable (m : Memory) (d : VringDesc) (rest : List VringDesc) :
    m.contents (readable (d :: rest)) = m.contents (readable [d]) ++ m.contents (readable rest) := by
  have parts : readable (d :: rest) = readable [d] ++ readable rest := by
    rw [readable, readable, readable, ← List.filter_append, List.singleton_append]
  rw [parts, Memory.contents, Memory.contents, Memory.contents, List.flatMap_append]

theorem writable_cons (d : VringDesc) (rest : List VringDesc) :
    writable (d :: rest) = writable [d] ++ writable rest := by
  rw [writable, writable, writable, ← List.filter_append, List.singleton_append]

theorem Placed.readDescriptor (placed : Placed m q) (idx : Nat) :
    ∃ found, Vmm.readDescriptor m q idx = some found := by
  have word := placed.word
  have table := placed.table
  apply Option.isSome_iff_exists.mp
  rw [readDescriptor_isSome]
  by_cases outside : q.num ≤ idx
  · exact .inl outside
  · exact .inr ⟨by omega, fun _ => by omega⟩

theorem takeDescriptor_eq {d : VringDesc} {g : Gathered} (ends : m.Ends d.addr d.len)
    (room : g.writable.length < MAX_CHAIN_DESCRIPTORS) (short : g.req.length ≤ MAX_FUSE_MESSAGE) :
    takeDescriptor m d g = some (if Usable m d then some
      { req := (g.req ++ m.contents (readable [d])).take MAX_FUSE_MESSAGE
        writable := g.writable ++ writable [d] } else none) := by
  have fits : g.req.take MAX_FUSE_MESSAGE = g.req := List.take_of_length_le short
  unfold takeDescriptor
  by_cases write : d.isWritable = true
  · have usable : Usable m d := fun reads => by rw [write] at reads; cases reads
    have nothing : m.contents (readable [d]) = [] := by simp [readable, write, Memory.contents]
    have listed : writable [d] = [d] := by simp [writable, write]
    rw [if_pos write, if_pos room, if_pos usable, nothing, List.append_nil, listed, fits]
  · have reads : d.isWritable = false := Bool.not_eq_true _ ▸ write
    have nothing : writable [d] = [] := by simp [writable, reads]
    have listed : m.contents (readable [d]) = m.buffer d := by simp [readable, reads, Memory.contents]
    rw [if_neg write, nothing, List.append_nil, listed]
    by_cases empty : d.len = 0
    · have usable : Usable m d := fun _ some_ => absurd empty some_
      have none_ : m.buffer d = [] := by rw [Memory.buffer, empty]; exact List.take_zero
      rw [if_neg (by omega), if_pos usable, none_, List.append_nil, fits]
    · rw [if_pos (by omega), guestSlice_eq ends]
      by_cases inside : m.Contains d.addr d.len
      · have usable : Usable m d := fun _ _ => inside
        have cut : slice m.bytes (d.addr - m.base) (min d.len (MAX_FUSE_MESSAGE - g.req.length)) =
            (m.buffer d).take (MAX_FUSE_MESSAGE - g.req.length) := by
          rw [Memory.buffer, slice, slice, List.take_take, Nat.min_comm]
        rw [if_pos inside, if_pos usable, List.take_append, fits, ← cut]
        rfl
      · have blocked : ¬ Usable m d := fun usable => inside (usable reads empty)
        rw [if_neg inside, if_neg blocked]
        rfl

theorem gatherRequest_eq {dev : Device} {qIdx : Nat} (queue : dev.queue? qIdx = some q)
    (placed : Placed m q) (steps idx : Nat) (g : Gathered)
    (space : g.writable.length + steps ≤ MAX_CHAIN_DESCRIPTORS) (short : g.req.length ≤ MAX_FUSE_MESSAGE)
    (ends : ∀ d ∈ descriptors m q steps idx, m.Ends d.addr d.len) :
    gatherRequest m dev qIdx steps idx g = some
      { req := (g.req ++ m.contents (readable (reached m (descriptors m q steps idx)))).take
          MAX_FUSE_MESSAGE
        writable := g.writable ++ writable (reached m (descriptors m q steps idx)) } := by
  have ended : ∀ g : Gathered, g.req.length ≤ MAX_FUSE_MESSAGE →
      g = { req := (g.req ++ m.contents (readable (reached m []))).take MAX_FUSE_MESSAGE
            writable := g.writable ++ writable (reached m []) } := fun g short => by
    have nothing : m.contents (readable (reached m [])) = [] := rfl
    have none_ : writable (reached m []) = [] := rfl
    rw [nothing, none_, List.append_nil, List.append_nil, List.take_of_length_le short]
  induction steps generalizing idx g with
  | zero => exact congrArg some (ended g short)
  | succ steps ih =>
    obtain ⟨found, read⟩ := placed.readDescriptor idx
    rw [gatherRequest, queueDescriptor_eq queue, read, Option.bind_eq_bind, Option.bind_some]
    unfold descriptors at ends ⊢
    rw [read] at ends ⊢
    cases found with
    | none => exact congrArg some (ended g short)
    | some d =>
      dsimp only at ends ⊢
      have few : (writable [d]).length ≤ 1 := List.length_filter_le _ [d]
      rw [takeDescriptor_eq (ends d List.mem_cons_self) (by omega) short, Option.bind_eq_bind,
        Option.bind_some]
      by_cases usable : Usable m d
      · have listed : ∀ rest, reached m (d :: rest) = d :: reached m rest := fun rest =>
          List.takeWhile_cons_of_pos (decide_eq_true usable)
        rw [if_pos usable, listed]
        dsimp only
        by_cases next : d.hasNext = true
        · rw [if_pos next] at ends ⊢
          rw [if_pos next, ih d.next _ (by rw [List.length_append]; omega) (List.length_take_le _ _)
            fun e rest => ends e (List.mem_cons_of_mem d rest)]
          rw [take_append_take, contents_cons_readable m d (reached m _), writable_cons d (reached m _),
            List.append_assoc, List.append_assoc]
        · rw [if_neg next, if_neg next]
          rfl
      · have stopped : ∀ rest, reached m (d :: rest) = reached m [] := fun rest =>
          List.takeWhile_cons_of_neg (by simpa using usable)
        rw [if_neg usable, stopped]
        exact congrArg some (ended g short)

theorem capacity_eq (m : Memory) (ws : List VringDesc) : capacity (ws.map (segment m)) = room ws := by
  rw [capacity, room, List.map_map]
  rfl

theorem room_cons (d : VringDesc) (rest : List VringDesc) : room (d :: rest) = d.len + room rest := by
  rw [room, room, List.map_cons, List.sum_cons]

theorem inRam_congr {m' : Memory} (base : m'.base = m.base) (length : m'.bytes.length = m.bytes.length)
    (ds : List VringDesc) : inRam m' ds = inRam m ds := by
  simp only [inRam, contains_congr base length]

theorem segment_congr {m' : Memory} (base : m'.base = m.base) : segment m' = segment m := by
  funext d
  rw [segment, segment, base]

theorem scatterReply_eq (short : reply.length < 2 ^ 32) (ws : List VringDesc) (m : Memory) {off : Nat}
    (inside : off ≤ reply.length) (ends : ∀ d ∈ ws, m.Ends d.addr d.len) :
    ∃ filled : Memory, scatterReply reply ws m off off = some (filled,
        min (off + room (inRam m ws)) reply.length) ∧
      filled.base = m.base ∧ filled.bytes =
        scatter m.bytes ((inRam m ws).map (segment m))
          (reply.drop off) := by
  induction ws generalizing m off with
  | nil =>
    refine ⟨m, ?_, rfl, rfl⟩
    rw [inRam, List.takeWhile_nil, room, List.map_nil, List.sum_nil, Nat.add_zero, Nat.min_eq_left inside]
    rfl
  | cons wd rest ih =>
    rw [scatterReply]
    by_cases done : reply.length ≤ off
    · refine ⟨m, ?_, rfl, ?_⟩
      · rw [if_pos done, Nat.min_eq_right (by omega), Nat.le_antisymm inside done]
      · rw [List.drop_of_length_le done, scatter_nil]
    · rw [if_neg done, guestSlice_eq (ends wd List.mem_cons_self), Option.bind_eq_bind, Option.bind_some]
      by_cases here : m.Contains wd.addr wd.len
      · have bound : off + min wd.len (reply.length - off) < 2 ^ 32 := by omega
        have piece : slice reply off (min wd.len (reply.length - off)) = (reply.drop off).take wd.len := by
          rw [slice, ← List.length_drop, ← List.take_eq_take_min]
        obtain ⟨filled, copied, base, bytes⟩ := ih
          (m.write (wd.addr - m.base) (slice reply off (min wd.len (reply.length - off))))
          (show off + min wd.len (reply.length - off) ≤ reply.length by omega)
          (fun d listed => ends d (List.mem_cons_of_mem wd listed))
        have first : inRam m (wd :: rest) = wd :: inRam m rest :=
          List.takeWhile_cons_of_pos (decide_eq_true here)
        have later : inRam (m.write (wd.addr - m.base) (slice reply off (min wd.len (reply.length - off))))
            rest = inRam m rest := inRam_congr (Memory.write_base _ _ _) (store_length _ _ _) rest
        rw [later] at copied bytes
        refine ⟨filled, ?_, base, ?_⟩
        · rw [if_pos here, first, room_cons]
          dsimp only
          rw [u32, if_pos bound, Option.bind_eq_bind, Option.bind_some, copied]
          congr 2
          omega
        · rw [bytes, first, List.map_cons, scatter, segment_congr rfl, piece, List.drop_drop,
            Memory.write_bytes]
          have left : reply.drop (off + min wd.len (reply.length - off)) = reply.drop (off + wd.len) := by
            rcases Nat.le_total wd.len (reply.length - off) with full | short_
            · rw [Nat.min_eq_left full]
            · rw [Nat.min_eq_right short_, List.drop_of_length_le (by omega),
                List.drop_of_length_le (by omega)]
          rw [left]
          rfl
      · have stopped : inRam m (wd :: rest) = [] := List.takeWhile_cons_of_neg (by simpa using here)
        refine ⟨m, ?_, rfl, ?_⟩
        · rw [if_neg here, stopped, room, List.map_nil, List.sum_nil, Nat.add_zero, Nat.min_eq_left inside]
          rfl
        · rw [stopped]
          rfl

end Walk

section Completion

variable {m m' filled : Memory} {q : Queue} {head len : Nat}

theorem slice_kept (ring : UsedRing m q)
    (inside : ∀ d ∈ ws, m.Contains d.addr d.len) (beside : ∀ d ∈ ws, BesideUsed q d) {off n : Nat}
    (low : q.deviceAddr - m.base ≤ off) (high : off + n ≤ q.deviceAddr - m.base + 4 + 8 * q.num) :
    slice (scatter m.bytes (ws.map (segment m)) reply) off n = slice m.bytes off n := by
  have used := ring.used
  refine slice_scatter m.bytes _ reply ⟨off, n⟩ fun t listed => ?_
  obtain ⟨d, member, rfl⟩ := List.mem_map.mp listed
  have above := (inside d member).1
  unfold Segment.Apart segment
  rcases beside d member with before | behind
  · exact .inr (by dsimp only; omega)
  · exact .inl (by dsimp only; omega)

theorem completed_of_pushed (ring : UsedRing m q)
    (inside : ∀ d ∈ ws, m.Contains d.addr d.len) (filled_base : filled.base = m.base)
    (filled_bytes : filled.bytes = scatter m.bytes (ws.map (segment m)) reply)
    (base : m'.base = filled.base)
    (bytes : m'.bytes = pushedBytes filled q head (min (room ws) reply.length)) :
    Completed m m' q head ws reply := by
  have filled_length : filled.bytes.length = m.bytes.length := by rw [filled_bytes, scatter_length]
  have filled_ring : UsedRing filled q := ring.congr filled_base filled_length
  have published : OneUsed q filled m' head (min (room ws) reply.length) :=
    filled_ring.oneUsed base bytes
  have used := ring.used
  refine ⟨base.trans filled_base, ?_, ⟨filled, filled_base, filled_bytes, bytes, published⟩,
    fun i misses outside => ?_,
    fun beside apart => ⟨?_, ?_⟩⟩
  · rw [bytes, pushedBytes_length, filled_length]
  · rw [bytes, filled_ring.pushedBytes_getElem? (by rw [filled_base]; exact outside), filled_bytes]
    refine scatter_outside _ _ _ fun t listed => ?_
    obtain ⟨d, member, rfl⟩ := List.mem_map.mp listed
    have above := (inside d member).1
    rcases misses d member with before | behind
    · exact .inl (by unfold segment; dsimp only; omega)
    · exact .inr (by unfold segment; dsimp only; omega)
  · have index : usedIdx filled q = usedIdx m q := by
      unfold usedIdx
      rw [filled_bytes, filled_base, slice_kept ring inside beside (by omega) (by omega)]
    have entries : ∀ i, usedEntry filled q i = usedEntry m q i := fun i => by
      have slot := ring.slot_lt i
      unfold usedEntry
      rw [filled_bytes, filled_base, slice_kept ring inside beside (by omega) (by omega)]
    obtain ⟨next, elem, others⟩ := published
    rw [index] at next elem others
    exact ⟨next, elem, fun i other => (others i other).trans (entries i)⟩
  · have kept : m'.contents ws = gather filled.bytes (ws.map (segment m)) := by
      rw [Memory.contents, gather, List.flatMap_map]
      refine List.flatMap_congr fun d member => ?_
      have above := (inside d member).1
      unfold Memory.buffer segment
      rw [bytes, base, filled_base, filled_ring.pushedBytes_outside _ _ (by
        rw [filled_base]
        rcases beside d member with before | behind
        · exact .inl (by omega)
        · exact .inr (by omega))]
    have held : m.contents ws = gather m.bytes (ws.map (segment m)) := by
      rw [Memory.contents, gather, List.flatMap_map]
      rfl
    rw [kept, filled_bytes, ← capacity_eq m ws, held]
    refine gather_scatter m.bytes _ reply ?_ ?_
    · intro t listed
      obtain ⟨d, member, rfl⟩ := List.mem_map.mp listed
      exact (inside d member).2
    · rw [List.pairwise_map]
      refine apart.imp_of_mem fun {a b} first second beside => ?_
      have low := (inside a first).1
      have low' := (inside b second).1
      unfold Segment.Apart segment
      dsimp only
      omega

end Completion

section Request

variable {m : Memory} {dev : Device} {qIdx : Nat} {q : Queue}

theorem inRam_inside (m : Memory) (ds : List VringDesc) : ∀ d ∈ inRam m ds, m.Contains d.addr d.len :=
  fun _ listed => of_decide_eq_true
    (List.mem_takeWhile_imp (p := fun d : VringDesc => m.Contains d.addr d.len) listed)

theorem acknowledged (queue : dev.queue? qIdx = some q) (ring : UsedRing m q) (head : Nat)
    (inside : ∀ d ∈ ws, m.Contains d.addr d.len) :
    ∃ m', queuePushUsed m dev qIdx head 0 = some m' ∧ Completed m m' q head ws [] := by
  obtain ⟨m', pushed, base, bytes⟩ := ring.pushUsed head 0
  have none_ : m.bytes = scatter m.bytes (ws.map (segment m)) [] := (scatter_nil _ _).symm
  refine ⟨m', ?_, completed_of_pushed ring inside rfl none_ base ?_⟩
  · rw [queuePushUsed, queue]
    exact pushed
  · rw [bytes, List.length_nil, Nat.min_zero]

theorem answered (queue : dev.queue? qIdx = some q) (ring : UsedRing m q) (head : Nat)
    (short : reply.length < 2 ^ 32) (ends : ∀ d ∈ ws, m.Ends d.addr d.len) :
    ∃ filled written m', scatterReply reply ws m 0 0 = some (filled, written) ∧
      queuePushUsed filled dev qIdx head written = some m' ∧
      Completed m m' q head (inRam m ws) reply := by
  obtain ⟨filled, copied, filled_base, filled_bytes⟩ := scatterReply_eq short ws m (Nat.zero_le _) ends
  rw [Nat.zero_add] at copied
  rw [List.drop_zero] at filled_bytes
  have filled_ring : UsedRing filled q := ring.congr filled_base (by rw [filled_bytes, scatter_length])
  obtain ⟨m', pushed, base, bytes⟩ := filled_ring.pushUsed head (min (room (inRam m ws)) reply.length)
  refine ⟨filled, _, m', copied, ?_,
    completed_of_pushed ring (inRam_inside m ws) filled_base filled_bytes base bytes⟩
  rw [queuePushUsed, queue]
  exact pushed

theorem handleRequest_spec (dispatch : Dispatch S) (queue : dev.queue? qIdx = some q)
    (placed : Placed m q) (head : Nat) (s : S)
    (ends : ∀ d ∈ descriptors m q MAX_CHAIN_DESCRIPTORS head, m.Ends d.addr d.len) :
    let ds := descriptors m q MAX_CHAIN_DESCRIPTORS head
    if (request m ds).length < Mount.fuseInHeaderSize then
      ∃ m', handleRequest dispatch s m dev qIdx head = some (s, m', dev) ∧
        Completed m m' q head (window m ds) []
    else match dispatch s (request m ds) with
      | none => handleRequest dispatch s m dev qIdx head = none
      | some (s', answer) => ∃ m', handleRequest dispatch s m dev qIdx head = some (s', m', dev) ∧
          Completed m m' q head (window m ds) answer.bytes := by
  intro ds
  have gathered : gatherRequest m dev qIdx MAX_CHAIN_DESCRIPTORS head {} =
      some ⟨request m ds, writable (reached m ds)⟩ :=
    gatherRequest_eq queue placed MAX_CHAIN_DESCRIPTORS head {} (Nat.le_of_eq (Nat.zero_add _))
      (Nat.zero_le _) ends
  have window_ends : ∀ d ∈ writable (reached m ds), m.Ends d.addr d.len := fun d listed =>
    ends d ((List.takeWhile_sublist _).mem (List.mem_of_mem_filter listed))
  obtain ⟨m', pushed, completed⟩ := acknowledged queue placed.toUsedRing head
    (inRam_inside m (writable (reached m ds)))
  unfold handleRequest
  rw [gathered, Option.bind_eq_bind, Option.bind_some]
  dsimp only
  split
  · refine ⟨m', ?_, completed⟩
    rw [pushed]
    rfl
  · cases dispatched : dispatch s (request m ds) with
    | none => rfl
    | some result =>
      obtain ⟨s', answer⟩ := result
      cases answer with
      | reply frame short =>
        obtain ⟨filled, written, m', copied, published, completed⟩ :=
          answered queue placed.toUsedRing head short window_ends
        refine ⟨m', ?_, completed⟩
        dsimp only [Option.bind_some, bind]
        rw [copied, Option.bind_some, published]
        rfl
      | noReply | failed =>
        refine ⟨m', ?_, completed⟩
        dsimp only [Option.bind_some, bind]
        rw [pushed]
        rfl

theorem whole_in_ram {ds : List VringDesc}
    (inside : ∀ d ∈ ds, d.isWritable = true ∨ d.len ≠ 0 → m.Contains d.addr d.len) :
    reached m ds = ds ∧ window m ds = writable ds := by
  have all : reached m ds = ds := List.takeWhile_eq_self_iff.mpr fun d listed =>
    decide_eq_true fun _ some_ => inside d listed (.inr some_)
  refine ⟨all, ?_⟩
  unfold window inRam
  rw [all]
  exact List.takeWhile_eq_self_iff.mpr fun d listed =>
    decide_eq_true (inside d (List.mem_of_mem_filter listed) (.inl (List.mem_filter.mp listed).2))

theorem readDescriptor_addr {idx : Nat} {d : VringDesc} (read : readDescriptor m q idx = some (some d)) :
    d.addr < 2 ^ 64 := by
  unfold readDescriptor at read
  split at read
  · cases read
  · simp only [Option.bind_eq_bind, Option.bind_eq_some_iff, Option.pure_def, Option.some.injEq,
      Option.map_eq_some_iff] at read
    obtain ⟨offset, _, found, _, off, _, rfl⟩ := read
    exact slice_lt (slice m.bytes off 16) 0 8

theorem descriptors_addr {steps idx : Nat} {d : VringDesc} (listed : d ∈ descriptors m q steps idx) :
    d.addr < 2 ^ 64 := by
  induction steps generalizing idx with
  | zero => exact nomatch listed
  | succ steps ih =>
    unfold descriptors at listed
    split at listed
    · rename_i e read
      rcases List.mem_cons.mp listed with rfl | later
      · exact readDescriptor_addr read
      · split at later
        · exact ih later
        · exact nomatch later
    · exact nomatch listed

/-- For every chain in RAM, of any shape and also one that goes round: the handlers get the bytes of
its readable descriptors, and the chain is completed once, with what its writable descriptors took of
the reply. A request without a whole header is completed but not dispatched. -/
theorem handle_request_transparent (dispatch : Dispatch S) (queue : dev.queue? qIdx = some q)
    (placed : Placed m q) (head : Nat) (s : S)
    (inside : ∀ d ∈ descriptors m q MAX_CHAIN_DESCRIPTORS head,
      d.isWritable = true ∨ d.len ≠ 0 → m.Contains d.addr d.len) :
    let ds := descriptors m q MAX_CHAIN_DESCRIPTORS head
    let req := (m.contents (readable ds)).take MAX_FUSE_MESSAGE
    (req.length < Mount.fuseInHeaderSize →
      ∃ m', handleRequest dispatch s m dev qIdx head = some (s, m', dev) ∧
        Completed m m' q head (writable ds) []) ∧
    (Mount.fuseInHeaderSize ≤ req.length → match dispatch s req with
      | none => handleRequest dispatch s m dev qIdx head = none
      | some (s', answer) => ∃ m', handleRequest dispatch s m dev qIdx head = some (s', m', dev) ∧
          Completed m m' q head (writable ds) answer.bytes) := by
  have ends : ∀ d ∈ descriptors m q MAX_CHAIN_DESCRIPTORS head, m.Ends d.addr d.len := by
    intro d listed above
    have word := placed.word
    have addr := descriptors_addr listed
    by_cases empty : d.len = 0
    · omega
    · have fits := (inside d listed (.inr empty)).2
      omega
  have served := handleRequest_spec dispatch queue placed head s ends
  obtain ⟨all, whole⟩ := whole_in_ram inside
  dsimp only at served
  rw [whole, request, all] at served
  refine ⟨fun short => ?_, fun enough => ?_⟩
  · rwa [if_pos short] at served
  · rwa [if_neg (Nat.not_lt.mpr enough)] at served

end Request

def exampleFrame : Bytes := (List.range 40).map UInt8.ofNat

def exampleChain (readable : Nat) : List VringDesc :=
  [⟨4208, readable, 1, 2⟩, ⟨4272, 10, 2, 0⟩, ⟨4256, 10, 3, 3⟩, ⟨4232, 16, 1, 1⟩]

def exampleRam (readable : Nat) : Memory where
  base := 4096
  bytes := ((exampleChain readable).flatMap VringDesc.encode) ++ zeros 48 ++ exampleFrame ++ zeros 48
  stores := []

def exampleQueue : Queue := { num := 4, ready := 1, descAddr := 4096, driverAddr := 0, deviceAddr := 4160 }

def exampleDevice : Device := { queues := [exampleQueue] }

def echo : Dispatch (List Bytes) := fun log req => some (log ++ [req],
  .reply (req.take 16) (Nat.lt_of_le_of_lt (List.length_take_le 16 req) (by decide)))

theorem example_placed (readable : Nat) : Placed (exampleRam readable) exampleQueue := by
  have length : (exampleRam readable).bytes.length = 200 := by
    simp [exampleRam, exampleChain, exampleFrame, VringDesc.encode, zeros]
  have base : (exampleRam readable).base = 4096 := rfl
  exact ⟨⟨by omega, by decide, by rw [base, length]; decide⟩, by rw [base, length]; decide⟩

/-- Sixteen bytes of the reply come back in the two buffers, of which the second is not filled. -/
theorem interleaved_request_echoed :
    ∃ m', handleRequest echo [] (exampleRam 24) exampleDevice 0 0 = some ([exampleFrame], m', exampleDevice) ∧
      Completed (exampleRam 24) m' exampleQueue 0 [⟨4256, 10, 3, 3⟩, ⟨4272, 10, 2, 0⟩]
        (exampleFrame.take 16) := by
  have chain : descriptors (exampleRam 24) exampleQueue MAX_CHAIN_DESCRIPTORS 0 =
      [⟨4208, 24, 1, 2⟩, ⟨4256, 10, 3, 3⟩, ⟨4232, 16, 1, 1⟩, ⟨4272, 10, 2, 0⟩] := by decide +kernel
  have queue : exampleDevice.queue? 0 = some exampleQueue := rfl
  have inside : ∀ d ∈ descriptors (exampleRam 24) exampleQueue MAX_CHAIN_DESCRIPTORS 0,
      d.isWritable = true ∨ d.len ≠ 0 → (exampleRam 24).Contains d.addr d.len := by
    rw [chain]
    decide +kernel
  have served := handle_request_transparent echo queue (example_placed 24) 0 [] inside
  have request : ((exampleRam 24).contents (readable (descriptors (exampleRam 24) exampleQueue
      MAX_CHAIN_DESCRIPTORS 0))).take MAX_FUSE_MESSAGE = exampleFrame := by rw [chain]; decide +kernel
  dsimp only at served
  rw [request, chain] at served
  exact served.2 (by decide)

/-- A chain in RAM with twenty bytes to read: nothing is dispatched. -/
theorem short_request_not_dispatched :
    (∀ d ∈ descriptors (exampleRam 4) exampleQueue MAX_CHAIN_DESCRIPTORS 0,
      (exampleRam 4).Contains d.addr d.len) ∧
    ((exampleRam 4).contents (readable (descriptors (exampleRam 4) exampleQueue MAX_CHAIN_DESCRIPTORS
      0))).length = 20 ∧
    (handleRequest echo [] (exampleRam 4) exampleDevice 0 0).map (·.1) = some [] := by
  have chain : descriptors (exampleRam 4) exampleQueue MAX_CHAIN_DESCRIPTORS 0 =
      [⟨4208, 4, 1, 2⟩, ⟨4256, 10, 3, 3⟩, ⟨4232, 16, 1, 1⟩, ⟨4272, 10, 2, 0⟩] := by decide +kernel
  rw [chain]
  exact ⟨by decide +kernel, by decide +kernel, by decide +kernel⟩

end Machinen.Vmm.Virtiofs
