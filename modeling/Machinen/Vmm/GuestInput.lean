import Machinen.Vmm.Trapping

/-! What a guest can do to its devices: along every run of its stores and register writes and of
the host's injections, when the process traps, and where the device reads and writes. -/
namespace Machinen.Vmm

open Bytes

variable {S P : Type} {m : Memory} {q : Queue} {steps idx base size : Nat} {dev : Device}
  {board : Board S}

section Packets

def PacketSafe (m : Memory) (q : Queue) : Nat → Nat → Nat → Prop
  | 0, _, _ => True
  | steps + 1, idx, count =>
    (q.num ≤ idx ∨ m.Addressable (q.descAddr + idx * 16) 16) ∧
      ∀ desc, readDescriptor m q idx = some (some desc) →
        (packetTake desc count ≠ 0 → m.Ends desc.addr (packetTake desc count)) ∧
        ((packetTake desc count ≠ 0 → m.Contains desc.addr (packetTake desc count)) → desc.hasNext = true →
          PacketSafe m q steps desc.next (count + packetTake desc count))

theorem gatherPacket_isSome {written : Bytes} :
    (gatherPacket m q steps idx written).isSome ↔ PacketSafe m q steps idx written.length := by
  induction steps generalizing idx written with
  | zero => exact iff_of_true rfl trivial
  | succ steps ih =>
    have next (desc : VringDesc) (more : Bytes) :
        (if desc.hasNext then gatherPacket m q steps desc.next more else some (some more)).isSome ↔
          (desc.hasNext = true → PacketSafe m q steps desc.next more.length) := by
      rw [← ih]
      split
      · rename_i goes
        simp only [goes, forall_const]
      · rename_i last
        exact iff_of_true rfl fun goes => absurd goes last
    have one (desc : VringDesc) (read : readDescriptor m q idx = some (some desc)) :
        (gatherPacket m q (steps + 1) idx written).isSome ↔
        (packetTake desc written.length ≠ 0 → m.Ends desc.addr (packetTake desc written.length)) ∧
        ((packetTake desc written.length ≠ 0 → m.Contains desc.addr (packetTake desc written.length)) →
          desc.hasNext = true → PacketSafe m q steps desc.next
            (written.length + packetTake desc written.length)) := by
      rw [gatherPacket, read]
      dsimp only [bind, Option.bind_some]
      split
      · rename_i nothing
        rw [next desc written, nothing]
        simp only [ne_eq, not_true_eq_false, false_implies, true_and, forall_const, Nat.add_zero]
      · rename_i some_
        simp only [ne_eq, some_, not_false_eq_true, forall_const]
        rw [bind_isSome, Memory.guestSlice_isSome]
        refine and_congr_right fun ends => ?_
        obtain ⟨found, sliced⟩ := Option.isSome_iff_exists.mp (Memory.guestSlice_isSome.mpr ends)
        have found_eq := Memory.guestSlice_contains sliced
        rw [sliced]
        simp only [Option.some.injEq, forall_eq']
        by_cases inside : m.Contains desc.addr (packetTake desc written.length)
        · rw [if_pos inside] at found_eq
          subst found_eq
          dsimp only
          rw [next, List.length_append, slice_length _ _ _ inside.2]
          exact ⟨fun rest _ => rest, fun rest => rest inside⟩
        · rw [if_neg inside] at found_eq
          subst found_eq
          exact iff_of_true rfl fun contains => absurd contains inside
    unfold PacketSafe
    rw [← readDescriptor_isSome]
    cases read : readDescriptor m q idx with
    | none =>
      rw [gatherPacket, read]
      simp
    | some found =>
      cases found with
      | none =>
        rw [gatherPacket, read]
        simp
      | some desc =>
        rw [one desc read]
        simp only [Option.isSome_some, true_and, Option.some.injEq, forall_eq']

theorem gatherPacket_short {written packet : Bytes}
    (room : written.length ≤ packetScratch) (read : gatherPacket m q steps idx written =
      some (some packet)) :
    packet.length ≤ packetScratch := by
  induction steps generalizing idx written with
  | zero =>
    cases read
    exact room
  | succ steps ih =>
    unfold gatherPacket at read
    obtain ⟨found, -, read⟩ := Option.bind_eq_some_iff.mp read
    cases found with
    | none => exact nomatch read
    | some desc =>
      have next (more : Bytes) (fits : more.length ≤ packetScratch)
          (rest : (if desc.hasNext then gatherPacket m q steps desc.next more else some (some more)) =
            some (some packet)) :
          packet.length ≤ packetScratch := by
        split at rest
        · exact ih fits rest
        · cases rest
          exact fits
      dsimp only at read
      split at read
      · exact next written room read
      · obtain ⟨found, sliced, read⟩ := Option.bind_eq_some_iff.mp read
        cases found with
        | none => exact nomatch read
        | some off =>
          refine next _ ?_ read
          rw [List.length_append, slice_length _ _ _ (Memory.guestSlice_fits sliced)]
          unfold packetTake
          omega

theorem gatherChain_short {written frame : Bytes} (room : written.length ≤ scratchLen)
    (read : gatherChain m q steps idx written = some frame) : frame.length ≤ scratchLen := by
  induction steps generalizing idx written with
  | zero =>
    cases read
    exact room
  | succ steps ih =>
    unfold gatherChain at read
    obtain ⟨found, -, read⟩ := Option.bind_eq_some_iff.mp read
    cases found with
    | none =>
      cases read
      exact room
    | some desc =>
      obtain ⟨more, taken, read⟩ := Option.bind_eq_some_iff.mp read
      have fits : more.length ≤ scratchLen := by
        rw [takeBuffer_length taken]
        unfold gathered wanted
        split <;> split <;> omega
      split at read
      · exact ih fits read
      · cases read
        exact fits

def remaining (sources : List Bytes) : Nat := (sources.map List.length).sum

theorem remaining_empty {sources : List Bytes} (empty : sources.all List.isEmpty = true) :
    remaining sources = 0 := by
  induction sources with
  | nil => rfl
  | cons source rest ih =>
    obtain ⟨first, others⟩ := Bool.and_eq_true_iff.mp empty
    unfold remaining at ih ⊢
    rw [List.map_cons, List.sum_cons, ih others, List.isEmpty_iff.mp first]
    rfl

theorem fillBuffer_remaining {addr budget written : Nat} {sources : List Bytes} {copy : Copy}
    (filled : fillBuffer m addr sources budget written = some copy) :
    copy.written + remaining copy.rest = written + remaining sources := by
  induction sources generalizing m addr budget written with
  | nil =>
    cases filled
    rfl
  | cons source rest ih =>
    unfold fillBuffer at filled
    split at filled
    · cases filled
      rfl
    · split at filled
      · rename_i empty
        rw [ih filled, empty]
        unfold remaining
        rw [List.map_cons, List.sum_cons, List.length_nil, Nat.zero_add]
      · obtain ⟨start, -, filled⟩ := Option.bind_eq_some_iff.mp filled
        obtain ⟨found, -, filled⟩ := Option.bind_eq_some_iff.mp filled
        have whole : remaining (source :: rest) = source.length + remaining rest := List.sum_cons
        cases found with
        | none =>
          cases filled
          rfl
        | some off =>
          dsimp only at filled
          split at filled
          · cases filled
            have left : remaining (source.drop (min budget source.length) :: rest) =
                (source.length - min budget source.length) + remaining rest := by
              rw [← List.length_drop]
              exact List.sum_cons
            dsimp only
            rw [left, whole]
            omega
          · rw [ih filled, whole]
            omega

/-- A packet that was placed was placed whole: the total that `write_packet` asserts. -/
theorem fillPacketChain_total {copy done : Copy} (walked : fillPacketChain q steps copy idx = some done)
    (ok : done.ok = true) : done.written = copy.written + remaining copy.rest := by
  induction steps generalizing copy idx with
  | zero =>
    cases walked
    have nothing := remaining_empty ok
    dsimp only
    omega
  | succ steps ih =>
    unfold fillPacketChain at walked
    obtain ⟨found, -, walked⟩ := Option.bind_eq_some_iff.mp walked
    cases found with
    | none =>
      cases walked
      cases ok
    | some desc =>
      dsimp only at walked
      split at walked
      · cases walked
        cases ok
      · obtain ⟨filled, fill, walked⟩ := Option.bind_eq_some_iff.mp walked
        have kept := fillBuffer_remaining fill
        split at walked
        · rename_i stop
          cases walked
          have nothing := remaining_empty (by simpa [ok] using stop)
          omega
        · split at walked
          · rw [ih walked, kept]
          · cases walked
            cases ok

end Packets

section Handlers

/-- A transmit chain of the net device: its buffers, then the ring that acknowledges it. -/
def EmitSafe (_ : List Bytes) (m : Memory) (dev : Device) (qIdx head : Nat) : Prop :=
  ∀ q, dev.queue? qIdx = some q → GatherSafe m q maxChainDescriptors head 0 ∧ UsedSafe m q

theorem emitChain_exact : Handler.Exact emitChain EmitSafe where
  exact_ := by
    intro frames m dev qIdx head q known num
    unfold emitChain EmitSafe walkAndEmit
    simp only [known, Option.some.injEq, forall_eq']
    rw [if_neg num, Option.bind_eq_bind, bind_isSome, gatherChain_isSome]
    refine and_congr_right fun safe => ?_
    obtain ⟨written, gathered⟩ := Option.isSome_iff_exists.mp (gatherChain_isSome.mpr safe)
    rw [gathered]
    simp only [Option.some.injEq, forall_eq']
    rw [Option.bind_eq_bind, bind_isSome, pushUsed_isSome num]
    exact and_iff_left fun _ _ => rfl
  keeps := by
    intro frames m dev qIdx head frames' m' dev' ran
    unfold emitChain at ran
    split at ran
    · cases ran
    · obtain ⟨written, -, ran⟩ := Option.bind_eq_some_iff.mp ran
      obtain ⟨pushed, acknowledged, ran⟩ := Option.bind_eq_some_iff.mp ran
      cases ran
      exact ⟨rfl, pushUsed_deviceOnly acknowledged⟩

def DispatchSafe (dispatch : Dispatch S) (s : S) (m : Memory) (dev : Device) (hdr : VsockHdr)
    (body : Bytes) : Prop :=
  (dispatch s hdr body).isSome ∧ ∀ reply settle, dispatch s hdr body = some (some reply, settle) →
    InjectSafe fillPacketChain (FillSafe morePacket) [reply.encode, []] m dev

theorem dispatchGuestPacket_isSome {dispatch : Dispatch S} {s : S}
    {hdr : VsockHdr} {body : Bytes} (known : dev.queue? 0 = some q) :
    (dispatchGuestPacket dispatch s m dev hdr body).isSome ↔ DispatchSafe dispatch s m dev hdr body := by
  have placed (reply : VsockHdr) : (injectVsock m dev reply []).isSome ↔
      InjectSafe fillPacketChain (FillSafe morePacket) [reply.encode, []] m dev := by
    unfold injectVsock
    rw [if_neg (by decide : ¬ rxBodyPerPacketMax < ([] : Bytes).length)]
    exact injectInto_isSome (fun _ _ _ _ => fillPacketChain_isSome) known
  unfold dispatchGuestPacket DispatchSafe
  rw [Option.bind_eq_bind, bind_isSome]
  refine and_congr_right fun _ => ?_
  constructor
  · intro goes reply settle answered
    exact (placed reply).mp (bind_isSome.mp (goes (some reply, settle) answered)).1
  · rintro safe ⟨answer, settle⟩ answered
    cases answer with
    | none => rfl
    | some reply => exact bind_isSome.mpr ⟨(placed reply).mpr (safe reply settle answered), fun _ _ => rfl⟩

theorem dispatchGuestPacket_keeps {dispatch : Dispatch S} {s s' : S} {m' : Memory} {dev' : Device}
    {hdr : VsockHdr}
    {body : Bytes} (ran : dispatchGuestPacket dispatch s m dev hdr body = some (s', m', dev')) :
    dev'.configs = dev.configs ∧ m.DeviceOnly m' := by
  unfold dispatchGuestPacket at ran
  obtain ⟨⟨answer, settle⟩, -, ran⟩ := Option.bind_eq_some_iff.mp ran
  cases answer with
  | none =>
    cases ran
    exact ⟨rfl, .refl m⟩
  | some reply =>
    obtain ⟨⟨after, behind, placed⟩, injected, ran⟩ := Option.bind_eq_some_iff.mp ran
    cases ran
    unfold injectVsock at injected
    rw [if_neg (by decide : ¬ rxBodyPerPacketMax < ([] : Bytes).length)] at injected
    exact ⟨injectInto_configs injected, injectInto_deviceOnly fillPacketChain_deviceOnly injected⟩

/-- A chain of the vsock device. Only those of the transmit queue are looked into. -/
def TxSafe (scratch : Bytes) (dispatch : Dispatch S) (s : S) (m : Memory) (dev : Device) (qIdx head : Nat) :
    Prop :=
  ∀ q, dev.queue? qIdx = some q →
    (qIdx = queueTx → PacketSafe m q maxChainDescriptors head 0) ∧ UsedSafe m q ∧
    (qIdx = queueTx → ∀ hdr body pushed,
      (gatherPacket m q maxChainDescriptors head []).bind (·.bind (parsePacket scratch)) =
        some (hdr, body) →
      pushUsed m q head (headerSize + body.length) = some pushed →
        DispatchSafe dispatch s pushed dev hdr body)

theorem Device.queue?_first {qIdx : Nat} (known : dev.queue? qIdx = some q) :
    ∃ first, dev.queue? 0 = some first := by
  unfold Device.queue? at known ⊢
  split at known
  · obtain ⟨inside, -⟩ := List.getElem?_eq_some_iff.mp known
    exact ⟨dev.queues[0], List.getElem?_eq_getElem (by omega)⟩
  · exact nomatch known

theorem handleTxChain_exact (scratch : Bytes) (dispatch : Dispatch S) :
    Handler.Exact (handleTxChain scratch dispatch) (TxSafe scratch dispatch) where
  exact_ := by
    intro s m dev qIdx head q known num
    have acknowledged (len : Nat) : ((pushUsed m q head len).map fun pushed => (s, pushed, dev)).isSome ↔
      UsedSafe m q := by
      rw [Option.isSome_map, pushUsed_isSome num]
    unfold handleTxChain TxSafe
    simp only [known, Option.some.injEq, forall_eq']
    by_cases transmit : qIdx = queueTx
    · simp only [transmit, ne_eq, not_true_eq_false, if_false, forall_const]
      rw [Option.bind_eq_bind, bind_isSome, gatherPacket_isSome]
      refine and_congr_right fun safe => ?_
      obtain ⟨written, gathered⟩ := Option.isSome_iff_exists.mp (gatherPacket_isSome.mpr safe)
      rw [gathered]
      simp only [Option.some.injEq, forall_eq', Option.bind_some]
      cases parsed : written.bind (parsePacket scratch) with
      | none => exact (acknowledged 0).trans (iff_of_eq (by simp))
      | some packet =>
        obtain ⟨first, first_known⟩ := Device.queue?_first known
        dsimp only
        rw [Option.bind_eq_bind, bind_isSome, pushUsed_isSome num]
        refine and_congr_right fun _ => ?_
        simp only [dispatchGuestPacket_isSome first_known]
        constructor
        · intro goes hdr body pushed same ran
          cases same
          exact goes pushed ran
        · exact fun safe pushed ran => safe packet.1 packet.2 pushed rfl ran
    · simp only [transmit, ne_eq, not_false_eq_true, if_true, false_implies, true_and, and_true]
      exact acknowledged 0
  keeps := by
    intro s m dev qIdx head s' m' dev' ran
    unfold handleTxChain at ran
    split at ran
    · cases ran
    · rename_i q _
      have acknowledged {len : Nat} (ran : ((pushUsed m q head len).map fun pushed => (s, pushed, dev)) =
        some (s', m', dev')) :
          dev'.configs = dev.configs ∧ m.DeviceOnly m' := by
        obtain ⟨pushed, pushes, same⟩ := Option.map_eq_some_iff.mp ran
        cases same
        exact ⟨rfl, pushUsed_deviceOnly pushes⟩
      split at ran
      · exact acknowledged ran
      · obtain ⟨gathered, -, ran⟩ := Option.bind_eq_some_iff.mp ran
        split at ran
        · exact acknowledged ran
        · obtain ⟨pushed, pushes, ran⟩ := Option.bind_eq_some_iff.mp ran
          obtain ⟨configs, rest⟩ := dispatchGuestPacket_keeps ran
          exact ⟨configs, (pushUsed_deviceOnly pushes).trans rest⟩

end Handlers

section Boards

/-- A device whose chains and injections go through under conditions of their own. -/
structure Peripheral.Exact (peripheral : Peripheral S P) (safe : S → Memory → Device → Nat → Nat → Prop)
    (placeable : Memory → Device → P → Prop) : Prop where
  handler : peripheral.consumer.handler.Exact safe
  placed : ∀ m dev packet q, dev.queue? 0 = some q →
    ((peripheral.inject m dev packet).isSome ↔ placeable m dev packet)
  keeps : ∀ m dev packet m' dev' placed, peripheral.inject m dev packet = some (m', dev', placed) →
    dev'.configs = dev.configs ∧ m.DeviceOnly m'

/-- The condition of one step. Only the doorbell and an injection have one. -/
def Board.Safe (peripheral : Peripheral S P) (safe : S → Memory → Device → Nat → Nat → Prop)
    (placeable : Memory → Device → P → Prop) (board : Board S) : Input S P → Prop
  | .write off value =>
    off = doorbell → NotifySafe peripheral.consumer safe board.state board.mem board.regs.dev
      (value % 2 ^ 32)
  | .inject packet => placeable board.mem board.regs.dev packet
  | _ => True

structure Memory.Confined (m : Memory) (base size : Nat) : Prop where
  stores : ∀ st ∈ m.stores, st.off + st.data.length ≤ size
  slices : ∀ addr len off, m.guestSlice addr len = some (some off) → base + off = addr ∧ off + len ≤ size

structure Board.Steady (base size : Nat) (board : Board S) : Prop where
  base_eq : board.mem.base = base
  size_eq : board.mem.bytes.length = size
  stores : ∀ st ∈ board.mem.stores, st.off + st.data.length ≤ size
  queues : board.regs.dev.queues.length = maxQueues

theorem Board.Steady.confined (steady : board.Steady base size) :
    board.mem.Confined base size where
  stores := steady.stores
  slices := by
    intro addr len off sliced
    have found := Memory.guestSlice_contains sliced
    split at found
    · rename_i inside
      cases found
      obtain ⟨low, high⟩ := inside
      rw [steady.base_eq] at low high ⊢
      rw [steady.size_eq] at high
      exact ⟨Nat.add_sub_cancel' low, high⟩
    · exact nomatch found

theorem Board.Steady.first (steady : board.Steady base size) :
    ∃ q, board.regs.dev.queue? 0 = some q := by
  have inside : 0 < board.regs.dev.queues.length := by
    rw [steady.queues]
    decide
  exact ⟨board.regs.dev.queues[0], List.getElem?_eq_getElem inside⟩

theorem Board.Steady.device (steady : board.Steady base size)
    {state : S} (kept : dev.configs = board.regs.dev.configs ∧ board.mem.DeviceOnly m) :
    Board.Steady base size ⟨state, m, { board.regs with dev }⟩ := by
  obtain ⟨configs, added, extends_⟩ := kept
  have queues := congrArg List.length configs
  unfold Device.configs at queues
  rw [List.length_map, List.length_map] at queues
  refine ⟨extends_.base_eq.trans steady.base_eq, extends_.length_eq.trans steady.size_eq, ?_,
    queues.trans steady.queues⟩
  intro st member
  rw [extends_.stores_eq] at member
  rcases List.mem_append.mp member with earlier | now
  · exact steady.stores st earlier
  · exact steady.size_eq ▸ extends_.inside st now

theorem Mmio.configure_queues (regs : Mmio) (f : Queue → Queue) :
    (regs.configure f).dev.queues.length = regs.dev.queues.length := by
  unfold Mmio.configure
  split
  · rfl
  · exact List.length_set

theorem Mmio.set_queues (regs : Mmio) (off v32 : Nat) :
    (regs.set off v32).dev.queues.length = regs.dev.queues.length := by
  unfold Mmio.set
  split
  all_goals first
    | rfl
    | exact regs.configure_queues _
    | unfold Mmio.setDriverFeatures
      split <;> rfl

variable {peripheral : Peripheral S P} {safe : S → Memory → Device → Nat → Nat → Prop}
  {placeable : Memory → Device → P → Prop}

theorem Board.step_steady (exact_ : peripheral.Exact safe placeable) {after : Board S}
    {input : Input S P} (steady : board.Steady base size)
    (stepped : board.step peripheral input = some after) : after.Steady base size := by
  cases input with
  | store off data =>
    cases stepped
    split
    · exact { steady with size_eq := (store_length _ _ _).trans steady.size_eq }
    · exact steady
  | write off value =>
    unfold Board.step at stepped
    dsimp only at stepped
    split at stepped
    · obtain ⟨served, ran, same⟩ := Option.map_eq_some_iff.mp stepped
      cases same
      exact steady.device (notify_keeps exact_.handler ran)
    · cases stepped
      exact { steady with queues := (board.regs.set_queues _ _).trans steady.queues }
  | inject packet =>
    obtain ⟨⟨m, dev, placed⟩, injected, same⟩ := Option.map_eq_some_iff.mp stepped
    cases same
    exact steady.device (exact_.keeps _ _ _ _ _ _ injected)
  | host state =>
    cases stepped
    exact { steady with }

theorem Board.step_isSome (exact_ : peripheral.Exact safe placeable)
    {input : Input S P} (steady : board.Steady base size) :
    (board.step peripheral input).isSome ↔ board.Safe peripheral safe placeable input := by
  cases input with
  | store off data => exact iff_of_true rfl trivial
  | write off value =>
    unfold Board.step Board.Safe
    dsimp only
    split
    · rename_i bell
      rw [Option.isSome_map, notify_isSome exact_.handler]
      simp only [bell, forall_const]
    · rename_i register
      exact iff_of_true rfl fun bell => absurd bell register
  | inject packet =>
    obtain ⟨q, known⟩ := steady.first
    unfold Board.step Board.Safe
    dsimp only
    rw [Option.isSome_map]
    exact exact_.placed _ _ _ q known
  | host state => exact iff_of_true rfl trivial

theorem Board.boot_steady (base : Nat) (ram : Bytes) (skips : Nat) (state : S) :
    (Board.boot base ram skips state).Steady base ram.length :=
  ⟨rfl, rfl, nofun, List.length_replicate⟩

theorem Peripheral.Exact.run (exact_ : peripheral.Exact safe placeable) (base : Nat) (ram : Bytes)
    (skips : Nat) (state : S) (inputs : List (Input S P)) :
    ((Board.exec peripheral (.boot base ram skips state) inputs).isSome ↔
      Run.Meets (Board.step peripheral) (Board.Safe peripheral safe placeable) (.boot base ram skips state)
        inputs) ∧
    ∀ board, Board.exec peripheral (.boot base ram skips state) inputs = some board →
      board.mem.Confined base ram.length := by
  have start := Board.boot_steady base ram skips state
  have keeps : ∀ (board : Board S) input after, board.Steady base ram.length →
      board.step peripheral input = some after → after.Steady base ram.length :=
    fun _ _ _ steady stepped => Board.step_steady exact_ steady stepped
  have goes : ∀ (board : Board S) input, board.Steady base ram.length →
      ((board.step peripheral input).isSome ↔ board.Safe peripheral safe placeable input) :=
    fun _ _ steady => Board.step_isSome exact_ steady
  refine ⟨Run.exec_isSome_iff goes keeps inputs start, ?_⟩
  exact fun board ran => (Run.exec_invariant keeps inputs start ran).confined

end Boards

section Devices

def FrameSafe (m : Memory) (dev : Device) (frame : RxFrame) : Prop :=
  InjectSafe fillFrameChain (FillSafe moreFrame) [zeros netHdrSize, frame.bytes] m dev

theorem netPeripheral_exact : netPeripheral.Exact EmitSafe FrameSafe where
  handler := emitChain_exact
  placed := by
    intro m dev frame q known
    unfold netPeripheral injectRx FrameSafe
    dsimp only
    rw [if_neg (not_or.mpr ⟨frame.some_, Nat.not_lt.mpr frame.short⟩)]
    exact injectInto_isSome (fun _ _ _ _ => fillFrameChain_isSome) known
  keeps := by
    intro m dev frame m' dev' placed injected
    unfold netPeripheral injectRx at injected
    dsimp only at injected
    split at injected
    · exact nomatch injected
    · exact ⟨injectInto_configs injected, injectInto_deviceOnly fillFrameChain_deviceOnly injected⟩

def BodySafe (m : Memory) (dev : Device) (packet : RxPacket) : Prop :=
  InjectSafe fillPacketChain (FillSafe morePacket) [packet.hdr.encode, packet.body] m dev

theorem vsockPeripheral_exact (scratch : Bytes) (dispatch : Dispatch S) :
    (vsockPeripheral scratch dispatch).Exact (TxSafe scratch dispatch) BodySafe where
  handler := handleTxChain_exact scratch dispatch
  placed := by
    intro m dev packet q known
    unfold vsockPeripheral injectVsock BodySafe
    dsimp only
    rw [if_neg (Nat.not_lt.mpr packet.short)]
    exact injectInto_isSome (fun _ _ _ _ => fillPacketChain_isSome) known
  keeps := by
    intro m dev packet m' dev' placed injected
    unfold vsockPeripheral injectVsock at injected
    dsimp only at injected
    split at injected
    · exact nomatch injected
    · exact ⟨injectInto_configs injected, injectInto_deviceOnly fillPacketChain_deviceOnly injected⟩

structure WalkAsserts (m : Memory) (q : Queue) (head : Nat) : Prop where
  emit : ∀ frame, walkAndEmit m q head = some frame → frame.length ≤ scratchLen
  read : ∀ packet, gatherPacket m q maxChainDescriptors head [] = some (some packet) →
    packet.length ≤ packetScratch
  write : ∀ (hdr : VsockHdr) (body : Bytes) done,
    fillPacketChain q maxChainDescriptors ⟨m, [hdr.encode, body], 0, true⟩ head = some done →
      done.ok = true → done.written = headerSize + body.length

theorem VsockHdr.encode_length (hdr : VsockHdr) : hdr.encode.length = headerSize := by
  simp [VsockHdr.encode, headerSize]

theorem walkAsserts (m : Memory) (q : Queue) (head : Nat) : WalkAsserts m q head where
  emit := by
    intro frame walked
    unfold walkAndEmit at walked
    split at walked
    · exact nomatch walked
    · exact gatherChain_short (Nat.zero_le _) walked
  read := fun _ read => gatherPacket_short (Nat.zero_le _) read
  write := by
    intro hdr body done walked ok
    rw [fillPacketChain_total walked ok]
    simp [remaining, hdr.encode_length]

/-- Whatever the guest stores and writes and the host injects, the net and the vsock device
trap just where an address sum passes 64 bits (or the bridge traps at a packet), and they
never leave RAM. -/
theorem guestInput_traps (base : Nat) (ram : Bytes) :
    (∀ frames inputs,
      ((Board.exec netPeripheral (.boot base ram 0 frames) inputs).isSome ↔
        Run.Meets (Board.step netPeripheral) (Board.Safe netPeripheral EmitSafe FrameSafe)
          (.boot base ram 0 frames) inputs) ∧
      ∀ board, Board.exec netPeripheral (.boot base ram 0 frames) inputs = some board →
        board.mem.Confined base ram.length) ∧
    (∀ {S : Type} (scratch : Bytes) (dispatch : Dispatch S) (state : S) inputs,
      ((Board.exec (vsockPeripheral scratch dispatch) (.boot base ram 5 state) inputs).isSome ↔
        Run.Meets (Board.step (vsockPeripheral scratch dispatch))
          (Board.Safe (vsockPeripheral scratch dispatch) (TxSafe scratch dispatch) BodySafe)
            (.boot base ram 5 state) inputs) ∧
      ∀ board, Board.exec (vsockPeripheral scratch dispatch) (.boot base ram 5 state) inputs = some board →
        board.mem.Confined base ram.length) ∧
    ∀ m q head, WalkAsserts m q head :=
  ⟨fun frames inputs => netPeripheral_exact.run base ram 0 frames inputs,
    fun scratch dispatch state inputs => (vsockPeripheral_exact scratch dispatch).run base ram 5 state
      inputs, walkAsserts⟩

/-- A descriptor table that ends past the address space: the second entry has no 64-bit address. -/
def highTable : List (Input S P) :=
  [.store 0 (le 2 0 ++ le 2 1 ++ le 2 1), .write 0x030 1, .write 0x038 2, .write 0x080 0xFFFFFFF0,
    .write 0x084 0xFFFFFFFF, .write 0x090 0x40000000, .write 0x044 1, .write doorbell 1]

theorem guestInput_trapped :
    (Board.exec netPeripheral (.boot 0x40000000 (zeros 64) 0 []) highTable).isSome = false ∧
    (Board.exec (vsockPeripheral [] fun s _ _ => some (none, fun _ => s)) (.boot 0x40000000 (zeros 64) 5 ())
      highTable).isSome = false :=
  ⟨by decide +kernel, by decide +kernel⟩

end Devices

end Machinen.Vmm
