import Machinen.Vmm.ExactlyOnce
import Machinen.Vmm.VirtioDump

/-! The reset of a virtio device, which is a write of zero to its status register, and what a driver
makes of the device when it programs its queues again. -/
namespace Machinen.Vmm

open Bytes

variable {S P : Type}

inductive QueueReg where
  | num | ready | descLow | descHigh | driverLow | driverHigh | deviceLow | deviceHigh
  deriving DecidableEq, Repr

def QueueReg.at? (off : Nat) : Option QueueReg :=
  match off with
  | 0x038 => some .num
  | 0x044 => some .ready
  | 0x080 => some .descLow
  | 0x084 => some .descHigh
  | 0x090 => some .driverLow
  | 0x094 => some .driverHigh
  | 0x0A0 => some .deviceLow
  | 0x0A4 => some .deviceHigh
  | _ => none

namespace Queue

def field (q : Queue) : QueueReg → Nat
  | .num => q.num
  | .ready => q.ready
  | .descLow => q.descAddr % 2 ^ 32
  | .descHigh => q.descAddr / 2 ^ 32
  | .driverLow => q.driverAddr % 2 ^ 32
  | .driverHigh => q.driverAddr / 2 ^ 32
  | .deviceLow => q.deviceAddr % 2 ^ 32
  | .deviceHigh => q.deviceAddr / 2 ^ 32

def put (v32 : Nat) (q : Queue) : QueueReg → Queue
  | .num => { q with num := v32 }
  | .ready => { q with ready := v32 }
  | .descLow => { q with descAddr := setLow q.descAddr v32 }
  | .descHigh => { q with descAddr := setHigh q.descAddr v32 }
  | .driverLow => { q with driverAddr := setLow q.driverAddr v32 }
  | .driverHigh => { q with driverAddr := setHigh q.driverAddr v32 }
  | .deviceLow => { q with deviceAddr := setLow q.deviceAddr v32 }
  | .deviceHigh => { q with deviceAddr := setHigh q.deviceAddr v32 }

end Queue

theorem setLow_mod {half : Nat} (word : half < 2 ^ 32) (x : Nat) : setLow x half % 2 ^ 32 = half := by
  unfold setLow
  omega

theorem setLow_div {half : Nat} (word : half < 2 ^ 32) (x : Nat) :
    setLow x half / 2 ^ 32 = x / 2 ^ 32 := by
  unfold setLow
  omega

theorem setHigh_mod (half x : Nat) : setHigh x half % 2 ^ 32 = x % 2 ^ 32 := by
  unfold setHigh
  omega

theorem setHigh_div (half x : Nat) : setHigh x half / 2 ^ 32 = half := by
  unfold setHigh
  omega

namespace Queue

@[simp] theorem put_lastAvailIdx (v32 : Nat) (q : Queue) (r : QueueReg) :
    (q.put v32 r).lastAvailIdx = q.lastAvailIdx := by
  cases r <;> rfl

theorem field_put {v32 : Nat} (word : v32 < 2 ^ 32) (q : Queue) (r s : QueueReg) :
    (q.put v32 r).field s = if s = r then v32 else q.field s := by
  cases r <;> cases s <;> simp only [put, field, setLow_mod word, setLow_div word, setHigh_mod,
    setHigh_div, reduceCtorEq, if_true, if_false]

theorem ext_fields {q r : Queue} (fields : ∀ reg, r.field reg = q.field reg)
    (last : r.lastAvailIdx = q.lastAvailIdx) : r = q := by
  have desc : r.descAddr = q.descAddr := by
    have low : r.descAddr % 2 ^ 32 = q.descAddr % 2 ^ 32 := fields .descLow
    have high : r.descAddr / 2 ^ 32 = q.descAddr / 2 ^ 32 := fields .descHigh
    omega
  have driver : r.driverAddr = q.driverAddr := by
    have low : r.driverAddr % 2 ^ 32 = q.driverAddr % 2 ^ 32 := fields .driverLow
    have high : r.driverAddr / 2 ^ 32 = q.driverAddr / 2 ^ 32 := fields .driverHigh
    omega
  have device : r.deviceAddr = q.deviceAddr := by
    have low : r.deviceAddr % 2 ^ 32 = q.deviceAddr % 2 ^ 32 := fields .deviceLow
    have high : r.deviceAddr / 2 ^ 32 = q.deviceAddr / 2 ^ 32 := fields .deviceHigh
    omega
  have num : r.num = q.num := fields .num
  have ready : r.ready = q.ready := fields .ready
  cases q
  cases r
  rw [Queue.mk.injEq]
  exact ⟨num, ready, desc, driver, device, last⟩

end Queue

theorem Device.queue?_setQueue (dev : Device) (i j : Nat) (q : Queue) :
    (dev.setQueue i q).queue? j = if j = i then (dev.queue? j).map (fun _ => q) else dev.queue? j := by
  unfold Device.setQueue Device.queue?
  dsimp only
  by_cases same : j = i
  · rw [if_pos same, same]
    split
    · by_cases inside : i < dev.queues.length
      · rw [List.getElem?_set_self inside, List.getElem?_eq_getElem inside, Option.map_some]
      · rw [List.getElem?_eq_none (by rw [List.length_set]; omega), List.getElem?_eq_none (by omega),
          Option.map_none]
    · rfl
  · rw [if_neg same, List.getElem?_set_ne (Ne.symm same)]

theorem Mmio.set_cases (regs : Mmio) (off v32 : Nat) :
    (∃ r, QueueReg.at? off = some r ∧ off ≠ 0x030 ∧ regs.set off v32 = regs.configure (Queue.put v32 · r)) ∨
      QueueReg.at? off = none ∧ (regs.set off v32).dev.queues = regs.dev.queues ∧
        (regs.set off v32).dev.skipNotifyQueues = regs.dev.skipNotifyQueues ∧
        (regs.set off v32).queueSel = if off = 0x030 then v32 else regs.queueSel := by
  unfold Mmio.set
  split
  · exact .inr ⟨rfl, rfl, rfl, rfl⟩
  · unfold Mmio.setDriverFeatures
    split <;> exact .inr ⟨rfl, rfl, rfl, rfl⟩
  · exact .inr ⟨rfl, rfl, rfl, rfl⟩
  · exact .inr ⟨rfl, rfl, rfl, rfl⟩
  · exact .inl ⟨.num, rfl, by decide, rfl⟩
  · exact .inl ⟨.ready, rfl, by decide, rfl⟩
  · exact .inr ⟨rfl, rfl, rfl, rfl⟩
  · exact .inr ⟨rfl, rfl, rfl, rfl⟩
  · exact .inl ⟨.descLow, rfl, by decide, rfl⟩
  · exact .inl ⟨.descHigh, rfl, by decide, rfl⟩
  · exact .inl ⟨.driverLow, rfl, by decide, rfl⟩
  · exact .inl ⟨.driverHigh, rfl, by decide, rfl⟩
  · exact .inl ⟨.deviceLow, rfl, by decide, rfl⟩
  · exact .inl ⟨.deviceHigh, rfl, by decide, rfl⟩
  · have none_ : QueueReg.at? off = none := by
      unfold QueueReg.at?
      split <;> first | rfl | contradiction
    refine .inr ⟨none_, rfl, rfl, ?_⟩
    rw [if_neg]
    assumption

theorem Mmio.configure_queue (regs : Mmio) (f : Queue → Queue) (i : Nat) : (regs.configure f).dev.queue? i =
    if i = regs.queueSel then (regs.dev.queue? i).map f else regs.dev.queue? i := by
  unfold Mmio.configure
  cases found : regs.dev.queue? regs.queueSel with
  | none =>
    dsimp only
    split
    · rename_i here
      rw [here, found, Option.map_none]
    · rfl
  | some q =>
    dsimp only
    rw [Device.queue?_setQueue]
    split
    · rename_i here
      rw [here, found, Option.map_some, Option.map_some]
    · rfl

theorem Mmio.configure_others (regs : Mmio) (f : Queue → Queue) : (regs.configure f).queueSel = regs.queueSel ∧
    (regs.configure f).dev.skipNotifyQueues = regs.dev.skipNotifyQueues := by
  unfold Mmio.configure
  split <;> exact ⟨rfl, rfl⟩

theorem Mmio.set_queue (regs : Mmio) (off v32 i : Nat) : (regs.set off v32).dev.queue? i =
    match QueueReg.at? off with
    | none => regs.dev.queue? i
    | some r => if i = regs.queueSel then (regs.dev.queue? i).map (Queue.put v32 · r)
      else regs.dev.queue? i := by
  rcases regs.set_cases off v32 with ⟨r, reg, _, put⟩ | ⟨none_, queues, _, _⟩
  · rw [put, reg, Mmio.configure_queue]
  · rw [none_]
    unfold Device.queue?
    rw [queues]

theorem Mmio.set_queueSel (regs : Mmio) (off v32 : Nat) :
    (regs.set off v32).queueSel = if off = 0x030 then v32 else regs.queueSel := by
  rcases regs.set_cases off v32 with ⟨r, _, other, put⟩ | ⟨_, _, _, sel⟩
  · rw [put, (regs.configure_others _).1, if_neg other]
  · exact sel

theorem Mmio.set_skips (regs : Mmio) (off v32 : Nat) :
    (regs.set off v32).dev.skipNotifyQueues = regs.dev.skipNotifyQueues := by
  rcases regs.set_cases off v32 with ⟨r, _, _, put⟩ | ⟨_, _, skips, _⟩
  · rw [put, (regs.configure_others _).2]
  · exact skips

theorem Mmio.set_last (regs : Mmio) (off v32 i : Nat) :
    ((regs.set off v32).dev.queue? i).map Queue.lastAvailIdx =
      (regs.dev.queue? i).map Queue.lastAvailIdx := by
  rw [Mmio.set_queue]
  split
  · rfl
  · split
    · rw [Option.map_map]
      congr 1
      funext q
      exact Queue.put_lastAvailIdx v32 q _
    · rfl

def Mmio.setAll (regs : Mmio) (setup : List (Nat × Nat)) : Mmio :=
  setup.foldl (fun r w => r.set w.1 (w.2 % 2 ^ 32)) regs

theorem Mmio.setAll_cons (regs : Mmio) (w : Nat × Nat) (setup : List (Nat × Nat)) :
    regs.setAll (w :: setup) = (regs.set w.1 (w.2 % 2 ^ 32)).setAll setup := rfl

/-- The registers of queues that are written, from where a queue is selected. -/
def programmed : Option Nat → List (Nat × Nat) → List (Nat × QueueReg)
  | _, [] => []
  | sel, (off, value) :: rest =>
    if off = 0x030 then programmed (some (value % 2 ^ 32)) rest
    else
      match sel, QueueReg.at? off with
      | some i, some r => (i, r) :: programmed sel rest
      | _, _ => programmed sel rest

/-- Two devices that differ in nothing that was programmed, nor in where they stand in the rings. -/
structure Settled (sel : Option Nat) (done : List (Nat × QueueReg)) (regs other : Mmio) : Prop where
  selected : ∀ i, sel = some i → regs.queueSel = i ∧ other.queueSel = i
  unselected : sel = none → done = []
  fields : ∀ w ∈ done, (other.dev.queue? w.1).map (Queue.field · w.2) =
    (regs.dev.queue? w.1).map (Queue.field · w.2)
  last : ∀ i, (other.dev.queue? i).map Queue.lastAvailIdx = (regs.dev.queue? i).map Queue.lastAvailIdx
  skips : other.dev.skipNotifyQueues = regs.dev.skipNotifyQueues

namespace Settled

variable {sel : Option Nat} {done : List (Nat × QueueReg)} {regs other : Mmio}

theorem const (settled : Settled sel done regs other) (i n : Nat) :
    (other.dev.queue? i).map (fun _ => n) = (regs.dev.queue? i).map (fun _ => n) := by
  have same := congrArg (Option.map fun _ : Nat => n) (settled.last i)
  rwa [Option.map_map, Option.map_map] at same

theorem select (settled : Settled sel done regs other) (v32 : Nat) :
    Settled (some v32) done (regs.set 0x030 v32) (other.set 0x030 v32) := by
  have queues (r : Mmio) (i : Nat) : (r.set 0x030 v32).dev.queue? i = r.dev.queue? i :=
    Mmio.set_queue r 0x030 v32 i
  refine ⟨fun i same => ?_, nofun, fun w member => ?_, fun i => ?_, ?_⟩
  · cases same
    rw [Mmio.set_queueSel, Mmio.set_queueSel]
    exact ⟨rfl, rfl⟩
  · rw [queues, queues]
    exact settled.fields w member
  · rw [queues, queues]
    exact settled.last i
  · rw [Mmio.set_skips, Mmio.set_skips]
    exact settled.skips

theorem pass (settled : Settled sel done regs other) {off : Nat} (v32 : Nat) (not_sel : off ≠ 0x030)
    (idle : sel = none ∨ QueueReg.at? off = none) :
    Settled sel done (regs.set off v32) (other.set off v32) := by
  refine ⟨fun i same => ?_, settled.unselected, fun w member => ?_, fun i => ?_, ?_⟩
  · rw [Mmio.set_queueSel, Mmio.set_queueSel, if_neg not_sel, if_neg not_sel]
    exact settled.selected i same
  · rcases idle with unselected | none_
    · rw [settled.unselected unselected] at member
      cases member
    · rw [Mmio.set_queue, Mmio.set_queue, none_]
      exact settled.fields w member
  · rw [Mmio.set_last, Mmio.set_last]
    exact settled.last i
  · rw [Mmio.set_skips, Mmio.set_skips]
    exact settled.skips

theorem program {i : Nat} (settled : Settled (some i) done regs other) {off v32 : Nat} {r : QueueReg}
    (word : v32 < 2 ^ 32) (not_sel : off ≠ 0x030) (reg : QueueReg.at? off = some r) :
    Settled (some i) (done ++ [(i, r)]) (regs.set off v32) (other.set off v32) := by
  obtain ⟨sel_regs, sel_other⟩ := settled.selected i rfl
  refine ⟨fun j same => ?_, nofun, fun w member => ?_, fun j => ?_, ?_⟩
  · rw [Mmio.set_queueSel, Mmio.set_queueSel, if_neg not_sel, if_neg not_sel]
    exact settled.selected j same
  · obtain ⟨j, s⟩ := w
    rw [Mmio.set_queue, Mmio.set_queue, reg, sel_regs, sel_other]
    dsimp only
    by_cases here : j = i
    · rw [if_pos here, if_pos here, Option.map_map, Option.map_map]
      have put : (fun q : Queue => q.field s) ∘ (Queue.put v32 · r) = fun q =>
        if s = r then v32 else q.field s :=
        funext fun q => Queue.field_put word q r s
      rw [put]
      by_cases same : s = r
      · simp only [if_pos same]
        exact settled.const j v32
      · simp only [if_neg same]
        refine settled.fields (j, s) ((List.mem_append.mp member).resolve_right fun last => same ?_)
        exact congrArg Prod.snd (List.mem_singleton.mp last)
    · rw [if_neg here, if_neg here]
      refine settled.fields (j, s) ((List.mem_append.mp member).resolve_right fun last => here ?_)
      exact congrArg Prod.fst (List.mem_singleton.mp last)
  · rw [Mmio.set_last, Mmio.set_last]
    exact settled.last j
  · rw [Mmio.set_skips, Mmio.set_skips]
    exact settled.skips

theorem setAll (settled : Settled sel done regs other) (setup : List (Nat × Nat)) :
    ∃ sel', Settled sel' (done ++ programmed sel setup) (regs.setAll setup) (other.setAll setup) := by
  induction setup generalizing sel done regs other with
  | nil => exact ⟨sel, by rw [programmed, List.append_nil]; exact settled⟩
  | cons w rest ih =>
    obtain ⟨off, value⟩ := w
    have word : value % 2 ^ 32 < 2 ^ 32 := Nat.mod_lt _ (by decide)
    unfold programmed
    by_cases selects : off = 0x030
    · rw [if_pos selects]
      subst selects
      exact ih (settled.select _)
    · rw [if_neg selects]
      split
      · rename_i i r reg
        have next := ih (settled.program word selects reg)
        rwa [List.append_assoc] at next
      · rename_i idle
        refine ih (settled.pass _ selects ?_)
        by_contra both
        obtain ⟨i, known⟩ := Option.ne_none_iff_exists'.mp fun none_ => both (.inl none_)
        obtain ⟨r, reg⟩ := Option.ne_none_iff_exists'.mp fun none_ => both (.inr none_)
        exact idle i r known reg

end Settled

/-- Two devices with the same queues, as far as they are used. -/
structure Device.Agree (uses : Nat → Prop) (dev other : Device) : Prop where
  queues : ∀ i, uses i → other.queue? i = dev.queue? i
  skips : other.skipNotifyQueues = dev.skipNotifyQueues

theorem Device.Agree.setQueue {uses : Nat → Prop} {dev other : Device} (agree : dev.Agree uses other)
    (i : Nat) (q : Queue) : (dev.setQueue i q).Agree uses (other.setQueue i q) := by
  refine ⟨fun j used => ?_, agree.skips⟩
  rw [Device.queue?_setQueue, Device.queue?_setQueue, agree.queues j used]

theorem Device.Agree.consume {uses : Nat → Prop} {dev other : Device} (agree : dev.Agree uses other)
    {i : Nat} (used : uses i) : (dev.consume i).Agree uses (other.consume i) := by
  unfold Device.consume
  rw [agree.queues i used]
  cases dev.queue? i with
  | none => exact agree
  | some q => exact agree.setQueue i q.consume

theorem Device.Agree.raise {uses : Nat → Prop} {dev other : Device} (agree : dev.Agree uses other) :
    dev.raise.Agree uses other.raise := ⟨agree.queues, agree.skips⟩

/-- A device's way with chains and packets depends on nothing but the queues it uses. -/
structure Peripheral.Uses (peripheral : Peripheral S P) (uses : Nat → Prop) : Prop where
  handler : ∀ {s m dev other qIdx head s' m' dev'}, uses qIdx → dev.Agree uses other →
    peripheral.consumer.handler s m dev qIdx head = some (s', m', dev') →
      ∃ other', peripheral.consumer.handler s m other qIdx head = some (s', m', other') ∧
        dev'.Agree uses other'
  skips : ∀ {dev other qIdx}, uses qIdx → dev.Agree uses other →
    peripheral.consumer.skips other qIdx = peripheral.consumer.skips dev qIdx
  inject : ∀ {m dev other packet m' dev' delivered}, dev.Agree uses other →
    peripheral.inject m dev packet = some (m', dev', delivered) →
      ∃ other', peripheral.inject m other packet = some (m', other', delivered) ∧ dev'.Agree uses other'

theorem emitChain_agree {uses : Nat → Prop} {frames : List Bytes} {m : Memory} {dev other : Device}
    {qIdx head : Nat} {frames' : List Bytes} {m' : Memory} {dev' : Device} (used : uses qIdx)
    (agree : dev.Agree uses other)
    (handled : emitChain frames m dev qIdx head = some (frames', m', dev')) :
    ∃ other', emitChain frames m other qIdx head = some (frames', m', other') ∧
      dev'.Agree uses other' := by
  unfold emitChain at handled ⊢
  rw [agree.queues qIdx used]
  cases queue : dev.queue? qIdx with
  | none =>
    rw [queue] at handled
    cases handled
  | some q =>
    rw [queue] at handled
    obtain ⟨written, walked, handled⟩ := Option.bind_eq_some_iff.mp handled
    obtain ⟨pushed, published, handled⟩ := Option.bind_eq_some_iff.mp handled
    cases handled
    refine ⟨other, ?_, agree⟩
    dsimp only
    rw [walked, Option.bind_eq_bind, Option.bind_some, published]
    rfl

theorem injectInto_agree {uses : Nat → Prop} (used : uses 0)
    {walk : Queue → Nat → Copy → Nat → Option Copy} {sources : List Bytes} {m m' : Memory}
    {dev other dev' : Device} {delivered : Bool} (agree : dev.Agree uses other)
    (injected : injectInto walk sources m dev = some (m', dev', delivered)) :
    ∃ other', injectInto walk sources m other = some (m', other', delivered) ∧
      dev'.Agree uses other' := by
  unfold injectInto at injected ⊢
  rw [agree.queues 0 used]
  cases queue : dev.queue? 0 with
  | none =>
    rw [queue] at injected
    cases injected
  | some q =>
    rw [queue] at injected
    dsimp only at injected ⊢
    split at injected
    · rename_i idle
      cases injected
      rw [if_pos idle]
      exact ⟨other, rfl, agree⟩
    · rename_i live
      rw [if_neg live]
      obtain ⟨next, head, injected⟩ := Option.bind_eq_some_iff.mp injected
      rw [head]
      cases next with
      | none =>
        cases injected
        exact ⟨other, rfl, agree⟩
      | some head =>
        obtain ⟨copied, walked, injected⟩ := Option.bind_eq_some_iff.mp injected
        rw [Option.bind_eq_bind, Option.bind_some]
        dsimp only
        rw [walked, Option.bind_eq_bind, Option.bind_some]
        split at injected
        · rename_i ok
          obtain ⟨published, pushed, injected⟩ := Option.bind_eq_some_iff.mp injected
          cases injected
          rw [if_pos ok, pushed]
          exact ⟨_, rfl, (agree.setQueue 0 q.consume).raise⟩
        · rename_i failed
          cases injected
          rw [if_neg failed]
          exact ⟨other, rfl, agree⟩

theorem netPeripheral_uses : netPeripheral.Uses (· < 2) where
  handler used agree handled := @emitChain_agree (· < 2) _ _ _ _ _ _ _ _ _ used agree handled
  skips _ _ := rfl
  inject := by
    intro m dev other packet m' dev' delivered agree injected
    change injectRx m dev packet.bytes = some (m', dev', delivered) at injected
    change ∃ other', injectRx m other packet.bytes = some (m', other', delivered) ∧
      dev'.Agree (· < 2) other'
    unfold injectRx at injected ⊢
    split at injected
    · cases injected
    · rename_i sized
      rw [if_neg sized]
      exact injectInto_agree (by decide) agree injected

/-- Loops that handled the same chains, with the same effect. -/
structure Served.Same (uses : Nat → Prop) (served other : Served S) : Prop where
  state : other.state = served.state
  mem : other.mem = served.mem
  heads : other.heads = served.heads
  finished : other.finished = served.finished
  dev : served.dev.Agree uses other.dev

section Runs

variable {peripheral : Peripheral S P} {uses : Nat → Prop} {qIdx : Nat} {s : S} {m : Memory}
  {dev other : Device} {served : Served S}

theorem Peripheral.Uses.serveChains (sees : peripheral.Uses uses) {availIdx chains : Nat}
    (used : uses qIdx) (agree : dev.Agree uses other)
    (ran : serveChains peripheral.consumer.handler qIdx availIdx chains s m dev = some served) :
    ∃ served', Vmm.serveChains peripheral.consumer.handler qIdx availIdx chains s m other =
      some served' ∧ served.Same uses served' := by
  induction chains generalizing s m dev other served with
  | zero =>
    cases ran
    exact ⟨_, rfl, rfl, rfl, rfl, rfl, agree⟩
  | succ chains ih =>
    unfold Vmm.serveChains at ran ⊢
    rw [agree.queues qIdx used]
    cases queue : dev.queue? qIdx with
    | none =>
      rw [queue] at ran
      cases ran
    | some q =>
      rw [queue] at ran
      dsimp only at ran ⊢
      split at ran
      · rename_i done
        cases ran
        rw [if_pos done]
        exact ⟨_, rfl, rfl, rfl, rfl, rfl, agree⟩
      · rename_i more
        rw [if_neg more]
        obtain ⟨found, entry, ran⟩ := Option.bind_eq_some_iff.mp ran
        rw [entry]
        cases found with
        | none =>
          cases ran
          exact ⟨_, rfl, rfl, rfl, rfl, rfl, agree⟩
        | some head =>
          obtain ⟨⟨s', m', dev'⟩, handled, ran⟩ := Option.bind_eq_some_iff.mp ran
          obtain ⟨rest, later, ran⟩ := Option.bind_eq_some_iff.mp ran
          cases ran
          obtain ⟨other', handled', agree'⟩ := sees.handler used agree handled
          obtain ⟨rest', later', same⟩ := ih (agree'.consume used) later
          refine ⟨{ rest' with heads := head :: rest'.heads }, ?_, same.state, same.mem,
            congrArg (head :: ·) same.heads, same.finished, same.dev⟩
          rw [Option.bind_eq_bind, Option.bind_some]
          dsimp only
          rw [handled', Option.bind_eq_bind, Option.bind_some]
          dsimp only
          rw [later']
          rfl

theorem Peripheral.Uses.notify (sees : peripheral.Uses uses) (used : uses qIdx)
    (agree : dev.Agree uses other) (ran : notify peripheral.consumer s m dev qIdx = some served) :
    ∃ served', Vmm.notify peripheral.consumer s m other qIdx = some served' ∧
      served.Same uses served' := by
  unfold Vmm.notify at ran ⊢
  rw [agree.queues qIdx used]
  cases queue : dev.queue? qIdx with
  | none =>
    rw [queue] at ran
    cases ran
    exact ⟨_, rfl, rfl, rfl, rfl, rfl, agree⟩
  | some q =>
    rw [queue] at ran
    dsimp only at ran ⊢
    rw [sees.skips used agree]
    split at ran
    · rename_i idle
      cases ran
      rw [if_pos idle]
      exact ⟨_, rfl, rfl, rfl, rfl, rfl, agree⟩
    · rename_i live
      rw [if_neg live]
      obtain ⟨found, header, ran⟩ := Option.bind_eq_some_iff.mp ran
      rw [header]
      cases found with
      | none =>
        cases ran
        exact ⟨_, rfl, rfl, rfl, rfl, rfl, agree⟩
      | some availIdx =>
        obtain ⟨served, looped, ran⟩ := Option.bind_eq_some_iff.mp ran
        cases ran
        obtain ⟨served', looped', same⟩ := sees.serveChains used agree looped
        refine ⟨served'.raise, ?_, ?_⟩
        · rw [Option.bind_eq_bind, Option.bind_some]
          dsimp only
          rw [looped']
          rfl
        · unfold Served.raise
          rw [same.finished]
          split
          · exact ⟨same.state, same.mem, same.heads, rfl, same.dev.raise⟩
          · exact same

def Input.Rings (uses : Nat → Prop) : Input S P → Prop
  | .write off value => off = doorbell → uses (value % 2 ^ 32)
  | _ => True

/-- Boards with the same RAM and the same state behind the device, whose devices agree. -/
structure Board.Agree (uses : Nat → Prop) (board other : Board S) : Prop where
  state : other.state = board.state
  mem : other.mem = board.mem
  dev : board.regs.dev.Agree uses other.regs.dev
  sel : ∀ i, uses i → i < maxQueues → other.regs.queueSel = board.regs.queueSel

theorem Device.queue?_beyond (dev : Device) {i : Nat} (beyond : ¬ i < maxQueues) : dev.queue? i = none :=
  if_neg beyond

theorem Mmio.set_agree {regs other : Mmio} (agree : regs.dev.Agree uses other.dev)
    (sel : ∀ i, uses i → i < maxQueues → other.queueSel = regs.queueSel) (off v32 : Nat) :
    (regs.set off v32).dev.Agree uses (other.set off v32).dev ∧
      ∀ i, uses i → i < maxQueues → (other.set off v32).queueSel = (regs.set off v32).queueSel := by
  refine ⟨⟨fun i used => ?_, ?_⟩, fun i used inside => ?_⟩
  · by_cases inside : i < maxQueues
    · rw [Mmio.set_queue, Mmio.set_queue, agree.queues i used, sel i used inside]
    · rw [Device.queue?_beyond _ inside, Device.queue?_beyond _ inside]
  · rw [Mmio.set_skips, Mmio.set_skips]
    exact agree.skips
  · rw [Mmio.set_queueSel, Mmio.set_queueSel, sel i used inside]

theorem Board.Agree.step (sees : peripheral.Uses uses) {board other next : Board S} {input : Input S P}
    (agree : board.Agree uses other) (rings : input.Rings uses)
    (stepped : board.step peripheral input = some next) :
    ∃ next', other.step peripheral input = some next' ∧ next.Agree uses next' := by
  obtain ⟨state, mem, dev, sel⟩ := agree
  cases input with
  | store off data =>
    cases stepped
    refine ⟨_, rfl, ?_⟩
    rw [mem]
    split
    · exact ⟨state, rfl, dev, sel⟩
    · exact ⟨state, mem, dev, sel⟩
  | write off value =>
    unfold Board.step at stepped ⊢
    dsimp only at stepped ⊢
    split at stepped
    · rename_i bell
      obtain ⟨served, notified, same⟩ := Option.map_eq_some_iff.mp stepped
      cases same
      obtain ⟨served', notified', same⟩ := sees.notify (rings bell) dev notified
      rw [if_pos bell, state, mem, notified']
      exact ⟨_, rfl, same.state, same.mem, same.dev, sel⟩
    · rename_i other_
      cases stepped
      rw [if_neg other_]
      obtain ⟨dev', sel'⟩ := Mmio.set_agree dev sel off (value % 2 ^ 32)
      exact ⟨_, rfl, state, mem, dev', sel'⟩
  | inject packet =>
    unfold Board.step at stepped ⊢
    dsimp only at stepped ⊢
    obtain ⟨⟨m', dev', delivered⟩, done, same⟩ := Option.map_eq_some_iff.mp stepped
    cases same
    obtain ⟨other', done', agree'⟩ := sees.inject dev done
    rw [mem, done']
    exact ⟨_, rfl, state, rfl, agree', sel⟩
  | host s =>
    cases stepped
    exact ⟨_, rfl, rfl, mem, dev, sel⟩

theorem Board.Agree.symm {board other : Board S} (agree : board.Agree uses other) :
    other.Agree uses board :=
  ⟨agree.state.symm, agree.mem.symm,
    ⟨fun i used => (agree.dev.queues i used).symm, agree.dev.skips.symm⟩,
    fun i used inside => (agree.sel i used inside).symm⟩

theorem Board.Agree.run (sees : peripheral.Uses uses) {inputs : List (Input S P)}
    (rings : ∀ input ∈ inputs, input.Rings uses) {board other last : Board S}
    (agree : board.Agree uses other) (ran : Board.exec peripheral board inputs = some last) :
    ∃ last', Board.exec peripheral other inputs = some last' ∧ last.Agree uses last' := by
  induction inputs generalizing board other with
  | nil =>
    cases ran
    exact ⟨other, rfl, agree⟩
  | cons input inputs ih =>
    obtain ⟨next, stepped, ran⟩ := Run.exec_cons ran
    obtain ⟨next', stepped', agree'⟩ := agree.step sees (rings input List.mem_cons_self) stepped
    obtain ⟨last', ran', final⟩ := ih (fun i member => rings i (List.mem_cons_of_mem input member))
      agree' ran
    refine ⟨last', ?_, final⟩
    unfold Board.exec Run.exec
    rw [stepped']
    exact ran'

/-- What the chains of a run come to: the state behind the device, and RAM. -/
def Board.outcome (board : Board S) : S × Memory := (board.state, board.mem)

theorem Board.Agree.outcome_eq (sees : peripheral.Uses uses) {inputs : List (Input S P)}
    (rings : ∀ input ∈ inputs, input.Rings uses) {board other : Board S}
    (agree : board.Agree uses other) : (Board.exec peripheral board inputs).map Board.outcome =
      (Board.exec peripheral other inputs).map Board.outcome := by
  cases ran : Board.exec peripheral board inputs with
  | some last =>
    obtain ⟨last', ran', final⟩ := agree.run sees rings ran
    rw [ran', Option.map_some, Option.map_some, Board.outcome, Board.outcome, final.state, final.mem]
  | none =>
    cases ran' : Board.exec peripheral other inputs with
    | none => rfl
    | some last =>
      obtain ⟨last', again, _⟩ := agree.symm.run sees rings ran'
      rw [ran] at again
      cases again

end Runs

/-- A driver that starts over: before anything else it writes all registers of every queue that the
device uses. -/
structure Reprograms (uses : Nat → Prop) (setup : List (Nat × Nat)) : Prop where
  registers : ∀ w ∈ setup, w.1 ≠ doorbell
  queues : ∀ i, uses i → i < maxQueues → ∀ r, (i, r) ∈ programmed none setup

def statusReg : Nat := 0x070

def afterReset (setup : List (Nat × Nat)) (rest : List (Input S P)) : List (Input S P) :=
  .write statusReg 0 :: (setup.map fun w => .write w.1 w.2) ++ rest

/-- After a reset a driver that programs its queues again finds what it would find with a device that
was just made: the same chains are handled, with the same effect. -/
def ResetsFresh (regs : Mmio) : Prop :=
  ∀ (S P : Type) (peripheral : Peripheral S P) (uses : Nat → Prop) (setup : List (Nat × Nat))
    (rest : List (Input S P)) (state : S) (mem : Memory),
    peripheral.Uses uses → Reprograms uses setup → (∀ input ∈ rest, input.Rings uses) →
      (Board.exec peripheral ⟨state, mem, regs⟩ (afterReset setup rest)).map Board.outcome =
        (Board.exec peripheral ⟨state, mem, freshRegs regs.dev.skipNotifyQueues⟩
          (afterReset setup rest)).map Board.outcome

theorem exec_afterReset (peripheral : Peripheral S P) (state : S) (mem : Memory) (regs : Mmio)
    {setup : List (Nat × Nat)} (rest : List (Input S P)) (registers : ∀ w ∈ setup, w.1 ≠ doorbell) :
    Board.exec peripheral ⟨state, mem, regs⟩ (afterReset setup rest) =
      Board.exec peripheral ⟨state, mem, (regs.set statusReg 0).setAll setup⟩ rest := by
  have written : Board.exec peripheral ⟨state, mem, regs⟩ (afterReset setup rest) =
      Board.exec peripheral ⟨state, mem, regs.set statusReg 0⟩
        ((setup.map fun w => .write w.1 w.2) ++ rest) := rfl
  rw [written]
  clear written
  generalize regs.set statusReg 0 = start
  induction setup generalizing start with
  | nil => rfl
  | cons w setup ih =>
    have plain := registers w List.mem_cons_self
    have step : Board.step peripheral ⟨state, mem, start⟩ (.write w.1 w.2) =
        some ⟨state, mem, start.set w.1 (w.2 % 2 ^ 32)⟩ := if_neg plain
    rw [List.map_cons, List.cons_append, Board.exec, Run.exec, step, Option.bind_some]
    exact ih (fun v member => registers v (List.mem_cons_of_mem w member)) _

theorem freshRegs_last (skips i : Nat) :
    ((freshRegs skips).dev.queue? i).map Queue.lastAvailIdx =
      if i < maxQueues then some 0 else none := by
  unfold freshRegs Device.queue?
  dsimp only
  split
  · rename_i inside
    rw [List.getElem?_replicate, if_pos inside]
    rfl
  · rfl

theorem Mmio.Typed.last {regs : Mmio} (typed : regs.Typed)
    (unused : ∀ q ∈ regs.dev.queues, q.lastAvailIdx = 0) (i : Nat) :
    (regs.dev.queue? i).map Queue.lastAvailIdx = if i < maxQueues then some 0 else none := by
  unfold Device.queue?
  split
  · rename_i inside
    have held : i < regs.dev.queues.length := by
      rw [typed.count]
      exact inside
    rw [List.getElem?_eq_getElem held, Option.map_some, unused _ (List.getElem_mem held)]
  · rfl

theorem resetsFresh_of_unused {regs : Mmio} (typed : regs.Typed)
    (unused : ∀ q ∈ regs.dev.queues, q.lastAvailIdx = 0) : ResetsFresh regs := by
  intro S P peripheral uses setup rest state mem sees reprograms rings
  rw [exec_afterReset peripheral state mem regs rest reprograms.registers,
    exec_afterReset peripheral state mem (freshRegs regs.dev.skipNotifyQueues) rest reprograms.registers]
  have start : Settled none [] (regs.set statusReg 0)
      ((freshRegs regs.dev.skipNotifyQueues).set statusReg 0) := by
    refine ⟨nofun, fun _ => rfl, nofun, fun i => ?_, rfl⟩
    rw [Mmio.set_last, Mmio.set_last, freshRegs_last, typed.last unused]
  obtain ⟨sel, settled⟩ := start.setAll setup
  rw [List.nil_append] at settled
  refine Board.Agree.outcome_eq sees rings ⟨rfl, rfl, ⟨fun i used => ?_, settled.skips⟩,
    fun i used inside => ?_⟩
  · dsimp only
    by_cases inside : i < maxQueues
    · have fields (r : QueueReg) := settled.fields (i, r) (reprograms.queues i used inside r)
      have last := settled.last i
      dsimp only at fields
      cases found : ((regs.set statusReg 0).setAll setup).dev.queue? i with
      | none =>
        rw [found] at last
        exact Option.map_eq_none_iff.mp last
      | some q =>
        rw [found, Option.map_some] at last
        obtain ⟨q', found', last⟩ := Option.map_eq_some_iff.mp last
        rw [found']
        refine congrArg some (Queue.ext_fields (fun r => ?_) last)
        have same := fields r
        rw [found, found'] at same
        exact Option.some.inj same
    · rw [Device.queue?_beyond _ inside, Device.queue?_beyond _ inside]
  · have some_ := reprograms.queues i used inside .num
    cases selected : sel with
    | none =>
      rw [settled.unselected selected] at some_
      cases some_
    | some j =>
      obtain ⟨one, two⟩ := settled.selected j selected
      dsimp only
      rw [one, two]

def recorder : Peripheral (List Nat) Unit where
  consumer := ⟨fun heads m dev _ head => some (heads ++ [head], m, dev), fun _ _ => false⟩
  inject m dev _ := some (m, dev, false)

theorem recorder_uses (uses : Nat → Prop) : recorder.Uses uses where
  handler := by
    rintro s m dev other qIdx head s' m' dev' used agree ⟨⟩
    exact ⟨other, rfl, agree⟩
  skips _ _ := rfl
  inject := by
    rintro m dev other packet m' dev' delivered agree ⟨⟩
    exact ⟨other, rfl, agree⟩

/-- An available ring with two places, both for the chain at 7, of which one is new. -/
def oneNewChain : Memory := ⟨0, [0, 0, 1, 0, 7, 0, 7, 0], []⟩

def twoPlaces (last : Nat) : Queue := { num := 2, ready := 1, lastAvailIdx := last }

def twoPlacesWrites : List (Nat × Nat) :=
  [(0x038, 2), (0x044, 1), (0x080, 0), (0x084, 0), (0x090, 0), (0x094, 0), (0x0A0, 0), (0x0A4, 0)]

def twoPlacesSetup (i : Nat) : List (Nat × Nat) := (0x030, i) :: twoPlacesWrites

theorem twoPlacesSetup_reprograms {i : Nat} (inside : i < maxQueues) :
    Reprograms (· = i) (twoPlacesSetup i) := by
  have word : i % 2 ^ 32 = i := Nat.mod_eq_of_lt (Nat.lt_trans inside (by decide))
  have all : programmed none (twoPlacesSetup i) =
    [.num, .ready, .descLow, .descHigh, .driverLow, .driverHigh,
      .deviceLow, .deviceHigh].map (Prod.mk (i % 2 ^ 32)) := rfl
  refine ⟨?_, ?_⟩
  · unfold twoPlacesSetup twoPlacesWrites
    simp [doorbell]
  · rintro j rfl _ r
    rw [all, word]
    cases r <;> simp

theorem twoPlaces_entry (q : Queue) (num : q.num = 2) (driver : q.driverAddr = 0) (idx : Nat) :
    readAvailRingEntry oneNewChain q idx = some (some 7) := by
  unfold readAvailRingEntry
  rw [num, driver]
  rcases Nat.mod_two_eq_zero_or_one idx with even | odd
  · rw [even]
    rfl
  · rw [odd]
    rfl

theorem serve_recorder {dev : Device} {i : Nat} {q : Queue} (queue : dev.queue? i = some q)
    (num : q.num = 2) (driver : q.driverAddr = 0) (chains : Nat) (heads : List Nat) :
    (serveChains recorder.consumer.handler i 1 (chains + 1) heads oneNewChain dev).map Served.state =
      if q.lastAvailIdx = 1 then some heads
      else (serveChains recorder.consumer.handler i 1 chains (heads ++ [7]) oneNewChain
        (dev.consume i)).map Served.state := by
  rw [serveChains, queue]
  dsimp only
  split
  · rfl
  · rw [twoPlaces_entry q num driver, Option.bind_eq_bind, Option.bind_some]
    dsimp only
    have handled : recorder.consumer.handler heads oneNewChain dev i 7 =
      some (heads ++ [7], oneNewChain, dev) := rfl
    rw [handled, Option.bind_eq_bind, Option.bind_some]
    dsimp only
    cases serveChains recorder.consumer.handler i 1 chains (heads ++ [7]) oneNewChain (dev.consume i)
      <;> rfl

theorem notify_recorder {dev : Device} {i last : Nat} (queue : dev.queue? i = some (twoPlaces last))
    (short : last < 65536) :
    (notify recorder.consumer [] oneNewChain dev i).map Served.state =
      some (if last = 0 then [7] else if last = 1 then [] else [7, 7]) := by
  have header : readAvailHeader oneNewChain (twoPlaces last) = some (some 1) := rfl
  have live : ¬ ((twoPlaces last).ready = 0 ∨ (twoPlaces last).num = 0 ∨
    recorder.consumer.skips dev i = true) := by
    rintro (ready | num | skipped)
    · cases ready
    · cases num
    · cases skipped
  have raised : (notify recorder.consumer [] oneNewChain dev i).map Served.state =
      (serveChains recorder.consumer.handler i 1 2 [] oneNewChain dev).map Served.state := by
    unfold notify
    rw [queue]
    dsimp only
    rw [if_neg live, header, Option.bind_eq_bind, Option.bind_some]
    dsimp only
    have num : (twoPlaces last).num = 2 := rfl
    rw [num]
    cases serveChains recorder.consumer.handler i 1 2 [] oneNewChain dev with
    | none => rfl
    | some served =>
      rw [Option.bind_eq_bind, Option.bind_some, Option.pure_def, Option.map_some, Option.map_some]
      unfold Served.raise
      split <;> rfl
  have later := Device.consume_queue? queue
  rw [raised, serve_recorder queue rfl rfl 1 [], serve_recorder later rfl rfl 0]
  have here : (twoPlaces last).lastAvailIdx = last := rfl
  have next : (twoPlaces last).consume.lastAvailIdx = (last + 1) % 65536 := rfl
  have done : (serveChains recorder.consumer.handler i 1 0 ([] ++ [7] ++ [7]) oneNewChain
      ((dev.consume i).consume i)).map Served.state = some [7, 7] := rfl
  rw [here, next, done]
  by_cases zero : last = 0
  · subst zero
    rfl
  · by_cases one : last = 1
    · subst one
      rfl
    · rw [if_neg zero, if_neg one, if_neg one, if_neg (by omega)]

def Queue.putAll (q : Queue) (writes : List (Nat × Nat)) : Queue :=
  writes.foldl (fun q w => ((QueueReg.at? w.1).map (q.put (w.2 % 2 ^ 32))).getD q) q

theorem Mmio.setAll_selected {i : Nat} (writes : List (Nat × Nat)) (stays : ∀ w ∈ writes, w.1 ≠ 0x030)
    {regs : Mmio} {q : Queue} (selected : regs.queueSel = i) (queue : regs.dev.queue? i = some q) :
    (regs.setAll writes).dev.queue? i = some (q.putAll writes) := by
  induction writes generalizing regs q with
  | nil => exact queue
  | cons w writes ih =>
    have here : (regs.set w.1 (w.2 % 2 ^ 32)).queueSel = i := by
      rw [Mmio.set_queueSel, if_neg (stays w List.mem_cons_self), selected]
    refine ih (fun v member => stays v (List.mem_cons_of_mem w member)) here ?_
    rw [Mmio.set_queue, queue, selected]
    dsimp only
    cases QueueReg.at? w.1 with
    | none => rfl
    | some r => exact if_pos rfl

theorem Queue.putAll_twoPlaces (q : Queue) : q.putAll twoPlacesWrites = twoPlaces q.lastAvailIdx := by
  have zero (x : Nat) : setHigh (setLow x 0) 0 = 0 := by
    unfold setHigh setLow
    omega
  simp [Queue.putAll, twoPlacesWrites, QueueReg.at?, Queue.put, zero, twoPlaces]

theorem setAll_twoPlaces {regs : Mmio} {i : Nat} {q : Queue} (inside : i < maxQueues)
    (queue : regs.dev.queue? i = some q) :
    (regs.setAll (twoPlacesSetup i)).dev.queue? i = some (twoPlaces q.lastAvailIdx) := by
  have word : i % 2 ^ 32 = i := Nat.mod_eq_of_lt (Nat.lt_trans inside (by decide))
  have selected : (regs.set 0x030 (i % 2 ^ 32)).queueSel = i := by
    rw [Mmio.set_queueSel, if_pos rfl, word]
  have none_ : QueueReg.at? 0x030 = none := rfl
  have kept : (regs.set 0x030 (i % 2 ^ 32)).dev.queue? i = some q := by rw [Mmio.set_queue, none_, queue]
  have stays : ∀ w ∈ twoPlacesWrites, w.1 ≠ 0x030 := by simp [twoPlacesWrites]
  rw [twoPlacesSetup, Mmio.setAll_cons, Mmio.setAll_selected twoPlacesWrites stays selected kept,
    Queue.putAll_twoPlaces]

theorem unused_of_resetsFresh {regs : Mmio} (typed : regs.Typed) (fresh : ResetsFresh regs) :
    ∀ q ∈ regs.dev.queues, q.lastAvailIdx = 0 := by
  intro q member
  obtain ⟨i, held, found⟩ := List.getElem_of_mem member
  have inside : i < maxQueues := by
    rw [← typed.count]
    exact held
  have word : i % 2 ^ 32 = i := Nat.mod_eq_of_lt (Nat.lt_trans inside (by decide))
  have queue : regs.dev.queue? i = some q := by
    unfold Device.queue?
    rw [if_pos inside, List.getElem?_eq_getElem held, found]
  have reprograms := twoPlacesSetup_reprograms inside
  have same := fresh (List Nat) Unit recorder (· = i) (twoPlacesSetup i) [.write doorbell i] []
    oneNewChain (recorder_uses _) reprograms (by
      rintro input (⟨⟩ | ⟨_, ⟨⟩⟩)
      exact fun _ => word)
  have rung (start : Mmio) {last : Nat} (short : last < 65536)
      (stands : (start.dev.queue? i).map Queue.lastAvailIdx = some last) :
      ((Board.exec recorder ⟨[], oneNewChain, start⟩
        (afterReset (twoPlacesSetup i) [.write doorbell i])).map
        Board.outcome).map Prod.fst = some (if last = 0 then [7] else if last =
          1 then [] else [7, 7]) := by
    have kept := (Mmio.set_last start statusReg 0 i).trans stands
    obtain ⟨r, found, index⟩ := Option.map_eq_some_iff.mp kept
    have programmed := setAll_twoPlaces inside found
    rw [index] at programmed
    rw [exec_afterReset recorder [] oneNewChain start _ reprograms.registers, Board.exec, Run.exec,
      Board.step, if_pos rfl, word, ← notify_recorder programmed short]
    dsimp only
    cases notify recorder.consumer [] oneNewChain
      ((start.set statusReg 0).setAll (twoPlacesSetup i)).dev i <;> rfl
  have short := (typed.queues q member).2.2.1
  have old := rung regs short (by rw [queue]; rfl)
  have new := rung (freshRegs regs.dev.skipNotifyQueues) (by decide : 0 < 65536)
    (by rw [freshRegs_last, if_pos inside])
  rw [same] at old
  have heads := Option.some.inj (new.symm.trans old)
  by_contra used
  rw [if_pos rfl, if_neg used] at heads
  split at heads
  · cases heads
  · cases heads

/-- A reset gives a fresh device exactly when no queue has taken a chain, or as many as bring its index
around to zero. -/
theorem virtio_reset_fresh_iff {regs : Mmio} (typed : regs.Typed) :
    ResetsFresh regs ↔ ∀ q ∈ regs.dev.queues, q.lastAvailIdx = 0 :=
  ⟨unused_of_resetsFresh typed, resetsFresh_of_unused typed⟩

theorem unused_typed : (inUse 0 0).Typed := by
  refine ⟨rfl, ?_, by decide, by decide, by decide, by decide⟩
  decide

/-- A driver that starts over on a device that another has set up, but from which no chain was taken. -/
theorem programmed_device_resets_fresh : inUse 0 0 ≠ freshRegs 0 ∧ ResetsFresh (inUse 0 0) :=
  ⟨by decide, (virtio_reset_fresh_iff unused_typed).mpr (by decide)⟩

/-- The transmit queue of a network device, with its tables at 0, 32 and 48. -/
def transmitSetup : List (Nat × Nat) :=
  [(0x030, 1), (0x038, 2), (0x044, 1), (0x080, 0), (0x084, 0), (0x090, 32), (0x094, 0), (0x0A0, 48),
    (0x0A4, 0)] ++
    [(0x030, 0), (0x038, 0), (0x044, 0), (0x080, 0), (0x084, 0), (0x090, 0), (0x094, 0), (0x0A0, 0),
    (0x0A4, 0)]

/-- A chain of one buffer, which holds the header and a frame of two bytes. -/
def transmitRam : Bytes :=
  le 8 72 ++ le 4 14 ++ zeros 20 ++ zeros 40 ++ zeros 12 ++ [0x41, 0x42]

/-- The driver offers the chain as the first of a ring, and rings. -/
def transmitFirst : List (Input (List Bytes) RxFrame) :=
  [.store 32 (zeros 8), .store 34 (le 2 1), .write doorbell 1]

theorem transmitSetup_reprograms : Reprograms (· < 2) transmitSetup := by
  refine ⟨by simp [transmitSetup, doorbell], fun i used _ r => ?_⟩
  have all : programmed none transmitSetup =
    ([.num, .ready, .descLow, .descHigh, .driverLow, .driverHigh,
      .deviceLow, .deviceHigh].map (Prod.mk 1)) ++ [.num, .ready, .descLow, .descHigh, .driverLow,
      .driverHigh, .deviceLow, .deviceHigh].map (Prod.mk 0) := rfl
  rw [all]
  match i, used with
  | 0, _ => cases r <;> simp
  | 1, _ => cases r <;> simp

def usedBoard : Option (Board (List Bytes)) :=
  Board.exec netPeripheral (Board.boot 0 transmitRam 0 [])
    (transmitSetup.map (fun w => .write w.1 w.2) ++ transmitFirst)

/-- The driver starts over. Its next frame is the first of a new ring, but for the device it is the one
that was sent before, and it does not leave. -/
theorem used_queue_survives_reset : ∃ board, usedBoard = some board ∧ ¬ ResetsFresh board.regs := by
  have reached : usedBoard.isSome = true := by decide +kernel
  obtain ⟨board, ran⟩ := Option.isSome_iff_exists.mp reached
  refine ⟨board, ran, fun fresh => ?_⟩
  have rings : ∀ input ∈ transmitFirst, input.Rings (· < 2) := by
    rintro input (⟨⟩ | ⟨_, ⟨⟩ | ⟨_, ⟨⟩ | ⟨_, ⟨⟩⟩⟩⟩)
    · trivial
    · trivial
    · exact fun _ => (by decide : 1 < 2)
  have same := fresh (List Bytes) RxFrame netPeripheral (· < 2) transmitSetup transmitFirst board.state
    board.mem netPeripheral_uses transmitSetup_reprograms rings
  have old : (usedBoard.bind fun b => (Board.exec netPeripheral b
    (afterReset transmitSetup transmitFirst)).map
      fun last => last.state.length) = some 1 := by decide +kernel
  have new : (usedBoard.bind fun b => (Board.exec netPeripheral ⟨b.state, b.mem,
    freshRegs b.regs.dev.skipNotifyQueues⟩
      (afterReset transmitSetup transmitFirst)).map fun last => last.state.length) =
        some 2 := by decide +kernel
  have sent (start : Board (List Bytes)) :
      (Board.exec netPeripheral start (afterReset transmitSetup transmitFirst)).map
        (fun last => last.state.length) =
        ((Board.exec netPeripheral start (afterReset transmitSetup transmitFirst)).map Board.outcome).map
          fun outcome => outcome.1.length := by
    rw [Option.map_map]
    rfl
  rw [ran, Option.bind_some, sent] at old new
  rw [same, new] at old
  cases old

end Machinen.Vmm
