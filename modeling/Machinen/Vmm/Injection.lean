import Machinen.Lib.Run
import Machinen.Vmm.Virtio

/-! A chain as a thread completes it, one store at a time: a background thread that injects, or
the vCPU's thread that answers a kick. Everything before the used ring is a copy into guest
memory; then come the used element, the used index and, last, the queue's `last_avail_idx`. -/
namespace Machinen.Vmm

open Bytes

/- An index store is `early` when a capture in progress has still to encode its page. -/
inductive Phase where
  | idle
  | copying (head : Nat)
  | elemWritten (slot : UsedSlot)
  | idxWritten (early : Bool)
  | unpublished
  deriving DecidableEq, Repr

structure Port where
  dev : Device
  phase : Phase
  log : List (Nat × Nat)
  deriving DecidableEq, Repr

inductive Micro where
  | start
  | copy (addr : Nat) (data : Bytes)
  | fail
  | elem (len : Nat)
  | idx
  | bump
  deriving DecidableEq, Repr

def Port.consume (k : Nat) (port : Port) (q : Queue) : Port :=
  { port with dev := (port.dev.setQueue k q.consume).raise, phase := .idle }

/-- One step at a queue. A used ring outside guest RAM is skipped in silence by `push_used`,
and the chain is consumed all the same. -/
def injectStep (k : Nat) (encoded : Nat → Bool) (m : Memory) (port : Port) :
    Micro → Option (Memory × Port)
  | .start =>
    match port.phase, port.dev.queue? k with
    | .idle, some q =>
      if q.ready = 0 ∨ q.num = 0 then none
      else
        match nextHead m q with
        | some (some head) => some (m, { port with phase := .copying head })
        | _ => none
    | _, _ => none
  | .copy addr data =>
    match port.phase, m.guestSlice addr data.length with
    | .copying _, some (some off) => some (m.write off data, port)
    | _, _ => none
  | .fail =>
    match port.phase with
    | .copying _ => some (m, { port with phase := .idle })
    | _ => none
  | .elem len =>
    match port.phase, port.dev.queue? k with
    | .copying head, some q =>
      match usedSlot m q with
      | some (some slot) =>
        some (writeUsedElem m slot head len,
          { port with phase := .elemWritten slot, log := port.log ++ [(head, len)] })
      | some none => some (m, { port with phase := .unpublished })
      | none => none
    | _, _ => none
  | .idx =>
    match port.phase with
    | .elemWritten slot =>
      some (writeUsedIdx m slot, { port with phase := .idxWritten (!encoded slot.idxOff) })
    | _ => none
  | .bump =>
    match port.phase, port.dev.queue? k with
    | .idxWritten _, some q => some (m, port.consume k q)
    | .unpublished, some q => some (m, port.consume k q)
    | _, _ => none

section Atomic

variable (encoded : Nat → Bool)

def alone (s : Memory × Port) (a : Micro) : Option (Memory × Port) := injectStep 0 encoded s.1 s.2 a

theorem copies_run {m : Memory} (word : m.bytes.length < 2 ^ 64) {port : Port} {head : Nat}
    (copying : port.phase = .copying head) (stores : List Store)
    (inside : ∀ s ∈ stores, s.off + s.data.length ≤ m.bytes.length) :
    Run.exec (alone encoded) (m, port) (stores.map fun s => .copy (m.base + s.off) s.data) =
      some ({ m with bytes := Memory.replay m.bytes stores, stores := m.stores ++ stores }, port) := by
  induction stores generalizing m with
  | nil => simp [Run.exec, Memory.replay]
  | cons s stores ih =>
    have fits := inside s List.mem_cons_self
    have found := Memory.guestSlice_inside word fits
    have first : alone encoded (m, port) (.copy (m.base + s.off) s.data) =
        some (m.write s.off s.data, port) := by
      simp only [alone, injectStep, copying, found]
    have rest := ih (m := m.write s.off s.data) (by simpa using word) (fun t member => by
      simpa using inside t (List.mem_cons_of_mem _ member))
    simp only [List.map_cons, Run.exec, first, Option.bind_some]
    simp only [Memory.write_base, Memory.write_stores, List.append_assoc, List.singleton_append] at rest
    exact rest

theorem injectInto_steps {walk : Queue → Nat → Copy → Nat → Option Copy}
    (through_device : WalkDeviceOnly walk) {sources : List Bytes} {m m' : Memory} {dev dev' : Device}
    {log : List (Nat × Nat)} (word : m.bytes.length < 2 ^ 64)
    (injected : injectInto walk sources m dev = some (m', dev', true)) :
    ∃ micros log', Run.exec (alone encoded) (m, ⟨dev, .idle, log⟩) micros =
      some (m', ⟨dev', .idle, log'⟩) := by
  unfold injectInto at injected
  split at injected
  · cases injected
  · rename_i q known
    split at injected
    · cases injected
    · rename_i live
      simp only [Option.bind_eq_bind, Option.bind_eq_some_iff] at injected
      obtain ⟨found, posted, injected⟩ := injected
      cases found with
      | none => cases injected
      | some head =>
        simp only [Option.bind_eq_some_iff] at injected
        obtain ⟨copied, walked, injected⟩ := injected
        obtain ⟨added, ext⟩ := through_device q _ _ head copied walked
        have begun : alone encoded (m, ⟨dev, .idle, log⟩) .start =
            some (m, ⟨dev, .copying head, log⟩) := by
          simp only [alone, injectStep, known, if_neg live, posted]
        have copying : (⟨dev, .copying head, log⟩ : Port).phase = .copying head := rfl
        have copies := copies_run encoded word copying added ext.inside
        have copied_eq : ({ m with bytes := Memory.replay m.bytes added, stores := m.stores ++ added } :
            Memory) = copied.mem := by
          rw [← ext.bytes_eq, ← ext.stores_eq, ← ext.base_eq]
        rw [copied_eq] at copies
        split at injected
        · obtain ⟨published, pushed, injected⟩ := Option.bind_eq_some_iff.mp injected
          cases injected
          simp only [pushUsed, Option.bind_eq_bind, Option.bind_eq_some_iff] at pushed
          obtain ⟨found, slot_found, pushed⟩ := pushed
          cases found with
          | none =>
            obtain rfl := Option.some.inj pushed
            refine ⟨.start :: (added.map fun s => .copy (m.base + s.off) s.data) ++
              [.elem copied.written, .bump], log, ?_⟩
            rw [List.cons_append, Run.exec, begun, Option.bind_some, Run.exec_append, copies]
            simp only [Option.bind_some, Run.exec, alone, injectStep, known, slot_found, Port.consume]
          | some slot =>
            obtain rfl := Option.some.inj pushed
            refine ⟨.start :: (added.map fun s => .copy (m.base + s.off) s.data) ++
              [.elem copied.written, .idx, .bump], log ++ [(head, copied.written)], ?_⟩
            rw [List.cons_append, Run.exec, begun, Option.bind_some, Run.exec_append, copies]
            simp only [Option.bind_some, Run.exec, alone, injectStep, known, slot_found, Port.consume]
        · cases injected

end Atomic

end Machinen.Vmm
