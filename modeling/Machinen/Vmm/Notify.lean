import Machinen.Vmm.Virtio

/-! The doorbell of a virtio device: `notify`, the loop over the available ring, the net
device's walk over a transmit chain and the chain handler of vsock. -/
namespace Machinen.Vmm

open Bytes

variable {S : Type}

def scratchLen : Nat := 16 * 1024
def netHdrSize : Nat := 12

def takeBuffer (m : Memory) (desc : VringDesc) (written : Bytes) : Option Bytes :=
  if 0 < desc.len ∧ written.length < scratchLen then do
    let takeBytes := min desc.len (scratchLen - written.length)
    match ← m.guestSlice desc.addr takeBytes with
    | none => return written
    | some off => return written ++ slice m.bytes off takeBytes
  else some written

/-- The loop of `walk_and_emit`. -/
def gatherChain (m : Memory) (q : Queue) : Nat → Nat → Bytes → Option Bytes
  | 0, _, written => some written
  | steps + 1, idx, written => do
    match ← readDescriptor m q idx with
    | none => return written
    | some desc =>
      let written ← takeBuffer m desc written
      if desc.hasNext then gatherChain m q steps desc.next written else return written

def walkAndEmit (m : Memory) (q : Queue) (head : Nat) : Option Bytes :=
  if q.num = 0 then none else gatherChain m q maxChainDescriptors head []

/-- What is done with one chain, beside the ring's own index: a `request_handler`, or the
body of `drain_avail`. It has a state of its own. -/
abbrev Handler (S : Type) := S → Memory → Device → Nat → Nat → Option (S × Memory × Device)

def emitChain : Handler (List Bytes) := fun frames m dev qIdx head =>
  match dev.queue? qIdx with
  | none => none
  | some q => do
    let written ← walkAndEmit m q head
    let pushed ← pushUsed m q head written.length
    return (if netHdrSize < written.length then frames ++ [written.drop netHdrSize] else frames, pushed,
      dev)

/-- `last_avail_idx +%= 1` of the queue that is being processed. -/
def Device.consume (dev : Device) (qIdx : Nat) : Device :=
  match dev.queue? qIdx with
  | none => dev
  | some q => dev.setQueue qIdx q.consume

structure Served (S : Type) where
  state : S
  mem : Memory
  dev : Device
  heads : List Nat
  finished : Bool

/-- The loop of `notify` and of `drain_avail`, with the number of chains it may still take. -/
def serveChains (handler : Handler S) (qIdx availIdx : Nat) : Nat → S → Memory → Device → Option (Served S)
  | 0, s, m, dev => some ⟨s, m, dev, [], true⟩
  | chains + 1, s, m, dev =>
    match dev.queue? qIdx with
    | none => none
    | some q =>
      if q.lastAvailIdx = availIdx then some ⟨s, m, dev, [], true⟩
      else do
        match ← readAvailRingEntry m q q.lastAvailIdx with
        | none => return ⟨s, m, dev, [], false⟩
        | some head =>
          let (s, m, dev) ← handler s m dev qIdx head
          let rest ← serveChains handler qIdx availIdx chains s m (dev.consume qIdx)
          return { rest with heads := head :: rest.heads }

/-- A handler and the queues that `notify` leaves alone. -/
structure Consumer (S : Type) where
  handler : Handler S
  skips : Device → Nat → Bool

/-- A device with a `request_handler`. -/
def requestConsumer (handler : Handler S) : Consumer S :=
  ⟨handler, fun dev qIdx => dev.skipNotifyQueues.testBit qIdx⟩

def netConsumer : Consumer (List Bytes) := ⟨emitChain, fun _ qIdx => qIdx == 0⟩

def Served.raise (served : Served S) : Served S :=
  if served.finished then { served with dev := served.dev.raise } else served

def notify (consumer : Consumer S) (s : S) (m : Memory) (dev : Device) (qIdx : Nat) : Option (Served S) :=
  match dev.queue? qIdx with
  | none => some ⟨s, m, dev, [], false⟩
  | some q =>
    if q.ready = 0 ∨ q.num = 0 ∨ consumer.skips dev qIdx then some ⟨s, m, dev, [], false⟩
    else do
      match ← readAvailHeader m q with
      | none => return ⟨s, m, dev, [], false⟩
      | some availIdx =>
        let served ← serveChains consumer.handler qIdx availIdx q.num s m dev
        return served.raise

end Machinen.Vmm
