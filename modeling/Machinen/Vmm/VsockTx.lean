import Machinen.Vmm.Notify

/-! The vsock device's chain handler: a packet is gathered from a transmit chain, the chain is
acknowledged, and the bridge deals with the packet, which it may answer with one of its own. -/
namespace Machinen.Vmm

open Bytes

variable {S : Type}

def headerSize : Nat := 44
def packetScratch : Nat := 64 * 1024 + headerSize
def queueTx : Nat := 1

def VsockHdr.decode (bs : Bytes) : VsockHdr where
  srcCid := toNat (slice bs 0 8)
  dstCid := toNat (slice bs 8 8)
  srcPort := toNat (slice bs 16 4)
  dstPort := toNat (slice bs 20 4)
  len := toNat (slice bs 24 4)
  type := toNat (slice bs 28 2)
  op := toNat (slice bs 30 2)
  flags := toNat (slice bs 32 4)
  bufAlloc := toNat (slice bs 36 4)
  fwdCnt := toNat (slice bs 40 4)

def packetTake (desc : VringDesc) (count : Nat) : Nat := min desc.len (packetScratch - count)

/-- The loop of `read_packet`: a buffer outside RAM gives the packet up. -/
def gatherPacket (m : Memory) (q : Queue) : Nat → Nat → Bytes → Option (Option Bytes)
  | 0, _, written => some (some written)
  | steps + 1, idx, written => do
    match ← readDescriptor m q idx with
    | none => return none
    | some desc =>
      let next (written : Bytes) : Option (Option Bytes) :=
        if desc.hasNext then gatherPacket m q steps desc.next written else some (some written)
      if packetTake desc written.length = 0 then next written
      else
        match ← m.guestSlice desc.addr (packetTake desc written.length) with
        | none => return none
        | some off => next (written ++ slice m.bytes off (packetTake desc written.length))

def parsePacket (scratch written : Bytes) : Option (VsockHdr × Bytes) :=
  if written.length < headerSize then none
  else
    let hdr := VsockHdr.decode (written.take headerSize)
    let filled := written ++ scratch.drop written.length
    let bodyEnd := min packetScratch (headerSize + hdr.len)
    some (hdr, slice filled headerSize (bodyEnd - headerSize))

/-- What the bridge makes of a packet: its answer, and its state once it knows whether the
receive ring took that. None where it traps. -/
abbrev Dispatch (S : Type) := S → VsockHdr → Bytes → Option (Option VsockHdr × (Bool → S))

/-- `dispatch_guest_packet` as the device sees it: at most one packet without a body comes back. -/
def dispatchGuestPacket (dispatch : Dispatch S) (s : S) (m : Memory) (dev : Device) (hdr : VsockHdr)
    (body : Bytes) : Option (S × Memory × Device) := do
  let (answer, settle) ← dispatch s hdr body
  match answer with
  | none => return (settle false, m, dev)
  | some reply =>
    let (m, dev, placed) ← injectVsock m dev reply []
    return (settle placed, m, dev)

def handleTxChain (scratch : Bytes) (dispatch : Dispatch S) : Handler S := fun s m dev qIdx head =>
  match dev.queue? qIdx with
  | none => none
  | some q =>
    if qIdx ≠ queueTx then (pushUsed m q head 0).map fun pushed => (s, pushed, dev)
    else do
      let gathered ← gatherPacket m q maxChainDescriptors head []
      match gathered.bind (parsePacket scratch) with
      | none => (pushUsed m q head 0).map fun pushed => (s, pushed, dev)
      | some (hdr, body) =>
        let pushed ← pushUsed m q head (headerSize + body.length)
        dispatchGuestPacket dispatch s pushed dev hdr body

def vsockConsumer (scratch : Bytes) (dispatch : Dispatch S) : Consumer S :=
  requestConsumer (handleTxChain scratch dispatch)

end Machinen.Vmm
