import Machinen.Lib.Run
import Machinen.Vmm.VsockTx

/-! The register window of a virtio device, and the board that a guest drives with it: stores
into its RAM, register writes, and the packets that the host injects. -/
namespace Machinen.Vmm

open Bytes

variable {S P : Type}

structure Mmio where
  dev : Device
  deviceFeaturesSel : Nat := 0
  driverFeatures : Nat := 0
  driverFeaturesSel : Nat := 0
  queueSel : Nat := 0
  status : Nat := 0
  deriving DecidableEq

def setLow (x half : Nat) : Nat := x / 2 ^ 32 * 2 ^ 32 + half
def setHigh (x half : Nat) : Nat := half * 2 ^ 32 + x % 2 ^ 32

def Mmio.configure (regs : Mmio) (f : Queue → Queue) : Mmio :=
  match regs.dev.queue? regs.queueSel with
  | none => regs
  | some q => { regs with dev := regs.dev.setQueue regs.queueSel (f q) }

def Mmio.acknowledge (regs : Mmio) (mask : Nat) : Mmio :=
  { regs with dev := { regs.dev with interruptStatus := regs.dev.interruptStatus &&& (2 ^ 32 - 1 - mask) } }

def Mmio.setDriverFeatures (regs : Mmio) (half : Nat) : Mmio :=
  match regs.driverFeaturesSel with
  | 0 => { regs with driverFeatures := setLow regs.driverFeatures half }
  | 1 => { regs with driverFeatures := setHigh regs.driverFeatures half }
  | _ => regs

def Mmio.set (regs : Mmio) (off v32 : Nat) : Mmio :=
  match off with
  | 0x014 => { regs with deviceFeaturesSel := v32 }
  | 0x020 => regs.setDriverFeatures v32
  | 0x024 => { regs with driverFeaturesSel := v32 }
  | 0x030 => { regs with queueSel := v32 }
  | 0x038 => regs.configure fun q => { q with num := v32 }
  | 0x044 => regs.configure fun q => { q with ready := v32 }
  | 0x064 => regs.acknowledge v32
  | 0x070 => { regs with status := v32 }
  | 0x080 => regs.configure fun q => { q with descAddr := setLow q.descAddr v32 }
  | 0x084 => regs.configure fun q => { q with descAddr := setHigh q.descAddr v32 }
  | 0x090 => regs.configure fun q => { q with driverAddr := setLow q.driverAddr v32 }
  | 0x094 => regs.configure fun q => { q with driverAddr := setHigh q.driverAddr v32 }
  | 0x0A0 => regs.configure fun q => { q with deviceAddr := setLow q.deviceAddr v32 }
  | 0x0A4 => regs.configure fun q => { q with deviceAddr := setHigh q.deviceAddr v32 }
  | _ => regs

/-- A device's way with chains, and with what the host sends. -/
structure Peripheral (S P : Type) where
  consumer : Consumer S
  inject : Memory → Device → P → Option (Memory × Device × Bool)

structure Board (S : Type) where
  state : S
  mem : Memory
  regs : Mmio

/-- The guest's stores and register writes; what the host injects, and what becomes of its own
state in between. -/
inductive Input (S P : Type) where
  | store (off : Nat) (data : Bytes)
  | write (off value : Nat)
  | inject (packet : P)
  | host (state : S)

def doorbell : Nat := 0x050

namespace Board

/-- None where a safety check of the build fails. -/
def step (peripheral : Peripheral S P) (board : Board S) : Input S P → Option (Board S)
  | .store off data =>
    some (if off + data.length ≤ board.mem.bytes.length then
        { board with mem := { board.mem with bytes := store board.mem.bytes off data } }
      else board)
  | .write off value =>
    if off = doorbell then
      (notify peripheral.consumer board.state board.mem board.regs.dev (value % 2 ^ 32)).map fun served =>
        ⟨served.state, served.mem, { board.regs with dev := served.dev }⟩
    else some { board with regs := board.regs.set off (value % 2 ^ 32) }
  | .inject packet =>
    (peripheral.inject board.mem board.regs.dev packet).map fun injected =>
      { board with mem := injected.1, regs := { board.regs with dev := injected.2.1 } }
  | .host state => some { board with state }

def boot (base : Nat) (ram : Bytes) (skips : Nat) (state : S) : Board S :=
  ⟨state, ⟨base, ram, []⟩, { dev := { queues := List.replicate maxQueues {}, skipNotifyQueues := skips } }⟩

abbrev exec (peripheral : Peripheral S P) : Board S → List (Input S P) → Option (Board S) :=
  Run.exec (step peripheral)

end Board

structure RxFrame where
  bytes : Bytes
  some_ : bytes ≠ []
  short : bytes.length ≤ 16 * 1024

structure RxPacket where
  hdr : VsockHdr
  body : Bytes
  short : body.length ≤ rxBodyPerPacketMax

def netPeripheral : Peripheral (List Bytes) RxFrame :=
  ⟨netConsumer, fun m dev frame => injectRx m dev frame.bytes⟩

def vsockPeripheral (scratch : Bytes) (dispatch : Dispatch S) : Peripheral S RxPacket :=
  ⟨vsockConsumer scratch dispatch, fun m dev packet => injectVsock m dev packet.hdr packet.body⟩

end Machinen.Vmm
