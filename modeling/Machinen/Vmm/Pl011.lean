import Machinen.Lib.Bytes
import Machinen.Lib.Run

/-! The PL011 UART: the receive FIFO that host input is pushed into, and the registers that a guest
reads it through. -/
namespace Machinen.Vmm

open Bytes

def capturedCapacity : Nat := 256 * 1024
def rxCapacity : Nat := 4096

/-- Where the register window lies; it collides with nothing at 0 and ends in the address space. -/
def UartBase : Type := { base : Nat // base ≠ 0 ∧ base + 0x1000 < 2 ^ 64 }

structure Pl011 where
  base : UartBase
  captured : Bytes := []
  rx : Bytes := []
  captureEnabled : Bool := true
  imsc : BitVec 32 := 0
  ris : BitVec 32 := 0
  capturedFits : captured.length ≤ capturedCapacity := by exact Nat.zero_le _
  rxFits : rx.length ≤ rxCapacity := by exact Nat.zero_le _

namespace Pl011

def RX_INT : BitVec 32 := 0x10

def handles (u : Pl011) (addr : Nat) : Bool := decide (u.base.val ≤ addr ∧ addr < u.base.val + 0x1000)

def irqAsserted (u : Pl011) : Bool := u.ris &&& u.imsc != 0

/-- What fits of the bytes; the rest is dropped. -/
def accepts (u : Pl011) (bytes : Bytes) : Bytes := bytes.take (rxCapacity - u.rx.length)

theorem accepts_fit (u : Pl011) (bytes : Bytes) : (u.rx ++ u.accepts bytes).length ≤ rxCapacity := by
  have fits := u.rxFits
  simp only [accepts, List.length_append, List.length_take]
  omega

def pushRx (u : Pl011) (bytes : Bytes) : Pl011 :=
  if (u.accepts bytes).length = 0 then u
  else { u with
    rx := u.rx ++ u.accepts bytes
    rxFits := u.accepts_fit bytes
    ris := u.ris ||| RX_INT }

/-- A byte that the guest sends; it is kept for tests only. -/
def capture (u : Pl011) (byte : UInt8) : Pl011 :=
  if room : u.captureEnabled = true ∧ u.captured.length < capturedCapacity then
    { u with
      captured := u.captured ++ [byte]
      capturedFits := by
        rw [List.length_append]
        exact room.2 }
  else u

def acknowledge (u : Pl011) (value : BitVec 32) : Pl011 :=
  let ris := u.ris &&& ~~~value
  { u with ris := if 0 < u.rx.length then ris ||| RX_INT else ris }

/-- No result is a failed assertion. -/
def write (u : Pl011) (addr : Nat) (value : BitVec 64) : Option Pl011 :=
  if u.handles addr then
    match addr - u.base.val with
    | 0x000 => some (u.capture (UInt8.ofBitVec (value.setWidth 8)))
    | 0x038 => some { u with imsc := value.setWidth 32 }
    | 0x044 => some (u.acknowledge (value.setWidth 32))
    | _ => some u
  else none

def pop (u : Pl011) : BitVec 64 × Pl011 :=
  match held : u.rx with
  | [] => (0, u)
  | byte :: rest =>
    (byte.toBitVec.setWidth 64, { u with
      rx := rest
      rxFits := by
        have fits := u.rxFits
        rw [held, List.length_cons] at fits
        exact Nat.le_of_succ_le fits
      ris := if rest.length = 0 then u.ris &&& ~~~RX_INT else u.ris })

/-- The flag register; bit 4 is set while the FIFO is empty. -/
def flags (u : Pl011) : BitVec 64 := 0x80 ||| if u.rx.length = 0 then 0x10 else 0

def readRegister (u : Pl011) : Nat → BitVec 64 × Pl011
  | 0x000 => u.pop
  | 0x018 => (u.flags, u)
  | 0x038 => (u.imsc.setWidth 64, u)
  | 0x03C => (u.ris.setWidth 64, u)
  | 0x040 => ((u.ris &&& u.imsc).setWidth 64, u)
  | 0xFE0 => (0x11, u)
  | 0xFE4 => (0x10, u)
  | 0xFE8 => (0x14, u)
  | 0xFEC => (0x00, u)
  | 0xFF0 => (0x0D, u)
  | 0xFF4 => (0xF0, u)
  | 0xFF8 => (0x05, u)
  | 0xFFC => (0xB1, u)
  | _ => (0, u)

def read (u : Pl011) (addr : Nat) : Option (BitVec 64 × Pl011) :=
  if u.handles addr then some (u.readRegister (addr - u.base.val)) else none

end Pl011

inductive UartAccess where
  | push (bytes : Bytes)
  | read (addr : Nat)
  | write (addr : Nat) (value : BitVec 64)

/-- The UART with what it took from the host and what the guest read: a byte for each read of the data
register that the flag register, read before, announced. -/
structure Console where
  uart : Pl011
  accepted : Bytes := []
  received : Bytes := []

namespace Console

def start (base : UartBase) (captureEnabled : Bool) : Console := { uart := { base, captureEnabled } }

def step (c : Console) : UartAccess → Option Console
  | .push bytes => some { c with
      uart := c.uart.pushRx bytes
      accepted := c.accepted ++ c.uart.accepts bytes }
  | .read addr => (c.uart.read addr).map fun (value, uart) => { c with
      uart
      received := if addr = c.uart.base.val ∧ c.uart.flags.getLsbD 4 = false then
          c.received ++ [UInt8.ofBitVec (value.setWidth 8)]
        else c.received }
  | .write addr value => (c.uart.write addr value).map fun uart => { c with uart }

end Console

/-- The access goes to the window; only such accesses are routed to the UART. -/
def UartAccess.mapped (base : UartBase) : UartAccess → Prop
  | .push _ => True
  | .read addr | .write addr _ => base.val ≤ addr ∧ addr < base.val + 0x1000

namespace Pl011

theorem handles_iff (u : Pl011) (addr : Nat) :
    u.handles addr = true ↔ u.base.val ≤ addr ∧ addr < u.base.val + 0x1000 := decide_eq_true_iff

def Announces (u : Pl011) : Prop := u.ris.getLsbD 4 = true ↔ u.rx ≠ []

theorem raised (ris : BitVec 32) : (ris ||| RX_INT).getLsbD 4 = true := by
  rw [BitVec.getLsbD_or]
  exact Bool.or_eq_true_iff.mpr (.inr rfl)

theorem cleared (ris : BitVec 32) : (ris &&& ~~~RX_INT).getLsbD 4 = false := by
  rw [BitVec.getLsbD_and]
  exact Bool.and_eq_false_iff.mpr (.inr rfl)

theorem masked (ris mask : BitVec 32) (low : ris.getLsbD 4 = false) :
    (ris &&& mask).getLsbD 4 = false := by
  rw [BitVec.getLsbD_and, low]
  rfl

theorem flags_clear_iff (u : Pl011) : u.flags.getLsbD 4 = false ↔ u.rx ≠ [] := by
  unfold flags
  cases u.rx with
  | nil => exact iff_of_false (by decide) (fun some_ => some_ rfl)
  | cons byte rest =>
    rw [List.length_cons, if_neg (Nat.succ_ne_zero _)]
    exact iff_of_true (by decide) (List.cons_ne_nil byte rest)

theorem pushRx_base (u : Pl011) (bytes : Bytes) : (u.pushRx bytes).base = u.base := by
  unfold pushRx
  split <;> rfl

theorem pushRx_rx (u : Pl011) (bytes : Bytes) : (u.pushRx bytes).rx = u.rx ++ u.accepts bytes := by
  unfold pushRx
  split
  · rename_i nothing
    rw [List.eq_nil_of_length_eq_zero nothing, List.append_nil]
  · rfl

theorem pushRx_announces {u : Pl011} (announces : u.Announces) (bytes : Bytes) :
    (u.pushRx bytes).Announces := by
  unfold pushRx
  split
  · exact announces
  · rename_i something
    refine iff_of_true (raised u.ris) ?_
    exact List.append_ne_nil_of_right_ne_nil _ fun empty => something (congrArg List.length empty)

structure Wrote (u v : Pl011) : Prop where
  base : v.base = u.base
  rx : v.rx = u.rx
  announces : u.Announces → v.Announces

theorem acknowledge_wrote (u : Pl011) (value : BitVec 32) : Wrote u (u.acknowledge value) := by
  refine ⟨rfl, rfl, fun announces => ?_⟩
  unfold acknowledge Announces
  dsimp only
  split
  · rename_i waiting
    exact iff_of_true (raised _) (List.ne_nil_of_length_pos waiting)
  · rename_i empty
    have none_ : u.rx = [] := List.eq_nil_of_length_eq_zero (Nat.eq_zero_of_not_pos empty)
    have low : u.ris.getLsbD 4 = false := by
      cases bit : u.ris.getLsbD 4 with
      | false => rfl
      | true => exact absurd none_ (announces.mp bit)
    refine iff_of_false ?_ (fun some_ => some_ none_)
    rw [masked u.ris _ low]
    exact Bool.false_ne_true

theorem write_wrote {u v : Pl011} {addr : Nat} {value : BitVec 64}
    (wrote : u.write addr value = some v) : Wrote u v := by
  obtain ⟨-, wrote⟩ := Option.ite_none_right_eq_some.mp wrote
  split at wrote
  · cases wrote
    unfold capture
    split
    · exact ⟨rfl, rfl, id⟩
    · exact ⟨rfl, rfl, id⟩
  · cases wrote
    exact ⟨rfl, rfl, id⟩
  · cases wrote
    exact acknowledge_wrote u _
  · cases wrote
    exact ⟨rfl, rfl, id⟩

theorem write_isSome (u : Pl011) (addr : Nat) (value : BitVec 64) (handled : u.handles addr = true) :
    ∃ v, u.write addr value = some v := by
  unfold write
  rw [if_pos handled]
  split <;> exact ⟨_, rfl⟩

theorem pop_nil {u : Pl011} (empty : u.rx = []) : u.pop = (0, u) := by
  unfold pop
  split
  · rfl
  · rename_i held
    exact nomatch empty.symm.trans held

structure Popped (u v : Pl011) (value : BitVec 64) : Prop where
  base : v.base = u.base
  rx : u.rx = UInt8.ofBitVec (value.setWidth 8) :: v.rx
  announces : u.Announces → v.Announces

theorem pop_cons {u : Pl011} (some_ : u.rx ≠ []) : Popped u u.pop.2 u.pop.1 := by
  unfold pop
  split
  · rename_i empty
    exact absurd empty some_
  · rename_i byte rest held
    refine ⟨rfl, ?_, fun announces => ?_⟩
    · refine held.trans ?_
      show byte :: rest = UInt8.ofBitVec ((byte.toBitVec.setWidth 64).setWidth 8) :: rest
      rw [BitVec.setWidth_setWidth_of_le _ (by decide), BitVec.setWidth_eq]
    · show (ite (rest.length = 0) (u.ris &&& ~~~RX_INT) u.ris).getLsbD 4 = true ↔ rest ≠ []
      split
      · rename_i last
        refine iff_of_false ?_ (fun more => more (List.eq_nil_of_length_eq_zero last))
        rw [cleared]
        exact Bool.false_ne_true
      · rename_i more
        exact iff_of_true (announces.mpr some_) fun empty => more (congrArg List.length empty)

theorem readRegister_other (u : Pl011) {offset : Nat} (other : offset ≠ 0) :
    (u.readRegister offset).2 = u := by
  unfold readRegister
  split <;> first | rfl | exact absurd rfl other

end Pl011

namespace Console

structure Faithful (base : UartBase) (c : Console) : Prop where
  base : c.uart.base = base
  bytes : c.received ++ c.uart.rx = c.accepted
  announces : c.uart.Announces

theorem faithful_start (base : UartBase) (captureEnabled : Bool) :
    Faithful base (start base captureEnabled) where
  base := rfl
  bytes := rfl
  announces := iff_of_false (show ¬ (0 : BitVec 32).getLsbD 4 = true by decide) (fun some_ => some_ rfl)

theorem faithful_step {base : UartBase} {c d : Console} {access : UartAccess} (inv : Faithful base c)
    (next : c.step access = some d) : Faithful base d := by
  cases access with
  | push bytes =>
    cases next
    refine ⟨(c.uart.pushRx_base bytes).trans inv.base, ?_, Pl011.pushRx_announces inv.announces bytes⟩
    show c.received ++ (c.uart.pushRx bytes).rx = c.accepted ++ c.uart.accepts bytes
    rw [Pl011.pushRx_rx, ← List.append_assoc, inv.bytes]
  | write addr value =>
    obtain ⟨uart, wrote, rfl⟩ := Option.map_eq_some_iff.mp next
    have kept := Pl011.write_wrote wrote
    refine ⟨kept.base.trans inv.base, ?_, kept.announces inv.announces⟩
    show c.received ++ uart.rx = c.accepted
    rw [kept.rx]
    exact inv.bytes
  | read addr =>
    obtain ⟨⟨value, uart⟩, taken, rfl⟩ := Option.map_eq_some_iff.mp next
    obtain ⟨handled, taken⟩ := Option.ite_none_right_eq_some.mp taken
    have inside := (c.uart.handles_iff addr).mp handled
    by_cases data : addr - c.uart.base.val = 0
    · have here : addr = c.uart.base.val := by omega
      rw [data] at taken
      have popped : c.uart.pop = (value, uart) := Option.some.inj taken
      by_cases empty : c.uart.rx = []
      · rw [Pl011.pop_nil empty] at popped
        obtain ⟨rfl, rfl⟩ := Prod.mk.inj popped
        refine ⟨inv.base, ?_, inv.announces⟩
        dsimp only
        rw [if_neg fun ready => (Pl011.flags_clear_iff _).mp ready.2 empty]
        exact inv.bytes
      · have took := Pl011.pop_cons empty
        rw [popped] at took
        refine ⟨took.base.trans inv.base, ?_, took.announces inv.announces⟩
        dsimp only
        rw [if_pos ⟨here, (Pl011.flags_clear_iff _).mpr empty⟩, List.append_assoc]
        have bytes := inv.bytes
        rw [took.rx] at bytes
        exact bytes
    · have same := c.uart.readRegister_other data
      rw [Option.some.inj taken] at same
      obtain rfl : uart = c.uart := same
      refine ⟨inv.base, ?_, inv.announces⟩
      dsimp only
      rw [if_neg fun ready => data (Nat.sub_eq_zero_of_le (Nat.le_of_eq ready.1))]
      exact inv.bytes

theorem step_isSome {base : UartBase} {c : Console} (inv : Faithful base c) {access : UartAccess}
    (mapped : access.mapped base) : ∃ d, c.step access = some d := by
  cases access with
  | push bytes => exact ⟨_, rfl⟩
  | read addr =>
    have handled : c.uart.handles addr = true := (c.uart.handles_iff addr).mpr (inv.base ▸ mapped)
    exact ⟨_, congrArg (Option.map _) (if_pos handled)⟩
  | write addr value =>
    have handled : c.uart.handles addr = true := (c.uart.handles_iff addr).mpr (inv.base ▸ mapped)
    obtain ⟨v, wrote⟩ := c.uart.write_isSome addr value handled
    exact ⟨_, congrArg (Option.map _) wrote⟩

theorem run_faithful {base : UartBase} (accesses : List UartAccess) {c : Console} (inv : Faithful base c)
    (mapped : ∀ access ∈ accesses, access.mapped base) :
    ∃ d, Run.exec step c accesses = some d ∧ Faithful base d := by
  induction accesses generalizing c with
  | nil => exact ⟨c, rfl, inv⟩
  | cons access rest ih =>
    obtain ⟨d, next⟩ := step_isSome inv (mapped access List.mem_cons_self)
    obtain ⟨e, run, final⟩ := ih (faithful_step inv next) fun other member =>
      mapped other (List.mem_cons_of_mem access member)
    refine ⟨e, ?_, final⟩
    unfold Run.exec
    rw [next]
    exact run

end Console

/-- However the host's input and the guest's accesses interleave, none of them trips an assertion, the
guest has read the accepted bytes in order up to those that are still in the FIFO, and the raw receive
interrupt is set just when there are such bytes; so it is after every clear too, and the line is
asserted again unless the guest has masked it. -/
theorem uart_input_exact (base : UartBase) (captureEnabled : Bool) (accesses : List UartAccess)
    (mapped : ∀ access ∈ accesses, access.mapped base) :
    ∃ c, Run.exec Console.step (Console.start base captureEnabled) accesses = some c ∧
      c.received ++ c.uart.rx = c.accepted ∧ (c.uart.ris.getLsbD 4 = true ↔ c.uart.rx ≠ []) ∧
      (c.uart.rx ≠ [] → c.uart.imsc.getLsbD 4 = true → c.uart.irqAsserted = true) := by
  obtain ⟨c, run, inv⟩ := Console.run_faithful accesses (Console.faithful_start base captureEnabled)
    mapped
  refine ⟨c, run, inv.bytes, inv.announces, fun some_ unmasked => ?_⟩
  unfold Pl011.irqAsserted
  refine bne_iff_ne.mpr fun none_ => ?_
  have bit : (c.uart.ris &&& c.uart.imsc).getLsbD 4 = true := by
    rw [BitVec.getLsbD_and, inv.announces.mpr some_, unmasked]
    rfl
  rw [none_] at bit
  exact nomatch bit

def uart0 : UartBase := ⟨0x09000000, by decide⟩

/-- The guest clears the interrupt with one of two bytes read. -/
theorem clear_notifies_again : ∃ c,
    Run.exec Console.step (Console.start uart0 true)
      [.push [104, 105], .write 0x09000038 0x10, .read 0x09000000, .write 0x09000044 0x50] = some c ∧
    c.uart.rx = [105] ∧ c.uart.irqAsserted = true := by
  have mapped : ∀ access ∈ ([.push [104, 105], .write 0x09000038 0x10, .read 0x09000000,
      .write 0x09000044 0x50] : List UartAccess), access.mapped uart0 := by
    simp only [List.forall_mem_cons, UartAccess.mapped, uart0]
    exact ⟨trivial, by decide, by decide, by decide, nofun⟩
  obtain ⟨c, run, -, -, asserted⟩ := uart_input_exact uart0 true _ mapped
  have same : some c = some _ := run.symm.trans rfl
  cases same
  exact ⟨_, run, rfl, asserted nofun rfl⟩

end Machinen.Vmm
