import Machinen.Vmm.Snapshot

/-! The vCPU section of a state file: the registers that a host exposes, each under its name. -/
namespace Machinen.Snapshot

open Bytes SectionStream

structure VcpuEntry where
  name : Bytes
  value : Bytes
deriving DecidableEq, Repr

def VcpuEntry.bytes (e : VcpuEntry) : Bytes :=
  le 1 e.name.length ++ (e.name ++ (le 4 e.value.length ++ e.value))

def encodeEntries (entries : List VcpuEntry) : Bytes := entries.flatMap VcpuEntry.bytes

/-- No result is a failed assertion. -/
def encodeVcpuPayload (entries : List VcpuEntry) : Option Bytes :=
  if entries.length < 2 ^ 32 ∧ ∀ e ∈ entries, e.name.length ≤ 255 ∧ e.value.length < 2 ^ 32 then
    some (le 4 entries.length ++ encodeEntries entries)
  else none

/-! What is dumped -/

structure Register where
  name : Bytes
  least : Nat
  most : Nat
deriving DecidableEq, Repr

def ascii (name : String) : Bytes := name.toList.map fun c => UInt8.ofNat (c.toNat % 128)

def sized (size : Nat) (names : List String) : List Register :=
  names.map fun name => { name := ascii name, least := size, most := size }

def numbered (letter : String) (count : Nat) : List String :=
  (List.range count).map fun i => letter ++ toString i

def sysregNames : List String :=
  ["DBGBVR0_EL1", "DBGBCR0_EL1", "DBGWVR0_EL1", "DBGWCR0_EL1", "DBGBVR1_EL1", "DBGBCR1_EL1", "DBGWVR1_EL1",
    "DBGWCR1_EL1", "MDCCINT_EL1", "MDSCR_EL1", "DBGBVR2_EL1", "DBGBCR2_EL1", "DBGWVR2_EL1", "DBGWCR2_EL1",
    "DBGBVR3_EL1", "DBGBCR3_EL1", "DBGWVR3_EL1", "DBGWCR3_EL1", "DBGBVR4_EL1", "DBGBCR4_EL1", "DBGWVR4_EL1",
    "DBGWCR4_EL1", "DBGBVR5_EL1", "DBGBCR5_EL1", "DBGWVR5_EL1", "DBGWCR5_EL1", "DBGBVR6_EL1", "DBGBCR6_EL1",
    "DBGWVR6_EL1", "DBGWCR6_EL1", "DBGBVR7_EL1", "DBGBCR7_EL1", "DBGWVR7_EL1", "DBGWCR7_EL1", "DBGBVR8_EL1",
    "DBGBCR8_EL1", "DBGWVR8_EL1", "DBGWCR8_EL1", "DBGBVR9_EL1", "DBGBCR9_EL1", "DBGWVR9_EL1", "DBGWCR9_EL1",
    "DBGBVR10_EL1", "DBGBCR10_EL1", "DBGWVR10_EL1", "DBGWCR10_EL1", "DBGBVR11_EL1", "DBGBCR11_EL1",
    "DBGWVR11_EL1", "DBGWCR11_EL1", "DBGBVR12_EL1", "DBGBCR12_EL1", "DBGWVR12_EL1", "DBGWCR12_EL1",
    "DBGBVR13_EL1", "DBGBCR13_EL1", "DBGWVR13_EL1", "DBGWCR13_EL1", "DBGBVR14_EL1", "DBGBCR14_EL1",
    "DBGWVR14_EL1", "DBGWCR14_EL1", "DBGBVR15_EL1", "DBGBCR15_EL1", "DBGWVR15_EL1", "DBGWCR15_EL1",
    "MIDR_EL1",
    "MPIDR_EL1", "ID_AA64PFR0_EL1", "ID_AA64PFR1_EL1", "ID_AA64ZFR0_EL1", "ID_AA64SMFR0_EL1",
    "ID_AA64DFR0_EL1",
    "ID_AA64DFR1_EL1", "ID_AA64ISAR0_EL1", "ID_AA64ISAR1_EL1", "ID_AA64MMFR0_EL1", "ID_AA64MMFR1_EL1",
    "ID_AA64MMFR2_EL1", "SCTLR_EL1", "ACTLR_EL1", "CPACR_EL1", "SMPRI_EL1", "SMCR_EL1", "TTBR0_EL1",
    "TTBR1_EL1", "TCR_EL1", "APIAKEYLO_EL1", "APIAKEYHI_EL1", "APIBKEYLO_EL1", "APIBKEYHI_EL1",
    "APDAKEYLO_EL1",
    "APDAKEYHI_EL1", "APDBKEYLO_EL1", "APDBKEYHI_EL1", "APGAKEYLO_EL1", "APGAKEYHI_EL1", "SPSR_EL1",
    "ELR_EL1",
    "SP_EL0", "AFSR0_EL1", "AFSR1_EL1", "ESR_EL1", "FAR_EL1", "PAR_EL1", "MAIR_EL1", "AMAIR_EL1",
    "VBAR_EL1",
    "CONTEXTIDR_EL1", "TPIDR_EL1", "SCXTNUM_EL1", "CNTKCTL_EL1", "CSSELR_EL1", "TPIDR_EL0", "TPIDRRO_EL0",
    "TPIDR2_EL0", "SCXTNUM_EL0", "CNTV_CTL_EL0", "CNTV_CVAL_EL0", "SP_EL1", "CNTP_CTL_EL0", "CNTP_CVAL_EL0",
    "CNTP_TVAL_EL0", "CNTHCTL_EL2", "CNTHP_CTL_EL2", "CNTHP_CVAL_EL2", "CNTHP_TVAL_EL2", "CNTVOFF_EL2",
    "CPTR_EL2", "ELR_EL2", "ESR_EL2", "FAR_EL2", "HCR_EL2", "HPFAR_EL2", "MAIR_EL2", "MDCR_EL2",
    "SCTLR_EL2",
    "SPSR_EL2", "SP_EL2", "TCR_EL2", "TPIDR_EL2", "TTBR0_EL2", "TTBR1_EL2", "VBAR_EL2", "VMPIDR_EL2",
    "VPIDR_EL2", "VTCR_EL2", "VTTBR_EL2"]

/-- `dump_kvm` -/
def kvmRegisters : List Register :=
  sized 8 (numbered "X" 31) ++ sized 8 ["PC", "PSTATE", "SP_EL0", "SP_EL1", "ELR_EL1", "SPSR_EL1"] ++
    sized 16 (numbered "V" 32) ++ sized 4 ["FPSR", "FPCR"] ++ sized 8 sysregNames

/-- `dump_hvf` -/
def hvfRegisters : List Register :=
  sized 8 (numbered "X" 31) ++ sized 8 ["PC", "PSTATE"] ++ sized 4 ["FPCR", "FPSR"] ++
    sized 16 (numbered "V" 32) ++ sized 8 sysregNames

/-- `dump_kvm_x86` -/
def x86Registers : List Register :=
  sized 312 ["X86_SREGS"] ++ sized 144 ["X86_REGS"] ++ sized 416 ["X86_FPU"] ++ sized 1024 ["X86_LAPIC"] ++
    sized 4 ["X86_MP_STATE"] ++ sized 64 ["X86_VCPU_EVENTS"] ++
    [{ name := ascii "X86_MSRS", least := 8, most := 8 + 16 * 16 }] ++
    sized 128 ["X86_DEBUGREGS"] ++ sized 392 ["X86_XCRS"] ++ sized 4096 ["X86_XSAVE"]

inductive Backend where
  | kvm | hvf | kvmX86
deriving DecidableEq, Repr

def Backend.registers : Backend → List Register
  | .kvm => kvmRegisters
  | .hvf => hvfRegisters
  | .kvmX86 => x86Registers

def Backend.arch : Backend → Nat
  | .kvm | .hvf => ARCH_AARCH64
  | .kvmX86 => ARCH_X86_64

/-- The registers of a vCPU; a register that the dump skips or the host does not expose is none. -/
def Vcpu : Type := (r : Register) → Option { value : Bytes // r.least ≤ value.length ∧
    value.length ≤ r.most }

def dump (registers : List Register) (vcpu : Vcpu) : List VcpuEntry :=
  registers.filterMap fun r => (vcpu r).map fun value => { name := r.name, value := value.val }

def SCTLR_EL1 : Bytes := ascii "SCTLR_EL1"

/-- A register of eight bytes, or another one of a few bytes that is not `SCTLR_EL1`. -/
def Plain (r : Register) : Prop := (r.name = SCTLR_EL1 → r.least = 8 ∧ r.most = 8) ∧ r.most ≤ 4096

end Machinen.Snapshot
