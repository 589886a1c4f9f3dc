import Machinen.Vmm.RamDump
import Machinen.Vmm.Snapshot

/-! The RAM of a restore: the RAM sections of a state file in their order, over fresh memory. -/
namespace Machinen.Vmm

open Bytes SectionStream RamDump

def ramTag : UInt32 := 1
def ramDeltaTag : UInt32 := 8
def isRamSection (s : Section) : Bool := s.tag = ramTag || s.tag = ramDeltaTag

end Machinen.Vmm
