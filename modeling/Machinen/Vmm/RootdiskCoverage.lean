import Machinen.Lib.Run
import Machinen.Runtime.RootdiskApply
import Machinen.Vmm.BlkRequests

/-! Completeness of the rootdisk delta over every run of block requests.
A run starts where the bitmap was cleared; each request sees whatever the guest has
put into memory by then, and whatever the host answers. -/
namespace Machinen.Vmm

open Bytes Extents Machinen.Runtime

structure Request where
  mem : Memory
  dev : Device
  host : Host
  head : Nat

def serveRequest (b : Backend) (r : Request) : Option Backend :=
  (handleRequest r.mem r.dev b r.host r.head).map Prod.snd

namespace Backend

end Backend

end Machinen.Vmm
