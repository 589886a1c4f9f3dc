import Machinen.Initramfs.Newc
import Machinen.Initramfs.Fnmatch
import Machinen.Lib.RelPath
import Machinen.Lib.Decimal

/-! The packer's walk of a tree of the host, and the archives it makes. -/
namespace Machinen.Initramfs

inductive HostFile where
  | file (mode : Nat) (data : Bytes)
  | symLink (mode : Nat) (target : Bytes)
  | other
  deriving DecidableEq

abbrev HostTree := DirTree Bytes HostFile Nat

def modeBits (mode : Nat) : Nat := mode &&& 0o7777

def fileEntry (path : Bytes) : HostFile → List Entry
  | .file mode data => [{ name := path, mode := 0o100000 ||| modeBits mode, opts := { data } }]
  | .symLink mode target => [{ name := path, mode := 0o120000 ||| modeBits mode, opts := { data := target } }]
  | .other => []

def directoryEntry (path : Bytes) (mode : Nat) : Entry := { name := path, mode := 0o40000 ||| modeBits mode }

/-- The names of a directory in order, with what each has to be appended for it. -/
def inOrder (found : List (Bytes × List Entry)) : List Entry :=
  (found.mergeSort fun a b => decide (a.1 ≤ b.1)).flatMap Prod.snd

mutual

def appendTree (skips : Bytes → Bytes → Option Bool) (path : Bytes) : HostTree → Option (List Entry)
  | .leaf f => some (fileEntry path f)
  | .directory mode entries =>
    (appendChildren skips path entries).map fun found => directoryEntry path mode :: inOrder found

/-- What each entry of a directory has appended for it: nothing where it is skipped. -/
def appendChildren (skips : Bytes → Bytes → Option Bool) (path : Bytes) :
    List (Bytes × HostTree) → Option (List (Bytes × List Entry))
  | [] => some []
  | (name, node) :: rest => do
    let skipped ← skips (makeChildRel path name) name
    let own ← (if skipped then some [] else appendTree skips (makeChildRel path name) node)
    let others ← appendChildren skips path rest
    some ((name, own) :: others)

end

def walk (skips : Bytes → Bytes → Option Bool) (path : Bytes) (entries : List (Bytes × HostTree)) :
    Option (List Entry) :=
  (appendChildren skips path entries).map inOrder

def walkRootfs (excludes : List Bytes) (entries : List (Bytes × HostTree)) : Option (List Entry) :=
  walk (fun path _ => isExcluded path excludes) [] entries

def walkWorkspace (mountpoint : Bytes) (excludes : List Bytes) (entries : List (Bytes × HostTree)) :
    Option (List Entry) :=
  walk (fun _ name => some (excludes.contains name)) mountpoint entries

/-! The entries behind a tree -/

def ascii (text : String) : Bytes := text.toList.map fun c => UInt8.ofNat c.toNat

abbrev Contents := Option (Option Bytes)

structure FinalOptions where
  initPath : Contents := none
  config : Option Bytes := none
  configPath : Contents := none
  injectInit : Bool := true
  allowMissingInit : Bool := false
  execAgentPath : Contents := none
  mountGuest : Option Bytes := none
  /-- The seconds of the clock. -/
  now : Nat

def initEntries (opts : FinalOptions) : Option (List Entry) :=
  match opts.injectInit, opts.initPath with
  | true, some (some bytes) => some [{ name := ascii "init", mode := 0o100755, opts := { data := bytes } }]
  | true, some none => if opts.allowMissingInit then some [] else none
  | _, _ => some []

def configEntry (config : Bytes) : Entry :=
  { name := ascii "machinen-config.json", mode := 0o100644, opts := { data := config } }

def configEntries (opts : FinalOptions) : Option (List Entry) :=
  match opts.config, opts.configPath with
  | some config, _ => some [configEntry config]
  | none, some (some config) => some [configEntry config]
  | none, some none => none
  | none, none => some []

def agentEntries (opts : FinalOptions) : List Entry :=
  opts.execAgentPath.join.toList.map fun data => { name := ascii "exec-agent", mode := 0o100755, opts := { data } }

def bootEpochEntries (now : Nat) : List Entry :=
  [{ name := ascii "etc", mode := 0o40755 },
    { name := ascii "etc/machinen-boot-epoch", mode := 0o100644, opts := { data := Decimal.encode now } }]

def mountEntries (opts : FinalOptions) : List Entry :=
  opts.mountGuest.toList.map fun guest =>
    { name := ascii "etc/machinen-mountdisk-guest", mode := 0o100644, opts := { data := guest ++ [0x0a] } }

def deviceEntries : List Entry :=
  [{ name := ascii "dev", mode := 0o40755 },
    { name := ascii "dev/console", mode := 0o20600, opts := { rmajor := 5, rminor := 1 } },
    { name := ascii "tmp", mode := 0o41777 }]

/-- All that is appended behind a tree, but for the trailer. -/
def finalEntries (opts : FinalOptions) : Option (List Entry) := do
  let init ← initEntries opts
  let config ← configEntries opts
  some (init ++ agentEntries opts ++ config ++ bootEpochEntries opts.now ++ mountEntries opts ++ deviceEntries)

def dot : Entry := { name := ascii ".", mode := 0o40755 }

def packRootfs (root : List (Bytes × HostTree)) (excludes : List Bytes) (final : FinalOptions) : Option Bytes := do
  let entries ← walkRootfs excludes root
  let finals ← finalEntries final
  appendAll (dot :: entries ++ finals ++ [trailer])

/-- The image is refused where it is too large before its trailer. -/
def packWorkspace (workspace : List (Bytes × HostTree)) (mountpoint : Bytes) (excludes : List Bytes) (maxMb : Nat) :
    Option Bytes := do
  let entries ← walkWorkspace mountpoint excludes workspace
  let out ← appendAll ({ name := mountpoint, mode := 0o40755 } :: entries)
  if out.length > maxMb * 1024 * 1024 then none
  let last ← appendNewc trailer
  some (out ++ last)

end Machinen.Initramfs
