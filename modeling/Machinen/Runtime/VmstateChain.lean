import Mathlib.Data.List.Perm.Subperm
import Machinen.Vmm.RamRestore
import Machinen.Runtime.VmstateFile

/-! A chain of checkpoints, each of which names its parent, and what a restore makes of it: one
state with all RAM sections since the last full one, and one image of the rootdisk. -/
namespace Machinen.Runtime

open Bytes SectionStream Vmm Snapshot

/-- An absolute path without `.` and `..`. -/
abbrev Path := List String

structure ParentLink where
  absolute : Bool
  segments : List String
deriving DecidableEq, Repr

def resolveSegment (dir : Path) (segment : String) : Path :=
  if segment = "" ∨ segment = "." then dir
  else if segment = ".." then dir.dropLast
  else dir ++ [segment]

def resolveCheckpointParent (dir : Path) (parent : ParentLink) : Path :=
  parent.segments.foldl resolveSegment (if parent.absolute then [] else dir)

inductive RootDisk where
  | block (file : String)
  | delta
  | none
deriving DecidableEq, Repr

structure SnapshotMeta where
  parent : Option ParentLink
  rootDisk : Option RootDisk
deriving DecidableEq, Repr

/-- The files of the bundles; a metadata file that cannot be parsed is a value, but no metadata.
Only so many directories have a state. -/
structure Bundles where
  state : Path → Option Bytes
  metaFile : Path → Option (Option SnapshotMeta)
  file : Path → String → Option Bytes
  dirs : List Path
  known : ∀ dir, (state dir).isSome → dir ∈ dirs

structure Checkpoint where
  dir : Path
  snapshotMeta : SnapshotMeta
  state : DecodedVmstate

inductive ChainError where
  | boot (error : BootError)
  | vmstate (message : String)
deriving DecidableEq, Repr

def pathText (dir : Path) : String := "/" ++ String.intercalate "/" dir

def metaPath (dir : Path) : String := pathText (dir ++ ["meta.json"])

def statePath (dir : Path) : String := pathText (dir ++ ["state.vmstate"])

def notFound (message : String) : ChainError := .boot ⟨"BOOT_SNAPSHOT_NOT_FOUND", message⟩

def chainUnsupported (message : String) : ChainError := .boot (unsupported message)

def readMeta (bundles : Bundles) (dir : Path) : Except ChainError SnapshotMeta :=
  match bundles.metaFile dir with
  | none => .error (notFound s!"restore: checkpoint parent meta missing: {metaPath dir}")
  | some none => .error (notFound s!"restore: failed to read checkpoint parent meta: {metaPath dir}")
  | some (some snapshotMeta) => .ok snapshotMeta

section Chain

variable (bundles : Bundles) (gunzipSync : Bytes → Except String Bytes)

/-- The loop over the parents; no result is a loop that has not ended. -/
def readChainFrom : Nat → Path → SnapshotMeta → List Path → List Checkpoint →
    Option (Except ChainError (List Checkpoint))
  | 0, _, _, _, _ => none
  | fuel + 1, dir, snapshotMeta, seen, out =>
    if dir ∈ seen then
      some (.error (chainUnsupported s!"restore: vmstate checkpoint parent cycle at {pathText dir}"))
    else match bundles.state dir with
      | none => some (.error (notFound
        s!"restore: vmstate checkpoint state missing: {statePath dir}"))
      | some raw => match readVmstate gunzipSync raw with
        | .error e => some (.error (.vmstate e))
        | .ok state =>
          let out := out ++ [{ dir, snapshotMeta, state }]
          match snapshotMeta.parent with
          | none => some (.ok out.reverse)
          | some parent =>
            let next := resolveCheckpointParent dir parent
            match readMeta bundles next with
            | .error e => some (.error e)
            | .ok parentMeta => readChainFrom fuel next parentMeta (dir :: seen) out

/-- The checkpoints from a directory along the links to the one that names no parent. -/
inductive Climbs : Path → SnapshotMeta → List Checkpoint → Prop
  | last {dir : Path} {snapshotMeta : SnapshotMeta} {raw : Bytes} {state : DecodedVmstate}
      (there : bundles.state dir = some raw) (reads : readVmstate gunzipSync raw = .ok state)
      (ends : snapshotMeta.parent = none) : Climbs dir snapshotMeta [{ dir, snapshotMeta, state }]
  | link {dir : Path} {snapshotMeta parentMeta : SnapshotMeta} {raw : Bytes} {state : DecodedVmstate}
      {parent : ParentLink} {above : List Checkpoint}
      (there : bundles.state dir = some raw) (reads : readVmstate gunzipSync raw = .ok state)
      (links : snapshotMeta.parent = some parent)
      (readable : readMeta bundles (resolveCheckpointParent dir parent) = .ok parentMeta)
      (climbs : Climbs (resolveCheckpointParent dir parent) parentMeta above) :
      Climbs dir snapshotMeta ({ dir, snapshotMeta, state } :: above)

end Chain

section Rootdisk

variable (bundles : Bundles) (sha256 : Bytes → Digest)

end Rootdisk

/-- A checkpoint with all RAM has no other RAM section. -/
def Checkpoint.WellFormed (c : Checkpoint) : Prop :=
  ∀ s ∈ c.state.sections, s.tag = ramTag → c.state.sections.filter isRamSection = [s]

section Latest

variable {α : Type} {p : α → Bool}

end Latest

section Ram

variable (sha256 : Bytes → Digest)

end Ram

variable {dir : Path} {snapshotMeta : SnapshotMeta}

section Links

variable {bundles : Bundles} {gunzipSync : Bytes → Except String Bytes}

theorem Climbs.known {above : List Checkpoint}
    (climbs : Climbs bundles gunzipSync dir snapshotMeta above) :
    above.map Checkpoint.dir ⊆ bundles.dirs := by
  induction climbs with
  | last there =>
    exact List.cons_subset.mpr ⟨bundles.known _ (by rw [there]; rfl), List.nil_subset _⟩
  | link there _ _ _ _ ih => exact List.cons_subset.mpr ⟨bundles.known _ (by rw [there]; rfl), ih⟩

theorem Climbs.read {above : List Checkpoint}
    (climbs : Climbs bundles gunzipSync dir snapshotMeta above) (fuel : Nat) {seen : List Path}
    (out : List Checkpoint) (enough : above.length ≤ fuel) (distinct : (above.map Checkpoint.dir).Nodup)
    (apart : ∀ d ∈ above.map Checkpoint.dir, d ∉ seen) :
    readChainFrom bundles gunzipSync fuel dir snapshotMeta seen out =
      some (.ok (out ++ above).reverse) := by
  induction climbs generalizing fuel seen out with
  | last there reads ends =>
    obtain ⟨fuel, rfl⟩ := Nat.exists_eq_add_of_le' (show 1 ≤ fuel from enough)
    unfold readChainFrom
    rw [if_neg (apart _ List.mem_cons_self), there]
    dsimp only
    rw [reads]
    dsimp only
    rw [ends]
  | @link dir _ _ _ _ _ above there reads links readable climbs ih =>
    obtain ⟨fuel, rfl⟩ := Nat.exists_eq_add_of_le' (Nat.le_trans (Nat.succ_pos above.length) enough)
    obtain ⟨fresh, distinct⟩ := List.nodup_cons.mp distinct
    unfold readChainFrom
    rw [if_neg (apart _ List.mem_cons_self), there]
    dsimp only
    rw [reads]
    dsimp only
    rw [links]
    dsimp only
    rw [readable]
    dsimp only
    rw [ih fuel (out ++ [_]) (by simpa using enough) distinct, List.append_assoc, List.singleton_append]
    intro d listed old
    obtain rfl | old := List.mem_cons.mp old
    · exact fresh listed
    · exact apart d (List.mem_cons_of_mem _ listed) old

end Links

end Machinen.Runtime
