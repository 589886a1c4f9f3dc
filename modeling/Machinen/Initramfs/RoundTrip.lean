import Machinen.Initramfs.Walk

/-! What an archive of the packer says when it is read: the tree that was walked. -/
namespace Machinen.Initramfs

open DirTree

/-- What stands at a path, as entries of an archive. -/
def entriesAt : List Bytes × (HostFile ⊕ Nat) → List Entry
  | (path, .inl f) => fileEntry (joined path) f
  | (path, .inr mode) => [directoryEntry (joined path) mode]

def leaves (skips : Bytes → Bytes → Option Bool) (path : List Bytes) : Bool :=
  skips (joined path) (path.getLast?.getD []) == some true

def spelled (e : Bytes × List (List Bytes × (HostFile ⊕ Nat))) : Bytes × List Entry := (e.1, e.2.flatMap entriesAt)

variable {skips : Bytes → Bytes → Option Bool}

variable {path : List Bytes} {es : List Entry} {mode : Nat}

theorem leaves_child {name : Bytes} {skipped : Bool}
    (asked : skips (makeChildRel (joined path) name) name = some skipped) :
    leaves skips (path ++ [name]) = skipped := by
  rw [leaves, joined_child, List.getLast?_concat, Option.getD_some, asked]
  cases skipped <;> rfl

theorem inOrder_spelled (found : List (Bytes × List (List Bytes × (HostFile ⊕ Nat)))) :
    inOrder (found.map spelled) =
      ((found.mergeSort fun a b => byName a.1 b.1).flatMap Prod.snd).flatMap entriesAt := by
  have sorted : (found.mergeSort fun a b => byName a.1 b.1).map spelled =
      (found.map spelled).mergeSort fun a b => decide (a.1 ≤ b.1) := List.map_mergeSort fun _ _ _ _ => rfl
  rw [inOrder, ← sorted, List.flatMap_map, List.flatMap_assoc]
  rfl

theorem appendChildren_spelled {entries : List (Bytes × HostTree)}
    (each : ∀ e ∈ entries, ∀ (path : List Bytes) es, appendTree skips (joined path) e.2 = some es →
      es = (e.2.walk byName (leaves skips) path).flatMap entriesAt) {found : List (Bytes × List Entry)}
    (done : appendChildren skips (joined path) entries = some found) :
    found = (walkEntries byName (leaves skips) path entries).map spelled := by
  induction entries generalizing found with
  | nil =>
    cases done
    rfl
  | cons entry rest ih =>
    obtain ⟨name, node⟩ := entry
    rw [List.forall_mem_cons] at each
    rw [appendChildren] at done
    simp only [Option.bind_eq_bind, Option.bind_eq_some_iff] at done
    obtain ⟨skipped, asked, own, appended, others, after, same⟩ := done
    obtain rfl := Option.some.inj same
    have left := leaves_child asked
    rw [walkEntries, List.map_cons, left, ← ih each.2 after]
    cases skipped with
    | true =>
      obtain rfl := Option.some.inj appended
      rfl
    | false =>
      rw [← joined_child] at appended
      have same := each.1 _ _ appended
      rw [same]
      rfl

theorem appendTree_walk (node : HostTree) (done : appendTree skips (joined path) node = some es) :
    es = (node.walk byName (leaves skips) path).flatMap entriesAt := by
  induction node using induct generalizing path es with
  | leaf f =>
    cases done
    simp [DirTree.walk, entriesAt]
  | directory mode entries ih =>
    rw [appendTree] at done
    obtain ⟨found, appended, rfl⟩ := Option.map_eq_some_iff.mp done
    obtain rfl := appendChildren_spelled (fun e listed path es => ih e listed) appended
    rw [inOrder_spelled]
    rfl

theorem walk_spelled {entries : List (Bytes × HostTree)}
    (done : walk skips (joined path) entries = some es) :
    directoryEntry (joined path) mode :: es =
      ((directory mode entries).walk byName (leaves skips) path).flatMap entriesAt := by
  obtain ⟨found, appended, rfl⟩ := Option.map_eq_some_iff.mp done
  have whole : appendTree skips (joined path) (.directory mode entries) =
      some (directoryEntry (joined path) mode :: inOrder found) := by
    rw [appendTree, appended]
    rfl
  exact appendTree_walk _ whole

/-- Every path below a node that is not left out has its entry, the paths in order. -/
def Tells (skip : List Bytes → Bool) (path : List Bytes) (node : HostTree) (es : List Entry) : Prop :=
  ∃ met : List (List Bytes × (HostFile ⊕ Nat)), es = met.flatMap entriesAt ∧
    met.Pairwise (fun a b => Before byName a.1 b.1) ∧
    ∀ p l, (p, l) ∈ met ↔ ∃ names, names ≠ [] ∧ p = path ++ names ∧ Leads skip path node names l

theorem walk_tells {entries : List (Bytes × HostTree)}
    (distinct : Distinct (directory mode entries)) (done : walk skips (joined path) entries = some es) :
    Tells (leaves skips) path (directory mode entries) es := by
  have spelt : directoryEntry (joined path) mode :: es =
      ((directory mode entries).walk byName (leaves skips) path).flatMap entriesAt := walk_spelled done
  have ordered : ((directory mode entries).walk byName (leaves skips) path).Pairwise fun a b =>
    Before byName a.1 b.1 :=
    walk_ordered byName_orders distinct path
  rw [walk_directory] at spelt ordered
  exact ⟨walkDirectory byName (leaves skips) path entries, (List.cons.inj spelt).2,
    (List.pairwise_cons.mp ordered).2,
    fun p l => walkDirectory_mem_iff⟩

theorem joined_slash {first : Bytes} {names : List Bytes} (some_ : names ≠ []) (named : first ≠ [])
    (all : ∀ name ∈ names, name ≠ []) : 0x2f ∈ joined (first :: names) := by
  obtain ⟨last, rest, rfl⟩ : ∃ last rest, names = rest ++ [last] :=
    ⟨names.getLast some_, names.dropLast, (List.dropLast_append_getLast some_).symm⟩
  have front : joined (first :: rest) ≠ [] := by
    refine joined_ne_nil (by simp) (List.forall_mem_cons.mpr ⟨named, fun name listed => all name (by simp [listed])⟩)
  rw [← List.cons_append, joined_child, makeChildRel, if_neg front]
  simp

theorem entriesAt_name {p : List Bytes} {l : HostFile ⊕ Nat} {e : Entry} (listed : e ∈ entriesAt (p, l)) :
    e.name = joined p := by
  rcases l with (⟨mode, data⟩ | ⟨mode, target⟩ | _) | mode <;>
    simp [entriesAt, fileEntry, directoryEntry] at listed <;>
    rw [listed]

theorem entriesAt_empty_iff (p : List Bytes) (node : HostTree) :
    entriesAt (p, node.label) = [] ↔ node = .leaf .other := by
  rcases node with (⟨mode, data⟩ | ⟨mode, target⟩ | _) | ⟨mode, entries⟩ <;> simp [label, entriesAt, fileEntry]

theorem read_whole_iff {archive : Bytes} (written : appendAll (es ++ [trailer]) = some archive) :
    readArchive archive = some es ↔ ∀ e ∈ es, e.name ≠ trailerName := by
  rw [readArchive_appendAll written ⟨trailer, by simp, rfl⟩, Option.some.injEq]
  have stops : (fun e : Entry => decide (e.name ≠ trailerName)) trailer = false := rfl
  constructor
  · intro same e listed
    rw [← same] at listed
    exact of_decide_eq_true (List.mem_takeWhile_imp (p := fun e : Entry => decide (e.name ≠ trailerName)) listed)
  · intro all
    rw [List.takeWhile_append_of_pos (fun e listed => decide_eq_true (all e listed)),
      List.takeWhile_cons_of_neg (by simp [stops]),
      List.append_nil]

/-- The names that stand behind a tree, whatever the options. -/
def finalNames : List Bytes :=
  [ascii "init", ascii "exec-agent", ascii "machinen-config.json", ascii "etc", ascii "etc/machinen-boot-epoch",
    ascii "etc/machinen-mountdisk-guest", ascii "dev", ascii "dev/console", ascii "tmp"]

theorem trailer_apart : ∀ name ∈ finalNames, name ≠ trailerName := by decide

theorem initEntries_name {opts : FinalOptions} (made : initEntries opts = some es) :
    ∀ e ∈ es, e.name = ascii "init" := by
  rw [initEntries] at made
  split at made
  · obtain rfl := Option.some.inj made
    simp
  · split at made
    · obtain rfl := Option.some.inj made
      simp
    · cases made
  · obtain rfl := Option.some.inj made
    simp

theorem configEntries_name {opts : FinalOptions} (made : configEntries opts = some es) :
    ∀ e ∈ es, e.name = ascii "machinen-config.json" := by
  rw [configEntries] at made
  split at made
  · obtain rfl := Option.some.inj made
    simp [configEntry]
  · obtain rfl := Option.some.inj made
    simp [configEntry]
  · cases made
  · obtain rfl := Option.some.inj made
    simp

theorem finalEntries_name {opts : FinalOptions} {finals : List Entry} (made : finalEntries opts = some finals) :
    ∀ e ∈ finals, e.name ∈ finalNames := by
  simp only [finalEntries, Option.bind_eq_bind, Option.bind_eq_some_iff] at made
  obtain ⟨init, first, config, second, same⟩ := made
  obtain rfl := Option.some.inj same
  intro e listed
  simp only [List.mem_append] at listed
  rcases listed with ((((inside | inside) | inside) | inside) | inside) | inside
  · simp [finalNames, initEntries_name first e inside]
  · obtain ⟨data, -, rfl⟩ := List.mem_map.mp inside
    simp [finalNames]
  · simp [finalNames, configEntries_name second e inside]
  · simp only [bootEpochEntries, List.mem_cons, List.not_mem_nil, or_false] at inside
    rcases inside with rfl | rfl <;> simp [finalNames]
  · obtain ⟨guest, -, rfl⟩ := List.mem_map.mp inside
    simp [finalNames]
  · simp only [deviceEntries, List.mem_cons, List.not_mem_nil, or_false] at inside
    rcases inside with rfl | rfl | rfl <;> simp [finalNames]

theorem joined_long_ne {names : List Bytes} (named : ∀ name ∈ path ++ names, name ≠ []) (one : path ≠ [])
    (more : names ≠ []) : joined (path ++ names) ≠ trailerName := by
  obtain ⟨first, rest, rfl⟩ := List.exists_cons_of_ne_nil one
  rw [List.cons_append, List.forall_mem_cons] at named
  have slash : 0x2f ∈ joined (first :: (rest ++ names)) := joined_slash (by simp [more]) named.1 named.2
  have free : 0x2f ∉ trailerName := by decide
  exact fun same => free (same ▸ slash)

theorem tells_trailer_iff {root : List (Bytes × HostTree)}
    (named : Named IsName (directory mode root)) (tells : Tells (leaves skips) [] (directory mode root) es) :
    (∀ e ∈ es, e.name ≠ trailerName) ↔
      ∀ node, (trailerName, node) ∈ root → skips trailerName trailerName = some true ∨ node = .leaf .other := by
  obtain ⟨met, rfl, -, members⟩ := tells
  constructor
  · intro apart node listed
    by_cases skipped : skips trailerName trailerName = some true
    · exact .inl skipped
    · right
      rw [← entriesAt_empty_iff [trailerName], List.eq_nil_iff_forall_not_mem]
      intro e inside
      have kept : leaves skips ([] ++ [trailerName]) = false := by
        rw [leaves, beq_eq_false_iff_ne]
        exact skipped
      have leads : Leads (leaves skips) [] (directory mode root) [trailerName] node.label :=
        .inside listed kept .here
      have there := (members _ _).mpr ⟨_, List.cons_ne_nil _ _, rfl, leads⟩
      exact apart e (List.mem_flatMap.mpr ⟨_, there, inside⟩) (entriesAt_name inside)
  · intro absent e listed same
    obtain ⟨⟨p, l⟩, there, inside⟩ := List.mem_flatMap.mp listed
    obtain ⟨names, some_, rfl, leads⟩ := (members p l).mp there
    have kinds := leads.named named
    have same : joined p = trailerName := (entriesAt_name inside).symm.trans same
    cases leads with
    | here => exact some_ rfl
    | @inside _ _ _ name child names _ listed kept rest =>
      rcases eq_or_ne names [] with rfl | more
      · obtain rfl : name = trailerName := same
        cases rest
        rcases absent child listed with skipped | rfl
        · rw [leaves, beq_eq_false_iff_ne] at kept
          exact kept skipped
        · cases inside
      · have long : joined ([name] ++ names) ≠ trailerName :=
          joined_long_ne (fun name listed => (kinds name listed).1) (List.cons_ne_nil _ _) more
        exact long same

theorem tells_below {root : List (Bytes × HostTree)} {mountpoint : Bytes}
    (mounted : mountpoint ≠ []) (named : Named IsName (directory mode root))
    (tells : Tells (leaves skips) [mountpoint] (directory mode root) es) : ∀ e ∈ es, e.name ≠ trailerName := by
  obtain ⟨met, rfl, -, members⟩ := tells
  intro e listed
  obtain ⟨⟨p, l⟩, there, inside⟩ := List.mem_flatMap.mp listed
  obtain ⟨names, some_, rfl, leads⟩ := (members p l).mp there
  rw [entriesAt_name inside]
  exact joined_long_ne (List.forall_mem_cons.mpr ⟨mounted, fun name listed => (leads.named named name listed).1⟩)
    (List.cons_ne_nil _ _) some_

/-- An archive of a tree says what the tree holds, in order and with nothing that is excluded, and then what the
options add; it is cut short just where the tree has an entry of the trailer's name at its top. -/
theorem packRootfs_reads {mode : Nat} {root : List (Bytes × HostTree)} {excludes : List Bytes} {final : FinalOptions}
    {archive : Bytes} (distinct : Distinct (directory mode root)) (named : Named IsName (directory mode root))
    (packed : packRootfs root excludes final = some archive) :
    ∃ es finals, Tells (leaves fun path _ => isExcluded path excludes) [] (directory mode root) es ∧
      finalEntries final = some finals ∧
      (readArchive archive = some (dot :: es ++ finals) ↔
        ∀ node, (trailerName, node) ∈ root → isExcluded trailerName excludes = some true ∨ node = .leaf .other) := by
  simp only [packRootfs, Option.bind_eq_bind, Option.bind_eq_some_iff] at packed
  obtain ⟨es, walked, finals, made, written⟩ := packed
  have tells : Tells (leaves fun path _ => isExcluded path excludes) [] (directory mode root) es :=
    walk_tells distinct walked
  refine ⟨es, finals, tells, made, ?_⟩
  have top : dot.name ≠ trailerName := by decide
  have last : ∀ e ∈ finals, e.name ≠ trailerName := fun e listed =>
    trailer_apart e.name (finalEntries_name made e listed)
  rw [read_whole_iff written, ← tells_trailer_iff named tells]
  simp only [List.cons_append, List.forall_mem_cons, List.forall_mem_append]
  exact ⟨fun all => all.2.1, fun all => ⟨top, all, last⟩⟩

def oneFile : List (Bytes × HostTree) := [([0x64], .directory 0o755 [([0x66], .leaf (.file 0o644 [0x68]))])]

theorem oneFile_distinct (mode : Nat) : Distinct (directory mode oneFile) := by
  refine .directory (by decide) fun e listed => ?_
  obtain rfl := List.mem_singleton.mp listed
  refine .directory (by decide) fun e listed => ?_
  obtain rfl := List.mem_singleton.mp listed
  exact .leaf

theorem oneFile_named (mode : Nat) : Named IsName (directory mode oneFile) := by
  refine .directory (by simp [oneFile, IsName]) fun e listed => ?_
  obtain rfl := List.mem_singleton.mp listed
  refine .directory (by simp [IsName]) fun e listed => ?_
  obtain rfl := List.mem_singleton.mp listed
  exact .leaf

theorem packRootfs_reads_oneFile :
    ∃ archive es finals, packRootfs oneFile [[0x61]] { now := 0 } = some archive ∧
      Tells (leaves fun path _ => isExcluded path [[0x61]]) [] (directory 0o755 oneFile) es ∧
      finalEntries { now := 0 } = some finals ∧ readArchive archive = some (dot :: es ++ finals) := by
  obtain ⟨archive, packed⟩ := Option.isSome_iff_exists.mp
    (by decide +kernel : (packRootfs oneFile [[0x61]] { now := 0 }).isSome = true)
  obtain ⟨es, finals, tells, made, whole⟩ := packRootfs_reads (oneFile_distinct 0o755) (oneFile_named 0o755) packed
  exact ⟨archive, es, finals, packed, tells, made, whole.mpr (by simp [oneFile, trailerName])⟩

/-- An archive of a workspace says what the workspace holds below its mount point; it is cut short just where the
mount point is the trailer's name. -/
theorem packWorkspace_reads {mode : Nat} {workspace : List (Bytes × HostTree)} {mountpoint : Bytes}
    {excludes : List Bytes} {maxMb : Nat} {archive : Bytes} (distinct : Distinct (directory mode workspace))
    (named : Named IsName (directory mode workspace))
    (packed : packWorkspace workspace mountpoint excludes maxMb = some archive) :
    ∃ es, Tells (leaves fun _ name => some (excludes.contains name)) [mountpoint] (directory mode workspace) es ∧
      (readArchive archive = some ({ name := mountpoint, mode := 0o40755 } :: es) ↔ mountpoint ≠ trailerName) ∧
      ∃ front, archive.length = front + 124 ∧ front ≤ maxMb * 1024 * 1024 := by
  simp only [packWorkspace, Option.bind_eq_bind, Option.bind_eq_some_iff] at packed
  obtain ⟨es, walked, out, front, packed⟩ := packed
  split at packed
  · cases packed
  · rename_i small
    obtain ⟨last, ended, rfl⟩ : ∃ last, appendNewc trailer = some last ∧ out ++ last = archive := by
      simpa [Option.bind_eq_some_iff] using packed
    have written := appendAll_concat front ended
    have tells : Tells (leaves fun _ name => some (excludes.contains name)) [mountpoint]
      (directory mode workspace) es :=
      walk_tells distinct walked
    have mounted : mountpoint ≠ [] := (appendAll_fits front _ List.mem_cons_self).1
    refine ⟨es, tells, ?_, out.length, ?_, by omega⟩
    · rw [read_whole_iff written, List.forall_mem_cons]
      exact ⟨fun all => all.1, fun apart => ⟨apart, tells_below mounted named tells⟩⟩
    · rw [List.length_append, trailer_length ended]

theorem packWorkspace_reads_oneFile :
    ∃ archive es, packWorkspace oneFile [0x77] [[0x61]] 1 = some archive ∧
      Tells (leaves fun _ name => some ([[0x61]].contains name)) [[0x77]] (directory 0o755 oneFile) es ∧
      readArchive archive = some ({ name := [0x77], mode := 0o40755 } :: es) := by
  obtain ⟨archive, packed⟩ := Option.isSome_iff_exists.mp
    (by decide +kernel : (packWorkspace oneFile [0x77] [[0x61]] 1).isSome = true)
  obtain ⟨es, tells, whole, -⟩ := packWorkspace_reads (oneFile_distinct 0o755) (oneFile_named 0o755) packed
  exact ⟨archive, es, packed, tells, whole.mpr (by decide)⟩

end Machinen.Initramfs
