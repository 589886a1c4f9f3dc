import Machinen.CleanService.MountTable
import Machinen.Lib.Foremost

/-! Which mount the scanner takes an application to lie on, and when that is the one it does lie on. -/
namespace Machinen.CleanService

open Words Foremost
open Runtime.Multiplex (isSpace)

namespace Path

def body (path : Path) : Text := path.flatMap fun name => '/' :: name.val

theorem text_cons (name : Name) (path : Path) : text (name :: path) = body (name :: path) := rfl

theorem body_front (path : Path) : body path = [] ∨ ∃ rest, body path = '/' :: rest := by
  cases path with
  | nil => exact .inl rfl
  | cons name path => exact .inr ⟨_, rfl⟩

theorem body_append (a b : Path) : body (a ++ b) = body a ++ body b := List.flatMap_append

theorem body_last {path : Path} (some_ : path ≠ []) : ∀ c ∈ (body path).getLast?, c ≠ '/' := by
  obtain ⟨front, last, rfl⟩ := (List.eq_nil_or_concat' path).resolve_left some_
  rintro c mem rfl
  have parts : body (front ++ [last]) = (body front ++ ['/']) ++ last.val := by simp [body]
  rw [parts, List.getLast?_append, List.getLast?_eq_some_getLast last.property.1, Option.some_or,
    Option.mem_some_iff] at mem
  have inside := List.getLast_mem last.property.1
  rw [mem] at inside
  exact last.property.2 inside

theorem stripSlashes_text (path : Path) : stripSlashes path.text = body path := by
  cases path with
  | nil => rfl
  | cons name path =>
    refine List.rdropWhile_eq_self_iff.mpr fun some_ => ?_
    have last := body_last (List.cons_ne_nil name path) _ (List.getLast?_eq_some_getLast some_)
    simpa using last

theorem names_eq {n m rest more : Text} (left : '/' ∉ n) (right : '/' ∉ m)
    (ends : more = [] ∨ ∃ tail, more = '/' :: tail)
    (front : n ++ '/' :: rest <+: m ++ more) : n = m ∧ '/' :: rest <+: more := by
  induction n generalizing m with
  | nil =>
    cases m with
    | nil => exact ⟨rfl, front⟩
    | cons d m =>
      obtain ⟨rfl, -⟩ := List.cons_prefix_cons.mp front
      simp at right
  | cons c n ih =>
    cases m with
    | nil =>
      rcases ends with rfl | ⟨tail, rfl⟩
      · simp at front
      · obtain ⟨rfl, -⟩ := List.cons_prefix_cons.mp front
        simp at left
    | cons d m =>
      obtain ⟨rfl, inner⟩ := List.cons_prefix_cons.mp front
      obtain ⟨rfl, behind⟩ := ih (fun mem => left (List.mem_cons_of_mem _ mem))
        (fun mem => right (List.mem_cons_of_mem _ mem)) inner
      exact ⟨rfl, behind⟩

theorem body_prefix_iff (root path : Path) : body root ++ ['/'] <+: body path ↔ root <+: path ∧ root ≠ path := by
  induction root generalizing path with
  | nil =>
    cases path with
    | nil => simp [body]
    | cons m path => simp [body]
  | cons n root ih =>
    cases path with
    | nil => simp [body]
    | cons m path =>
      have slash : ∃ rest, body root ++ ['/'] = '/' :: rest := by
        rcases body_front root with none | ⟨rest, is⟩
        · exact ⟨[], by rw [none]; rfl⟩
        · exact ⟨rest ++ ['/'], by rw [is]; rfl⟩
      obtain ⟨rest, slash⟩ := slash
      have parts : body (n :: root) ++ ['/'] <+: body (m :: path) ↔ n.val ++ '/' :: rest <+: m.val ++ body path := by
        rw [← slash, ← List.append_assoc]
        exact List.cons_prefix_cons.trans (and_iff_right rfl)
      rw [parts, List.cons_prefix_cons]
      constructor
      · intro front
        obtain ⟨same, behind⟩ := names_eq n.property.2 m.property.2 (body_front path) front
        obtain ⟨inside, other⟩ := (ih path).mp (slash ▸ behind)
        exact ⟨⟨Subtype.ext same, inside⟩, fun whole => other (List.cons.inj whole).2⟩
      · rintro ⟨⟨rfl, inside⟩, other⟩
        have front := (ih path).mpr ⟨inside, fun whole => other (whole ▸ rfl)⟩
        rw [slash] at front
        exact (List.prefix_append_right_inj n.val).mpr front

theorem body_injective {a b : Path} (same : body a = body b) : a = b := by
  have within {a b : Path} (same : body a = body b) : a <+: b := by
    have name : Name := ⟨['a'], by simp⟩
    have front : body a ++ ['/'] <+: body (b ++ [name]) := by
      rw [same, body_append]
      exact (List.prefix_append_right_inj _).mpr ⟨name.val, by simp [body]⟩
    obtain ⟨inside, other⟩ := (body_prefix_iff a (b ++ [name])).mp front
    exact (List.prefix_concat_iff.mp inside).resolve_left other
  exact List.IsPrefix.eq_of_length_le (within same) (within same.symm).length_le

theorem isPathInside_iff (path root : Path) : isPathInside path.text root.text = true ↔ root <+: path := by
  rw [isPathInside, stripSlashes_text, Bool.or_eq_true, beq_iff_eq, List.isPrefixOf_iff_prefix]
  cases root with
  | nil =>
    obtain ⟨rest, is⟩ := Mount.path_front path
    simp [is, body]
  | cons n root =>
    cases path with
    | nil => simp [text, body, n.property.1]
    | cons m path =>
      rw [text_cons, text_cons, body_prefix_iff]
      constructor
      · rintro (same | ⟨inside, -⟩)
        · rw [body_injective same]
        · exact inside
      · intro inside
        by_cases same : n :: root = m :: path
        · exact .inl (by rw [same])
        · exact .inr ⟨inside, same⟩

theorem text_injective {a b : Path} (same : a.text = b.text) : a = b := by
  have left := (isPathInside_iff a b).mp (by simp [isPathInside, same])
  have right := (isPathInside_iff b a).mp (by simp [isPathInside, same])
  exact List.IsPrefix.eq_of_length_le right left.length_le

theorem utf16Length_append (a b : Text) : utf16Length (a ++ b) = utf16Length a + utf16Length b := by
  simp [utf16Length]

theorem utf16Length_pos {text : Text} (some_ : text ≠ []) : 0 < utf16Length text := by
  obtain ⟨c, text, rfl⟩ := List.exists_cons_of_ne_nil some_
  unfold utf16Length
  rw [List.map_cons, List.sum_cons]
  split <;> omega

theorem utf16Length_lt {a b : Path} (front : a <+: b) (other : a ≠ b) : utf16Length a.text < utf16Length b.text := by
  obtain ⟨more, rfl⟩ := front
  obtain ⟨m, more, rfl⟩ := List.exists_cons_of_ne_nil (fun none : more = [] => other (by simp [none]))
  cases a with
  | nil =>
    have slash : utf16Length (text []) = utf16Length ['/'] := rfl
    have parts : text ([] ++ m :: more) = ['/'] ++ (m.val ++ body more) := rfl
    have some_ := utf16Length_pos m.property.1
    rw [parts, slash, utf16Length_append, utf16Length_append]
    omega
  | cons n a =>
    have parts : text (n :: a ++ m :: more) = text (n :: a) ++ body (m :: more) := body_append (n :: a) (m :: more)
    have some_ := utf16Length_pos (show body (m :: more) ≠ [] by simp [body])
    rw [parts, utf16Length_append]
    omega

end Path

theorem Kernel.Lookup.covers {k : Kernel} {path : Path} {m : Mount} (lookup : k.Lookup path m) :
    m ∈ k.mounts ∧ m.point <+: path := by
  induction lookup with
  | root => exact ⟨k.root_mem, by simp [k.root_point]⟩
  | cross _ covers _ => exact ⟨covers.1, covers.2.2 ▸ List.prefix_rfl⟩
  | down name _ _ ih => exact ⟨ih.1, ih.2.trans (List.prefix_append _ _)⟩

theorem covering_rows (mounts : List Mount) (path : Path) :
    (mounts.map Mount.row).filter (fun row => isPathInside path.text row.mountPoint || path.text == row.mountPoint) =
      (mounts.filter fun m => decide (m.point <+: path)).map Mount.row := by
  rw [List.filter_map]
  refine congrArg (List.map Mount.row) (List.filter_congr fun m _ => ?_)
  have inside := Path.isPathInside_iff path m.point
  change (isPathInside path.text m.point.text || path.text == m.point.text) = decide (m.point <+: path)
  by_cases covers : m.point <+: path
  · rw [inside.mpr covers, decide_eq_true covers, Bool.true_or]
  · have other : path.text ≠ m.point.text := by
      intro same
      exact covers (Path.text_injective same ▸ List.prefix_rfl)
    rw [Bool.eq_false_iff.mpr fun is => covers (inside.mp is), decide_eq_false covers]
    simpa using other

def pointLength (m : Mount) : Nat := utf16Length m.point.text

theorem deepest_row {mounts before after : List Mount} {path : Path} {x : Mount}
    (parts : mounts.filter (fun m => decide (m.point <+: path)) = before ++ x :: after)
    (less : ∀ y ∈ before, pointLength y < pointLength x) (most : ∀ y ∈ after, pointLength y ≤ pointLength x) :
    deepestMountForPath path.text (mounts.map Mount.row) = some x.row := by
  unfold deepestMountForPath
  rw [covering_rows, parts, List.map_append, List.map_cons]
  refine head?_mergeSort (fun row : MountInfoRow => utf16Length row.mountPoint) (fun row mem => ?_)
    (fun row mem => ?_)
  · obtain ⟨y, listed, rfl⟩ := List.mem_map.mp mem
    exact less y listed
  · obtain ⟨y, listed, rfl⟩ := List.mem_map.mp mem
    exact most y listed

theorem point_prefix {a b : Mount} {path : Path} (left : a.point <+: path) (right : b.point <+: path)
    (length : pointLength a ≤ pointLength b) : a.point <+: b.point := by
  rcases List.prefix_or_prefix_of_prefix left right with front | front
  · exact front
  · by_cases same : b.point = a.point
    · exact same ▸ List.prefix_rfl
    · exact absurd (Path.utf16Length_lt front same) (by unfold pointLength at length; omega)

/-- No mount above the application is deeper than this one, and the first that is listed where it is shows
the same row. -/
structure Kernel.Foremost (k : Kernel) (appRoot : Path) (m : Mount) : Prop where
  deepest : ∀ other ∈ k.mounts, other.point <+: appRoot → other.point <+: m.point
  first : ∀ other, k.mounts.find? (fun other => decide (other.point = m.point)) = some other → other.row = m.row

theorem deepest_iff {k : Kernel} {appRoot : Path} {m : Mount} (visible : k.Visible appRoot m) :
    deepestMountForPath appRoot.text (k.mounts.map Mount.row) = some m.row ↔ k.Foremost appRoot m := by
  obtain ⟨mem, front⟩ := visible.1.covers
  have listed : m ∈ k.mounts.filter fun other => decide (other.point <+: appRoot) := by simp [mem, front]
  obtain ⟨before, x, after, parts, less, most⟩ := exists_foremost pointLength (List.ne_nil_of_mem listed)
  have within {y : Mount} (mem : y ∈ before ++ x :: after) : y ∈ k.mounts ∧ y.point <+: appRoot := by
    rw [← parts] at mem
    simpa using mem
  have greatest {y : Mount} (mem : y ∈ before ++ x :: after) : pointLength y ≤ pointLength x := by
    rcases List.mem_append.mp mem with mem | mem
    · exact (less y mem).le
    · rcases List.mem_cons.mp mem with rfl | mem
      · exact Nat.le_refl _
      · exact most y mem
  rw [deepest_row parts less most, Option.some_inj]
  -- The first mount listed at the place of the picked one is the picked one.
  have found : k.mounts.find? (fun other => decide (other.point = x.point)) = some x := by
    have none_ : before.find? (fun other => decide (other.point = x.point)) = none := by
      refine List.find?_eq_none.mpr fun y mem same => ?_
      have shorter := less y mem
      rw [pointLength, pointLength, of_decide_eq_true same] at shorter
      exact Nat.lt_irrefl _ shorter
    have filtered : (k.mounts.filter fun other => decide (other.point <+: appRoot)).find?
        (fun other => decide (other.point = x.point)) = k.mounts.find? fun other =>
        decide (other.point = x.point) := by
      rw [List.find?_filter]
      congr 1
      funext other
      by_cases same : other.point = x.point
      · simp [same, (within (show x ∈ before ++ x :: after by simp)).2]
      · simp [same]
    rw [← filtered, parts, List.find?_append, none_, Option.none_or, List.find?_cons_of_pos (by simp)]
  constructor
  · intro same
    have points : x.point = m.point := Path.text_injective (congrArg MountInfoRow.mountPoint same)
    refine ⟨fun other mem covers => ?_, fun other is => ?_⟩
    · have inside : other ∈ before ++ x :: after := by
        rw [← parts]
        simp [mem, covers]
      exact points ▸ point_prefix covers (within (by simp)).2 (greatest inside)
    · rw [← points, found, Option.some_inj] at is
      exact is ▸ same
  · intro foremost
    have points : x.point = m.point := by
      have down := foremost.deepest x (within (by simp)).1 (within (by simp)).2
      have up := point_prefix front (within (by simp)).2 (greatest (parts ▸ listed))
      exact List.IsPrefix.eq_of_length_le down up.length_le
    exact foremost.first x (points ▸ found)

/-- The tables of a kernel are read as they are, one row for each of its objects, and the decision about an
application's directory is the one for the mount that it lies on. -/
structure ReadFaithfully (k : Kernel) (appRoot : Path) (visible : Mount) : Prop where
  tcp : parseTcpTable k.tcpTable = k.tcp.map TcpSocket.row
  unix : parseUnixSocketTable k.unixTable = k.unix.map UnixSocket.row
  maps : ∀ p ∈ k.processes, parseMaps p.maps = p.mappings.map Mapping.row
  stat : ∀ p ∈ k.processes, parseProcessStat p.stat = some p.info
  mounts : parseMountInfo k.mountInfo = k.mounts.map Mount.row
  picked : deepestMountForPath appRoot.text (parseMountInfo k.mountInfo) = some visible.row
  decision : inspectMountState appRoot.text (parseMountInfo k.mountInfo) =
    inspectMountState appRoot.text [visible.row]

/-- Names that no table makes two columns of, and a mount that no other hides the row of. -/
structure Legible (k : Kernel) (appRoot : Path) (visible : Mount) : Prop where
  sockets : ∀ s ∈ k.unix, s.Legible
  mappings : ∀ p ∈ k.processes, ∀ m ∈ p.mappings, m.Legible
  mounts : ∀ m ∈ k.mounts, m.Legible
  foremost : k.Foremost appRoot visible

theorem deepest_single {k : Kernel} {appRoot : Path} {m : Mount} (visible : k.Visible appRoot m) :
    deepestMountForPath appRoot.text [m.row] = some m.row := by
  have front := visible.1.covers.2
  have parts : [m].filter (fun m => decide (m.point <+: appRoot)) = [] ++ m :: [] := by simp [front]
  exact deepest_row parts (by simp) (by simp)

/-- The scanner reads a kernel as it is exactly when every name is legible in its table and the mount of the
application is the first of the deepest at or above it. -/
theorem scanner_faithful_iff (k : Kernel) (appRoot : Path) (m : Mount) (visible : k.Visible appRoot m) :
    ReadFaithfully k appRoot m ↔ Legible k appRoot m := by
  constructor
  · intro read
    have picked := read.picked
    rw [read.mounts] at picked
    exact {
      sockets := (parseUnixSocketTable_iff k).mp read.unix
      mappings := fun p mem => (parseMaps_iff p).mp (read.maps p mem)
      mounts := (parseMountInfo_iff k).mp read.mounts
      foremost := (deepest_iff visible).mp picked }
  · intro legible
    have rows := (parseMountInfo_iff k).mpr legible.mounts
    have picked : deepestMountForPath appRoot.text (parseMountInfo k.mountInfo) = some m.row := by
      rw [rows]
      exact (deepest_iff visible).mpr legible.foremost
    exact {
      tcp := parseTcpTable_eq k
      unix := (parseUnixSocketTable_iff k).mpr legible.sockets
      maps := fun p mem => (parseMaps_iff p).mpr (legible.mappings p mem)
      stat := fun p _ => parseProcessStat_eq p
      mounts := rows
      picked := picked
      decision := by rw [inspectMountState, inspectMountState, picked, deepest_single visible] }

def guestRoot : Mount :=
  { id := 1, parent := 0, major := 8, minor := 1, root := [], point := [], readOnly := false, flags := [.relatime]
    propagation := [], fsType := "ext4".toList, source := "/dev/vda".toList,
    superReadOnly := false, superOptions := [] }

def mnt : Name := ⟨['m', 'n', 't'], by decide⟩

def hostMount (id parent : Nat) (readOnly : Bool) : Mount :=
  { id := id, parent := parent, major := 9, minor := 1, root := [], point := [mnt], readOnly := readOnly, flags := []
    propagation := [], fsType := "virtiofs".toList, source := "host".toList,
    superReadOnly := false, superOptions := [] }

def listener : TcpSocket :=
  { slot := 0, localAddress := [0x0100007F], localPort := 3000, remoteAddress := [0], remotePort := 0, state := 10
    txQueue := 0, rxQueue := 0, timer := 0, expires := 0, retransmits := 0, uid := 0, timeout := 0, inode := 4242
    refcount := 1, pointer := 0xFFFF888003A0, figures := [100, 0, 0, 10, 0] }

def journal : UnixSocket :=
  { pointer := 0xFFFF88800480, refcount := 2, protocol := 0, flags := 0x10000, type := 1, state := 1, inode := 4243
    path := some "/run/log".toList }

/-- A library that was replaced while the process ran. -/
def library : Mapping :=
  { first := 0x7F0000000000, last := 0x7F0000002000, permissions := ⟨true, false, true, false⟩, offset := 4096
    major := 8, minor := 1, inode := 99, path := some "/lib/libc.so.6 (deleted)".toList }

/-- A machine with one process that serves a port, and with a directory of the host mounted. -/
def hostKernel : Kernel :=
  { tcp := [listener]
    unix := [journal]
    processes := [{ pid := 7, comm := "a) b (c".toList, state := .sleeping, ppid := 1, pgrp := 7, session := 7
                    figures := [0, -1], mappings := [library] }]
    mounts := [guestRoot, hostMount 2 1 false]
    root := guestRoot
    root_mem := List.mem_cons_self
    root_point := rfl }

theorem hostKernel_visible : hostKernel.Visible [mnt] (hostMount 2 1 false) := by
  have mounts {child : Mount} (mem : child ∈ hostKernel.mounts) :
      child = guestRoot ∨ child = hostMount 2 1 false := by
    simpa [hostKernel] using mem
  have below : hostKernel.Lookup ([] ++ [mnt]) guestRoot := by
    refine .down mnt .root fun child covers => ?_
    rcases mounts covers.1 with rfl | rfl
    · exact absurd covers.2.1 (by decide)
    · exact absurd covers.2.2 (by decide)
  refine ⟨.cross below ⟨by simp [hostKernel], rfl, rfl⟩, fun child covers => ?_⟩
  rcases mounts covers.1 with rfl | rfl
  · exact absurd covers.2.1 (by decide)
  · exact absurd covers.2.1 (by decide)

theorem guestRoot_legible : guestRoot.Legible :=
  guestRoot.legible_plain (isWord_of_all (by decide +kernel)) ⟨isWord_of_all (by decide +kernel), by decide +kernel⟩
    ⟨isWord_of_all (by decide +kernel), by decide +kernel⟩

theorem hostMount_legible (id parent : Nat) (readOnly : Bool) : (hostMount id parent readOnly).Legible := by
  have root : IsWord isRaw (Path.text []) := isWord_of_all (by decide +kernel)
  have point : IsWord isRaw (Path.text [mnt]) := isWord_of_all (by decide +kernel)
  have sign : '\\' ∉ Path.text [mnt] := by decide +kernel
  have type : IsWord isSpace "virtiofs".toList := isWord_of_all (by decide +kernel)
  have typeSign : '\\' ∉ "virtiofs".toList := by decide +kernel
  exact Mount.legible_plain _ root ⟨point, sign⟩ ⟨type, typeSign⟩

theorem journal_legible : journal.Legible := by
  rintro path ⟨⟩
  exact isWord_of_all (by decide +kernel)

theorem library_legible : library.Legible := by
  rintro path ⟨⟩ piece listed
  have pieces : ∀ piece ∈ "/lib/libc.so.6 (deleted)".toList.splitOn ' ',
      (!piece.isEmpty && piece.all (!isSpace ·)) = true := by decide +kernel
  exact isWord_of_all (pieces piece listed)

theorem scanner_faithful_host : ReadFaithfully hostKernel [mnt] (hostMount 2 1 false) := by
  refine (scanner_faithful_iff hostKernel [mnt] (hostMount 2 1 false) hostKernel_visible).mpr ?_
  exact {
    sockets := by simp [hostKernel, journal_legible]
    mappings := by simp [hostKernel, library_legible]
    mounts := by simp [hostKernel, guestRoot_legible, hostMount_legible]
    foremost := {
      deepest := by simp [hostKernel, guestRoot, hostMount]
      first := by simp [hostKernel, guestRoot, hostMount] } }

/-- The same directory mounted over again, this time to be written to. -/
def stackedKernel : Kernel :=
  { hostKernel with
    mounts := [guestRoot, hostMount 2 1 true, hostMount 3 2 false]
    root_mem := List.mem_cons_self }

/-- The mount in front can be written to, which is to be refused, but the row of the one behind it is read. -/
theorem stacked_mount_is_accepted :
    stackedKernel.Visible [mnt] (hostMount 3 2 false) ∧
      (inspectMountState (Path.text [mnt]) [(hostMount 3 2 false).row]).map (·.kind) = [.refused] ∧
      (inspectMountState (Path.text [mnt]) (parseMountInfo stackedKernel.mountInfo)).map (·.kind) = [.supported] ∧
      ¬ ReadFaithfully stackedKernel [mnt] (hostMount 3 2 false) := by
  have mounts {child : Mount} (mem : child ∈ stackedKernel.mounts) :
      child = guestRoot ∨ child = hostMount 2 1 true ∨ child = hostMount 3 2 false := by
    simpa [stackedKernel] using mem
  have visible : stackedKernel.Visible [mnt] (hostMount 3 2 false) := by
    have below : stackedKernel.Lookup ([] ++ [mnt]) guestRoot := by
      refine .down mnt .root fun child covers => ?_
      rcases mounts covers.1 with rfl | rfl | rfl
      · exact absurd covers.2.1 (by decide)
      · exact absurd covers.2.2 (by decide)
      · exact absurd covers.2.2 (by decide)
    have behind : stackedKernel.Lookup [mnt] (hostMount 2 1 true) := .cross below ⟨by simp [stackedKernel], rfl, rfl⟩
    refine ⟨.cross behind ⟨by simp [stackedKernel], rfl, rfl⟩, fun child covers => ?_⟩
    rcases mounts covers.1 with rfl | rfl | rfl
    · exact absurd covers.2.1 (by decide)
    · exact absurd covers.2.1 (by decide)
    · exact absurd covers.2.1 (by decide)
  have rows : parseMountInfo stackedKernel.mountInfo = stackedKernel.mounts.map Mount.row := by
    refine (parseMountInfo_iff stackedKernel).mpr ?_
    simp [stackedKernel, guestRoot_legible, hostMount_legible]
  have picked : deepestMountForPath (Path.text [mnt]) (stackedKernel.mounts.map Mount.row) =
    some (hostMount 2 1 true).row := by
    have parts : stackedKernel.mounts.filter (fun m => decide (m.point <+: [mnt])) =
        [guestRoot] ++ hostMount 2 1 true :: [hostMount 3 2 false] := by
      simp [stackedKernel, guestRoot, hostMount]
    exact deepest_row parts (by decide +kernel) (by decide +kernel)
  refine ⟨visible, ?_, ?_, fun read => ?_⟩
  · rw [inspectMountState, deepest_single visible]
    rfl
  · rw [inspectMountState, rows, picked]
    rfl
  · have other := read.picked
    rw [rows, picked] at other
    cases other

end Machinen.CleanService
