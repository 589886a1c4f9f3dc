import Machinen.Mount.Containment
import Machinen.Mount.HandlerLikeness
import Machinen.Mount.MemoryHost
import Machinen.Mount.Payload

/-! What a guest notices of a snapshot. A mount that is restored over an unchanged tree
answers as the dumped one would, if its index was the inverse of its inodes' paths. -/
namespace Machinen.Mount

variable {recs : List InodeRec} {f : HostFile} {fh : Nat} {left : List Nat}

open Bytes Prog PathTree

namespace Table

variable {t : Table}

/-- The index is the inverse of the inodes' paths, and has each path by the inode's own string. -/
def Exact (t : Table) : Prop := ∀ path there,
  t.pathIndex path = some there ↔ there.key = there.nodeid ∧ t.pathOf there.nodeid = some path

theorem restore_snoc (recs : List InodeRec) (rec : InodeRec) (next : Nat) : restore (recs ++ [rec]) next =
    ((restore recs next).setInode rec.nodeid ⟨rec.path, rec.nlookup⟩).putIndex rec.path rec.nodeid :=
  List.foldl_append

theorem restore_nextInode (recs : List InodeRec) (next : Nat) : (restore recs next).nextInode = next := by
  induction recs using List.reverseRecOn with
  | nil => rfl
  | append_singleton recs rec ih =>
    rw [restore_snoc]
    exact ih

theorem restore_dangling (recs : List InodeRec) (next : Nat) : (restore recs next).dangling = false := by
  induction recs using List.reverseRecOn with
  | nil => rfl
  | append_singleton recs rec ih =>
    rw [restore_snoc]
    exact ih

theorem lookup_restore (recs : List InodeRec) (next : Nat) (once : (recs.map InodeRec.nodeid).Nodup)
    (nodeid : Nat) (entry : InodeEntry) :
    (restore recs next).lookup nodeid = some entry ↔ ⟨nodeid, entry.nlookup, entry.relPath⟩ ∈ recs := by
  induction recs using List.reverseRecOn with
  | nil => exact ⟨nofun, nofun⟩
  | append_singleton recs rec ih =>
    rw [List.map_append, List.nodup_append] at once
    obtain ⟨before, -, apart⟩ := once
    rw [restore_snoc, List.mem_append, List.mem_singleton]
    change ((restore recs next).setInode _ _).lookup nodeid = _ ↔ _
    by_cases here : nodeid = rec.nodeid
    · subst here
      rw [lookup_setInode]
      constructor
      · intro same
        cases Option.some.inj same
        exact .inr rfl
      · rintro (listed | same)
        · exact absurd rfl (apart _ (List.mem_map_of_mem listed) _ (List.mem_singleton.mpr rfl))
        · rw [← same]
    · rw [lookup_setInode_ne _ here, ih before]
      refine ⟨.inl, ?_⟩
      rintro (listed | same)
      · exact listed
      · exact absurd (congrArg InodeRec.nodeid same) here

theorem at_restore_snoc (recs : List InodeRec) (rec : InodeRec) (next : Nat) :
    (restore (recs ++ [rec]) next).at_ = Function.update (restore recs next).at_ rec.path
      (some rec.nodeid) := by
  rw [restore_snoc, at_putIndex]
  rfl

theorem putIndex_new {t : Table} {path : Bytes} (absent : t.pathIndex path = none) (nodeid : Nat) :
    (t.putIndex path nodeid).pathIndex = Function.update t.pathIndex path (some ⟨nodeid, nodeid⟩) := by
  unfold putIndex
  rw [absent]

theorem index_restore (next : Nat) (apart : (recs.map InodeRec.path).Nodup)
    (path : Bytes) (there : IndexEntry) : (restore recs next).pathIndex path = some there ↔
      there.key = there.nodeid ∧ ∃ rec ∈ recs, rec.nodeid = there.nodeid ∧ rec.path = path := by
  induction recs using List.reverseRecOn generalizing path there with
  | nil => exact ⟨nofun, fun found => nomatch found.2⟩
  | append_singleton recs rec ih =>
    rw [List.map_append, List.nodup_append] at apart
    obtain ⟨before, -, new⟩ := apart
    have absent : (restore recs next).pathIndex rec.path = none := by
      cases found : (restore recs next).pathIndex rec.path with
      | none => rfl
      | some other =>
        obtain ⟨-, earlier, listed, -, same⟩ := (ih before _ _).mp found
        exact absurd same (new _ (List.mem_map_of_mem listed) _ (List.mem_singleton.mpr rfl))
    have there_ : ∀ other : InodeRec, other ∈ recs ++ [rec] ↔ other ∈ recs ∨ other = rec :=
      fun other => by rw [List.mem_append, List.mem_singleton]
    have indexed : (restore (recs ++ [rec]) next).pathIndex =
        Function.update (restore recs next).pathIndex rec.path (some ⟨rec.nodeid, rec.nodeid⟩) := by
      rw [restore_snoc]
      exact putIndex_new absent _
    rw [indexed]
    by_cases here : path = rec.path
    · subst here
      rw [Function.update_self]
      constructor
      · intro same
        cases Option.some.inj same
        exact ⟨rfl, rec, (there_ rec).mpr (.inr rfl), rfl, rfl⟩
      · rintro ⟨own, other, listed, id, same⟩
        rcases (there_ other).mp listed with earlier | rfl
        · exact absurd same (new _ (List.mem_map_of_mem earlier) _ (List.mem_singleton.mpr rfl))
        · rw [← id] at own
          exact congrArg some (IndexEntry.mk.injEq .. ▸ ⟨id, own.symm⟩)
    · rw [Function.update_of_ne here, ih before]
      refine and_congr_right fun _ => exists_congr fun other => ?_
      rw [there_ other]
      constructor
      · exact fun found => ⟨.inl found.1, found.2⟩
      · rintro ⟨earlier | rfl, id, same⟩
        · exact ⟨earlier, id, same⟩
        · exact absurd same.symm here

theorem mem_dumpInodes {nodeid nlookup : Nat} {path : Bytes} :
    ⟨nodeid, nlookup, path⟩ ∈ dumpInodes t ↔ t.lookup nodeid = some ⟨path, nlookup⟩ := by
  unfold dumpInodes
  rw [List.mem_map]
  constructor
  · rintro ⟨⟨_, _⟩, listed, same⟩
    cases same
    exact AList.mem_lookup_iff.mpr listed
  · exact fun looked => ⟨⟨nodeid, path, nlookup⟩, AList.mem_lookup_iff.mp looked, rfl⟩

theorem dumpInodes_once (t : Table) : ((dumpInodes t).map InodeRec.nodeid).Nodup := by
  have keys : (dumpInodes t).map InodeRec.nodeid = t.inodes.keys := by
    unfold dumpInodes
    rw [List.map_map]
    rfl
  rw [keys]
  exact t.inodes.keys_nodup

theorem lookup_restored (next : Nat) (perm : recs.Perm (dumpInodes t)) :
    (restore recs next).lookup = t.lookup := by
  have once := (perm.map InodeRec.nodeid).nodup_iff.mpr (dumpInodes_once t)
  funext nodeid
  ext entry
  rw [lookup_restore recs next once, perm.mem_iff, mem_dumpInodes]

theorem listed_iff (perm : recs.Perm (dumpInodes t)) (nodeid : Nat) (path : Bytes) :
    (∃ rec ∈ recs, rec.nodeid = nodeid ∧ rec.path = path) ↔ t.pathOf nodeid = some path := by
  rw [pathOf, Option.map_eq_some_iff]
  constructor
  · rintro ⟨⟨_, nlookup, _⟩, listed, rfl, rfl⟩
    exact ⟨_, mem_dumpInodes.mp (perm.mem_iff.mp listed), rfl⟩
  · rintro ⟨⟨_, nlookup⟩, looked, rfl⟩
    exact ⟨_, perm.mem_iff.mpr (mem_dumpInodes.mpr looked), rfl, rfl⟩

def OnePath (t : Table) : Prop :=
  ∀ a b path, t.pathOf a = some path → t.pathOf b = some path → a = b

theorem OnePath.apart (one : t.OnePath) (perm : recs.Perm (dumpInodes t)) :
    (recs.map InodeRec.path).Nodup := by
  have once := (perm.map InodeRec.nodeid).nodup_iff.mpr (dumpInodes_once t)
  refine once.of_map.map_on fun a listedA b listedB same => ?_
  refine List.inj_on_of_nodup_map once listedA listedB (one _ _ a.path ?_ ?_)
  · exact (listed_iff perm _ _).mp ⟨a, listedA, rfl, rfl⟩
  · exact (listed_iff perm _ _).mp ⟨b, listedB, rfl, same.symm⟩

theorem OnePath.index (one : t.OnePath) (perm : recs.Perm (dumpInodes t))
    (path : Bytes) (there : IndexEntry) : (restore recs t.nextInode).pathIndex path = some there ↔
      there.key = there.nodeid ∧ t.pathOf there.nodeid = some path := by
  rw [index_restore _ (one.apart perm), listed_iff perm]

theorem Exact.onePath (exact_ : t.Exact) : t.OnePath := by
  intro a b path atA atB
  have indexed := (exact_ path ⟨a, a⟩).mpr ⟨rfl, atA⟩
  rw [(exact_ path ⟨b, b⟩).mpr ⟨rfl, atB⟩] at indexed
  exact (congrArg IndexEntry.nodeid (Option.some.inj indexed)).symm

theorem Exact.restored (exact_ : t.Exact) (intact : t.dangling = false)
    (perm : recs.Perm (dumpInodes t)) : t.Same (restore recs t.nextInode) where
  lookup := (lookup_restored _ perm).symm
  nextInode := (restore_nextInode recs _).symm
  dangling := intact.trans (restore_dangling recs _).symm
  index := by
    funext path
    ext there
    rw [exact_ path there, exact_.onePath.index perm]

theorem restored_iff (t : Table) :
    (∀ recs : List InodeRec, recs.Perm (dumpInodes t) →
      (restore recs t.nextInode).pathIndex = t.pathIndex) ↔ t.Exact := by
  constructor
  · intro same path there
    have last : ∀ nodeid path, t.pathOf nodeid = some path → t.at_ path = some nodeid := by
      intro nodeid path lives
      obtain ⟨rec, listed, rfl, rfl⟩ := (listed_iff (List.Perm.refl _) _ _).mpr lives
      -- the record of this inode comes last
      obtain ⟨front, back, split⟩ := List.append_of_mem listed
      have perm : (front ++ back ++ [rec]).Perm (dumpInodes t) := by
        rw [split]
        refine List.perm_append_comm.trans ?_
        exact (List.perm_middle.symm : (rec :: (front ++ back)).Perm (front ++ rec :: back))
      rw [at_, ← same _ perm]
      exact (congrFun (at_restore_snoc _ rec _) rec.path).trans (Function.update_self ..)
    have one : t.OnePath := fun a b path atA atB =>
      Option.some.inj ((last a path atA).symm.trans (last b path atB))
    rw [← same _ (List.Perm.refl _)]
    exact one.index (List.Perm.refl _) path there
  · exact fun exact_ recs perm => funext fun path => by
      ext there
      rw [exact_ path there, exact_.onePath.index perm]

end Table

def HandleRec.id : HandleRec → Nat
  | .file handleId _ _ | .dir handleId _ _ _ => handleId

variable {σ : Type}

theorem mem_dumpHandles {handles : AList fun _ : Nat => OpenEntry} {rec : HandleRec}
    (listed : rec ∈ dumpHandles handles) :
    match rec with
    | .file handleId nodeid openFlags => ∃ file, handles.lookup handleId = some (.file file nodeid openFlags)
    | .dir handleId nodeid _ entries => handles.lookup handleId = some (.dir nodeid entries) := by
  unfold dumpHandles at listed
  rw [List.mem_map] at listed
  obtain ⟨⟨handleId, entry⟩, listed, same⟩ := listed
  have looked := AList.mem_lookup_iff.mpr listed
  cases entry with
  | file file nodeid openFlags =>
    cases same
    exact ⟨file, looked⟩
  | dir nodeid entries =>
    cases same
    exact looked

theorem dumpHandles_ids (handles : AList fun _ : Nat => OpenEntry) :
    (dumpHandles handles).map HandleRec.id = handles.keys := by
  unfold dumpHandles
  rw [List.map_map]
  apply List.map_congr_left
  rintro ⟨handleId, entry⟩ -
  cases entry <;> rfl

def Dumps (s : State σ) (payload : Bytes) : Prop :=
  ∃ inodes handles, inodes.Perm (dumpInodes s.table) ∧ handles.Perm (dumpHandles s.handles) ∧
    payload = encodeState ⟨s.modeRw, s.table.nextInode, s.nextHandle, inodes, handles⟩

theorem dumpState_dumps (s : State σ) : Dumps s s.dumpState := ⟨_, _, .refl _, .refl _, rfl⟩

/-- Every number and every length of the mount fits its field in a dump. -/
def State.Sized (s : State σ) : Prop :=
  Decoded.Sized ⟨s.modeRw, s.table.nextInode, s.nextHandle, dumpInodes s.table, dumpHandles s.handles⟩

theorem State.Sized.of_perm {s : State σ} (sized : s.Sized) {inodes : List InodeRec}
    {handles : List HandleRec} (permI : inodes.Perm (dumpInodes s.table))
    (permH : handles.Perm (dumpHandles s.handles)) :
    Decoded.Sized ⟨s.modeRw, s.table.nextInode, s.nextHandle, inodes, handles⟩ where
  nextInode := sized.nextInode
  nextHandle := sized.nextHandle
  inodeCount := permI.length_eq ▸ sized.inodeCount
  handleCount := permH.length_eq ▸ sized.handleCount
  inodes rec listed := sized.inodes rec (permI.mem_iff.mp listed)
  handles rec listed := sized.handles rec (permH.mem_iff.mp listed)

section Restore

variable {host : Host σ} {τ Obj : Type} (files : host.Files τ Obj)

/-- Opening the path of the inode again gives the file that the handle is open on, and
leaves the tree alone. -/
structure Reopens (s : State σ) (file : Option HostFile) (nodeid openFlags : Nat) : Prop where
  again : ∃ f entry abs o fd, file = some f ∧ s.table.lookup nodeid = some entry ∧
    buildAbsPath s.rootAbs entry.relPath = some abs ∧ files.object s.host f.fd = some o ∧
    (host.call s.host (.open_ abs (linuxOpenToHost (reopenFlags s.modeRw openFlags)) 0)).1 =
      .ok (fd : Nat) ∧
    files.object (host.after s.host (.open_ abs (linuxOpenToHost (reopenFlags s.modeRw openFlags)) 0)) fd =
      some o ∧
    files.tree (host.after s.host (.open_ abs (linuxOpenToHost (reopenFlags s.modeRw openFlags)) 0)) =
      files.tree s.host

/-- The mount `r` is `s` without the handles in `left`. -/
structure Recovered (s : State σ) (left : List Nat) (r : State σ) : Prop where
  rootAbs : s.rootAbs = r.rootAbs
  modeRw : s.modeRw = r.modeRw
  table : s.table.Same r.table
  nextHandle : s.nextHandle = r.nextHandle
  tree : files.tree s.host = files.tree r.host
  handles : ∀ fh, fh ∉ left →
    Paired (files.object s.host) (files.object r.host) (s.handles.lookup fh) (r.handles.lookup fh)
  later : ∀ fh ∈ left, r.handles.lookup fh = none
  own : r.Own

variable {files} {s r : State σ}

theorem Recovered.alike (recovered : Recovered files s [] r) (own : s.Own) : Alike files s r where
  rootAbs := recovered.rootAbs
  modeRw := recovered.modeRw
  table := recovered.table
  nextHandle := recovered.nextHandle
  tree := recovered.tree
  handles fh := recovered.handles fh nofun
  own := own
  own' := recovered.own

theorem paired_there {here there : Nat → Option Obj} {entry : Option OpenEntry} {nodeid flags : Nat}
    (paired : Paired here there entry (some (.file (some f) nodeid flags))) : there f.fd ≠ none := by
  cases paired with
  | file _ _ _ _ o _ isThere =>
    rw [isThere]
    exact nofun

theorem hostFile_inv (found : r.hostFile fh = some f) :
    ∃ nodeid flags, r.handles.lookup fh = some (.file (some f) nodeid flags) := by
  unfold State.hostFile at found
  split at found
  · rename_i file nodeid flags looked
    cases found
    exact ⟨nodeid, flags, looked⟩
  · cases found

theorem Recovered.opened (recovered : Recovered files s left r)
    (found : r.hostFile fh = some f) : files.object r.host f.fd ≠ none := by
  obtain ⟨nodeid, flags, looked⟩ := hostFile_inv found
  by_cases coming : fh ∈ left
  · rw [recovered.later fh coming] at looked
    exact nomatch looked
  · have paired := recovered.handles fh coming
    rw [looked] at paired
    exact paired_there paired

theorem hostFile_insert {other : Nat} {entry : OpenEntry}
    (found : (r.setHandles (r.handles.insert fh entry)).hostFile other = some f) :
    (other = fh ∧ ∃ nodeid flags, entry = .file (some f) nodeid flags) ∨
      (other ≠ fh ∧ r.hostFile other = some f) := by
  obtain ⟨nodeid, flags, looked⟩ := hostFile_inv found
  by_cases here : other = fh
  · left
    rw [here] at looked
    exact ⟨here, nodeid, flags, Option.some.inj ((AList.lookup_insert _).symm.trans looked)⟩
  · right
    exact ⟨here, hostFile_of ((AList.lookup_insert_ne here).symm.trans looked)⟩

theorem Recovered.put (recovered : Recovered files s (fh :: left) r)
    (once : fh ∉ left) {entry : OpenEntry}
    (paired : Paired (files.object s.host) (files.object r.host) (s.handles.lookup fh) (some entry))
    (apart : ∀ f nodeid flags, entry = .file (some f) nodeid flags → ∀ other g, r.hostFile other = some g →
      g.fd ≠ f.fd) :
    Recovered files s left (r.setHandles (r.handles.insert fh entry)) where
  rootAbs := recovered.rootAbs
  modeRw := recovered.modeRw
  table := recovered.table
  nextHandle := recovered.nextHandle
  tree := recovered.tree
  handles := by
    intro other gone
    change Paired _ _ (s.handles.lookup other) ((r.handles.insert fh entry).lookup other)
    by_cases here : other = fh
    · rw [here, AList.lookup_insert]
      exact paired
    · rw [AList.lookup_insert_ne here]
      exact recovered.handles other (List.not_mem_cons_of_ne_of_not_mem here gone)
  later := by
    intro other coming
    have here : other ≠ fh := fun same => once (same ▸ coming)
    exact (AList.lookup_insert_ne here).trans (recovered.later other (List.mem_cons_of_mem _ coming))
  own := by
    intro a b f g atA atB same
    rcases hostFile_insert atA with ⟨newA, nodeid, flags, isA⟩ | ⟨_, foundA⟩ <;>
      rcases hostFile_insert atB with ⟨newB, nodeid', flags', isB⟩ | ⟨_, foundB⟩
    · exact newA.trans newB.symm
    · exact absurd same.symm (apart f nodeid flags isA b g foundB)
    · exact absurd same (apart g nodeid' flags' isB a f foundA)
    · exact recovered.own a b f g foundA foundB same

theorem Recovered.called (recovered : Recovered files s left r) (path : Bytes) (flags : HostFlags)
    (mode : Nat) (calm : files.tree (host.after r.host (.open_ path flags mode)) = files.tree r.host) :
    Recovered files s left (r.called host (.open_ path flags mode)) where
  rootAbs := recovered.rootAbs
  modeRw := recovered.modeRw
  table := recovered.table
  nextHandle := recovered.nextHandle
  tree := recovered.tree.trans calm.symm
  handles fh gone := (recovered.handles fh gone).keep (fun _ _ _ _ => rfl) fun _ _ _ looked =>
    files.stays _ _ _ nofun (recovered.opened (hostFile_of looked))
  later := recovered.later
  own := recovered.own

theorem reopenHandle_eq {nodeid openFlags : Nat} {entry : InodeEntry} {abs : Bytes} {fd : Nat}
    (looked : r.table.lookup nodeid = some entry) (built : buildAbsPath r.rootAbs entry.relPath = some abs)
    (opens : (host.call r.host (.open_ abs (linuxOpenToHost (reopenFlags r.modeRw openFlags)) 0)).1 =
      .ok fd) :
    reopenHandle host nodeid openFlags r =
      (.ok (some ⟨fd, linuxOpenToHost (reopenFlags r.modeRw openFlags)⟩),
        r.called host (.open_ abs (linuxOpenToHost (reopenFlags r.modeRw openFlags)) 0)) := by
  unfold reopenHandle
  rw [bind_ok (show (read : Handler σ (State σ)) r = (.ok r, r) from rfl), looked, Option.bind_some, built]
  dsimp only
  rw [bind_ok (attempt_eq opens)]
  rfl

theorem restoreHandle_recovers {R : Exit → State σ → Prop} {rec : HandleRec}
    (reopens : ∀ fh file nodeid openFlags, s.handles.lookup fh = some (.file file nodeid openFlags) →
      Reopens files s file nodeid openFlags)
    (listed : rec ∈ dumpHandles s.handles) (once : rec.id ∉ left) :
    Triple (Recovered files s (rec.id :: left)) (restoreHandle host rec) (fun _ => Recovered files s left)
      R := by
  intro r recovered
  have looked := mem_dumpHandles listed
  cases rec with
  | dir handleId nodeid openFlags entries =>
    refine recovered.put once ?_ fun f nodeid flags impossible => nomatch impossible
    change Paired _ _ (s.handles.lookup handleId) _
    rw [show s.handles.lookup handleId = some (.dir nodeid entries) from looked]
    exact .dir nodeid entries
  | file handleId nodeid openFlags =>
    obtain ⟨file, looked⟩ := looked
    obtain ⟨f, entry, abs, o, fd, rfl, known, built, isHere, opens, isFile, calm⟩ :=
      (reopens _ _ _ _ looked).again
    rw [recovered.table.lookup] at known
    rw [recovered.rootAbs] at built
    rw [recovered.modeRw] at opens isFile calm
    let c := linuxOpenToHost (reopenFlags r.modeRw openFlags)
    obtain ⟨trees, answers⟩ := files.opens s.host r.host abs c 0 recovered.tree
    rw [opens] at answers
    cases granted : (host.call r.host (.open_ abs c 0)).1 with
    | error e =>
      rw [granted] at answers
      exact (answers : False).elim
    | ok gd =>
      rw [granted] at answers
      obtain ⟨o', here, there⟩ := answers
      cases Option.some.inj (isFile.symm.trans here)
      have reopened := recovered.called abs c 0 (trees.symm.trans (calm.trans recovered.tree))
      unfold restoreHandle
      dsimp only
      rw [bind_ok (reopenHandle_eq known built granted)]
      refine reopened.put once ?_ ?_
      · change Paired _ _ (s.handles.lookup handleId) _
        rw [looked]
        exact .file f _ nodeid openFlags o isHere there
      · intro g _ _ same other g' found shared
        cases same
        exact recovered.opened found (shared ▸ files.free _ _ _ _ _ granted)

theorem restoreHandles_recover {R : Exit → State σ → Prop} {recs : List HandleRec}
    (reopens : ∀ fh file nodeid openFlags, s.handles.lookup fh = some (.file file nodeid openFlags) →
      Reopens files s file nodeid openFlags)
    (listed : ∀ rec ∈ recs, rec ∈ dumpHandles s.handles) (once : (recs.map HandleRec.id).Nodup) :
    Triple (Recovered files s (recs.map HandleRec.id)) (forEach (restoreHandle host) recs)
      (fun _ => Recovered files s []) R := by
  induction recs with
  | nil => exact Triple.ret fun _ recovered => recovered
  | cons rec rest ih =>
    obtain ⟨apart, others⟩ := List.nodup_cons.mp once
    apply (restoreHandle_recovers reopens (listed rec List.mem_cons_self) apart).andThen
    exact fun _ => ih (fun other later => listed other (List.mem_cons_of_mem _ later)) others

theorem applyState_alike (own : s.Own) (sized : s.Sized) (exact_ : s.table.Exact)
    (intact : s.table.dangling = false)
    (reopens : ∀ fh file nodeid openFlags, s.handles.lookup fh = some (.file file nodeid openFlags) →
      Reopens files s file nodeid openFlags)
    {payload : Bytes} (dumped : Dumps s payload) (modeRw : Bool) {h : σ}
      (unchanged : files.tree h = files.tree s.host) :
    Alike files s ((State.init s.rootAbs modeRw h).applyState host payload) := by
  obtain ⟨inodes, handles, permI, permH, rfl⟩ := dumped
  have fits := sized.of_perm permI permH
  have ids := (permH.map HandleRec.id).trans (.of_eq (dumpHandles_ids s.handles))
  let r : State σ := { State.init s.rootAbs modeRw h with
    modeRw := s.modeRw
    table := .restore inodes s.table.nextInode
    nextHandle := s.nextHandle }
  have start : Recovered files s (handles.map HandleRec.id) r :=
    { rootAbs := rfl
      modeRw := rfl
      table := exact_.restored intact permI
      nextHandle := rfl
      tree := unchanged.symm
      handles := by
        intro fh gone
        rw [AList.lookup_eq_none.mpr fun there => gone (ids.mem_iff.mpr (AList.mem_keys.mp there))]
        exact .none
      later := fun _ _ => rfl
      own := nofun }
  have ran := (restoreHandles_recover (R := fun _ => Recovered files s []) reopens
    (fun rec listed => permH.mem_iff.mp listed) (ids.nodup_iff.mpr s.handles.keys_nodup)).final start
  unfold State.applyState
  rw [decodeState_encode _ fits]
  exact ran.alike own

end Restore

/-- The answers to a sequence of requests, up to the first that is not answered. -/
def State.converse (host : Host σ) : State σ → List Request → List (Option (Option Bytes))
  | _, [] => []
  | s, request :: later => s.dispatch host request ::
      (if (s.dispatch host request).isSome then State.converse host (s.serve host request) later else [])

/-- The same requests on two mounts. Each visits the inodes in an order of its own, which
makes no difference where a RENAME of a directory is granted. -/
def Abreast (host : Host σ) : State σ → List Request → List Request → Prop
  | s, request :: later, other :: others => request.frame = other.frame ∧
      (∀ old new oldAbs newAbs, Renames host s request old new oldAbs newAbs true →
        s.table.Either old new request.order other.order) ∧
      Abreast host (s.serve host request) later others
  | _, [], [] => True
  | _, _, _ => False

/-- No path string that the index has as a key was freed before any of the requests that
are answered. -/
def State.Intact (host : Host σ) : State σ → List Request → Prop
  | _, [] => True
  | s, request :: later => s.table.dangling = false ∧
      ((s.dispatch host request).isSome = true → State.Intact host (s.serve host request) later)

section Conversation

variable {host : Host σ} {τ Obj : Type} {files : host.Files τ Obj} {s r : State σ}

theorem Alike.converse (alike : Alike files s r) {later others : List Request}
    (abreast : Abreast host s later others) : r.converse host others = s.converse host later := by
  induction later generalizing s r others with
  | nil =>
    cases others with
    | nil => rfl
    | cons => exact abreast.elim
  | cons request later ih =>
    cases others with
    | nil => exact abreast.elim
    | cons other others =>
      obtain ⟨frame, either, rest⟩ := abreast
      obtain ⟨answers, after⟩ := alike.serve frame either
      unfold State.converse
      rw [← answers]
      rcases after with ⟨stopped, -⟩ | after
      · rw [stopped]
        rfl
      · rw [ih after rest]

theorem Alike.intact (alike : Alike files s r) {later others : List Request}
    (abreast : Abreast host s later others) (intact : s.Intact host later) : r.Intact host others := by
  induction later generalizing s r others with
  | nil =>
    cases others with
    | nil => trivial
    | cons => exact abreast.elim
  | cons request later ih =>
    cases others with
    | nil => exact abreast.elim
    | cons other others =>
      obtain ⟨frame, either, rest⟩ := abreast
      obtain ⟨answers, after⟩ := alike.serve frame either
      refine ⟨alike.table.dangling.symm.trans intact.1, fun answered => ?_⟩
      rw [← answers] at answered
      rcases after with ⟨stopped, -⟩ | after
      · rw [stopped] at answered
        exact nomatch answered
      · exact ih after rest (intact.2 answered)

theorem exec_alike {rootAbs : Bytes} {modeRw : Bool} {h : σ} {requests : List Request}
    (run : State.exec host (State.init rootAbs modeRw h) requests = some s) (alive : s.trapped = false) :
    Alike files s s := by
  have kept : ∀ (s : State σ) request t, (s.trapped = false → Alike files s s) →
    s.step host request = some t →
      t.trapped = false → Alike files t t := by
    intro s request t before moved running
    rw [step_serve host moved] at running ⊢
    rcases ((before (step_alive host moved)).serve rfl fun _ _ _ _ _ =>
      .inl rfl).2 with ⟨-, stopped⟩ | after
    · rw [stopped] at running
      exact nomatch running
    · exact after
  have start : (State.init rootAbs modeRw h).trapped = false →
      Alike files (State.init rootAbs modeRw h) (State.init rootAbs modeRw h) := fun _ =>
    ⟨rfl, rfl, ⟨rfl, rfl, rfl, rfl⟩, rfl, rfl, fun _ => .none, nofun, nofun⟩
  exact Run.exec_invariant kept requests start run alive

theorem exec_rootAbs {rootAbs : Bytes} {modeRw : Bool} {h : σ} {requests : List Request}
    (run : State.exec host (State.init rootAbs modeRw h) requests = some s) : s.rootAbs = rootAbs := by
  have kept : ∀ s request t, Inside rootAbs s → s.step host request = some t → Inside rootAbs t := by
    intro s request t inside moved
    rw [step_serve host moved]
    exact inside.serve host request
  exact (Run.exec_invariant kept requests (init_inside rootAbs modeRw h) run).root

end Conversation

/-- The index comes back from every dump exactly when it is the inverse of the inodes' paths;
and then a mount that is restored over an unchanged tree, all of whose handles reopen, answers
all later requests as the dumped mount does, for as long as no key of the index is freed. -/
theorem restored_converses {host : Host σ} {τ Obj : Type} (files : host.Files τ Obj) (rootAbs : Bytes)
    (modeRw : Bool) (h : σ) (requests : List Request) (s : State σ)
    (run : State.exec host (State.init rootAbs modeRw h) requests = some s) (alive : s.trapped = false) :
    ((∀ recs : List InodeRec, recs.Perm (dumpInodes s.table) →
      (Table.restore recs s.table.nextInode).pathIndex = s.table.pathIndex) ↔ s.table.Exact) ∧
    (s.Sized → s.table.Exact → s.table.dangling = false →
      (∀ fh file nodeid openFlags, s.handles.lookup fh = some (.file file nodeid openFlags) →
        Reopens files s file nodeid openFlags) →
      ∀ payload, Dumps s payload → ∀ fresh h', files.tree h' = files.tree s.host →
      ∀ later others, Abreast host s later others → s.Intact host later →
        let restored := (State.init rootAbs fresh h').applyState host payload
        restored.Intact host others ∧ restored.converse host others = s.converse host later) := by
  refine ⟨s.table.restored_iff, ?_⟩
  intro sized exact_ intact reopens payload dumped fresh h' unchanged later others abreast kept
  have self : Alike files s s := exec_alike run alive
  have alike := applyState_alike self.own sized exact_ intact reopens dumped fresh unchanged
  rw [exec_rootAbs run] at alike
  exact ⟨alike.intact abreast kept, alike.converse abreast⟩

namespace Table

theorem init_exact : Table.init.Exact := by
  intro path there
  have paths : Table.init.pathOf = Function.update (fun _ : Nat => none) 1 (some []) := by
    funext other
    by_cases here : other = 1
    · rw [here, Function.update_self]
      rfl
    · rw [Function.update_of_ne here, pathOf, lookup, init, AList.lookup_insert_ne here]
      rfl
  have indexed : Table.init.pathIndex = Function.update (fun _ => none) [] (some ⟨1, 1⟩) := rfl
  obtain ⟨nodeid, key⟩ := there
  rw [indexed, paths, Function.update_apply, Function.update_apply]
  by_cases root : path = [] <;> by_cases one : nodeid = 1 <;> simp [root, one, eq_comm]

theorem Exact.insertNew {t : Table} (exact_ : t.Exact) {path : Bytes} (absent : t.pathIndex path = none)
    (unused : t.pathOf t.nextInode = none) : (t.insertNew path).Exact := by
  intro other there
  have indexed : (t.insertNew path).pathIndex =
      Function.update t.pathIndex path (some ⟨t.nextInode, t.nextInode⟩) := putIndex_new absent _
  have paths : (t.insertNew path).pathOf = Function.update t.pathOf t.nextInode (some path) :=
    pathOf_setInode { t with nextInode := t.nextInode + 1 } _ _
  obtain ⟨nodeid, key⟩ := there
  rw [indexed, paths]
  by_cases here : other = path
  · rw [here, Function.update_self]
    by_cases new : nodeid = t.nextInode
    · rw [new, Function.update_self]
      simp [eq_comm]
    · rw [Function.update_of_ne new, ← exact_ path ⟨nodeid, key⟩, absent]
      exact ⟨fun same => absurd (congrArg IndexEntry.nodeid (Option.some.inj same)).symm new, nofun⟩
  · rw [Function.update_of_ne here, exact_ other ⟨nodeid, key⟩]
    by_cases new : nodeid = t.nextInode
    · rw [new, Function.update_self, unused]
      constructor
      · rintro ⟨-, gone⟩
        cases gone
      · rintro ⟨-, same⟩
        exact absurd (Option.some.inj same).symm here
    · rw [Function.update_of_ne new]

end Table

/-- A host that grants every call; its state lists the descriptors that are open. -/
def Host.shelf : Host (List Nat) where
  call opened c := match c with
    | .open_ _ _ _ => (.ok (opened.foldr max 2 + 1), (opened.foldr max 2 + 1) :: opened)
    | .close fd => (.ok (), opened.filter (· ≠ fd))
    | c => ((Host.idle.call () c).1, opened)

theorem le_foldr_max {n : Nat} {ns : List Nat} (listed : n ∈ ns) : n ≤ ns.foldr max 2 := by
  induction ns with
  | nil => exact nomatch listed
  | cons m rest ih =>
    rcases List.mem_cons.mp listed with rfl | later
    · exact Nat.le_max_left _ _
    · exact (ih later).trans (Nat.le_max_right _ _)

def shelfFiles : Host.shelf.Files Unit Unit where
  tree _ := ()
  object opened fd := if fd ∈ opened then some () else none
  path := by
    intro h k c onPath _
    cases c <;> first | exact ⟨rfl, rfl⟩ | exact nomatch onPath
  descriptor := by
    intro h k f fd gd o _ _ _
    cases f <;> exact ⟨rfl, rfl⟩
  opens h k path flags mode _ := by
    refine ⟨rfl, (), if_pos ?_, if_pos ?_⟩ <;> exact List.mem_cons_self
  free := by
    intro h path flags mode fd opened
    cases opened
    have fresh : ¬ h.foldr max 2 + 1 ∈ h := fun listed => Nat.not_succ_le_self _ (le_foldr_max listed)
    exact if_neg fresh
  stays := by
    intro h c fd apart isOpen
    have listed : fd ∈ h := by
      by_contra closed
      exact isOpen (if_neg closed)
    rw [if_pos listed]
    cases c
    case open_ => exact if_pos (List.mem_cons_of_mem _ listed)
    case close other =>
      refine if_pos (List.mem_filter.mpr ⟨listed, ?_⟩)
      exact decide_eq_true fun same => apart (same ▸ rfl)
    all_goals exact if_pos listed

def createA (order : List Nat) : Request := .of 35 1 (le 4 2 ++ zeros 12 ++ [0x61, 0]) order

def releaseFirst (order : List Nat) : Request := .of 18 1 (le 8 1 ++ zeros 16) order

def unlinkA (order : List Nat) : Request := .of 10 1 [0x61, 0] order

def lookupA (order : List Nat) : Request := .of 1 1 [0x61, 0] order

/-- A file is created, and looked up and read after the snapshot. -/
theorem restored_converses_create :
    ((State.init [slash] false []).applyState Host.shelf
      ((State.init [slash] true []).serve Host.shelf (createA [1])).dumpState).converse Host.shelf
        [lookupA [1, 2], readAt 0, releaseFirst [1, 2]] =
      ((State.init [slash] true []).serve Host.shelf (createA [1])).converse Host.shelf
        [lookupA [1, 2], readAt 0, releaseFirst [1, 2]] := by
  let s := (State.init [slash] true []).serve Host.shelf (createA [1])
  have run : State.exec Host.shelf (State.init [slash] true []) [createA [1]] = some s := rfl
  have table : s.table = Table.init.insertNew [0x61] := rfl
  have handles : s.handles.entries = [⟨1, .file (some ⟨3, { linuxOpenToHost 2 with creates := true }⟩) 2
    2⟩] := rfl
  have sized : s.Sized := by
    refine ⟨by decide +kernel, by decide +kernel, by decide +kernel, by decide +kernel, ?_, ?_⟩
    · change ∀ rec ∈ [⟨2, 1, [0x61]⟩, ⟨1, nlookupPinned, []⟩], InodeRec.Sized rec
      simp only [List.forall_mem_cons]
      exact ⟨⟨by decide, by decide, by decide⟩, ⟨by decide, by decide, by decide⟩, nofun⟩
    · change ∀ rec ∈ [.file 1 2 2], HandleRec.Sized rec
      rw [List.forall_mem_singleton]
      exact ⟨by decide, by decide, by decide⟩
  have exact_ : s.table.Exact := table ▸ Table.init_exact.insertNew rfl rfl
  have reopens : ∀ fh file nodeid openFlags, s.handles.lookup fh = some (.file file nodeid openFlags) →
      Reopens shelfFiles s file nodeid openFlags := by
    intro fh file nodeid openFlags looked
    have listed := AList.mem_lookup_iff.mp looked
    rw [handles] at listed
    cases List.mem_singleton.mp listed
    exact ⟨_, ⟨[0x61], 1⟩, [slash, slash, 0x61], (), 4, rfl, rfl, rfl, rfl, rfl, rfl, rfl⟩
  let later := [lookupA [1, 2], readAt 0, releaseFirst [1, 2]]
  have abreast : Abreast Host.shelf s later later :=
    ⟨rfl, fun _ _ _ _ _ => .inl rfl, rfl, fun _ _ _ _ _ => .inl rfl, rfl, fun _ _ _ _ _ => .inl rfl,
    trivial⟩
  have kept : s.Intact Host.shelf later :=
    ⟨rfl, fun _ => ⟨rfl, fun _ => ⟨rfl, fun _ => trivial⟩⟩⟩
  exact ((restored_converses shelfFiles [slash] true [] [createA [1]] s run rfl).2 sized exact_ rfl reopens _
    (dumpState_dumps s) false [] rfl later later abreast kept).2

/-- `a` is created, removed and, after the snapshot, created again: the mount that goes on
gives it the nodeid 3, and the restored one the nodeid 2 of the file that was removed. -/
theorem restored_diverges : ∃ s,
    State.exec (MemFs.host [slash]) (State.init [slash] true MemFs.empty)
      [createA [1], releaseFirst [1, 2], unlinkA [1, 2]] = some s ∧ s.trapped = false ∧
    ((State.init [slash] true s.host).applyState (MemFs.host [slash]) s.dumpState).converse
      (MemFs.host [slash]) [createA [1, 2]] ≠ s.converse (MemFs.host [slash]) [createA [1, 2]] := by
  have ran : (State.exec (MemFs.host [slash]) (State.init [slash] true MemFs.empty)
      [createA [1], releaseFirst [1, 2], unlinkA [1, 2]]).any (fun s => s.trapped = false ∧
        ((State.init [slash] true s.host).applyState (MemFs.host [slash]) s.dumpState).converse
          (MemFs.host [slash])
          [createA [1, 2]] ≠ s.converse (MemFs.host [slash]) [createA [1, 2]]) = true := by
    decide +kernel
  obtain ⟨s, run, diverges⟩ := (Option.any_eq_true _ _).mp ran
  exact ⟨s, run, of_decide_eq_true diverges⟩

end Machinen.Mount
