import Machinen.Mount.Survival

/-! The listing of a directory, page by page. Each entry tells the place of the next one, the guest asks
from the place of the last entry it has received, and the handle outlives a snapshot and a restore. -/
namespace Machinen.Mount

open Bytes Prog

/-- The entries as OPENDIR packs them: each tells how many entries there are up to it. -/
structure Numbered (entries : List Bytes) : Prop where
  packed : Packed entries
  numbered : ∀ i entry, entries[i]? = some entry →
    ∃ dtype, ∃ name : DirentName, entry = buildDirent (i + 1) dtype name.bytes

variable {entries : List Bytes} {fh nodeid : Nat} {request : Request}
  {pages : List (List Bytes)}

theorem Numbered.add (listed : Numbered entries)
    (room : entries.length ≠ maxDirents) (dtype : Nat) (name : DirentName) :
    Numbered (entries ++ [buildDirent (entries.length + 1) dtype name.bytes]) where
  packed := listed.packed.add room _ dtype name
  numbered i entry there := by
    rcases Nat.lt_trichotomy i entries.length with before | here | behind
    · rw [List.getElem?_append_left before] at there
      exact listed.numbered i entry there
    · subst here
      rw [List.getElem?_concat_length] at there
      exact ⟨dtype, name, (Option.some.inj there).symm⟩
    · rw [List.getElem?_eq_none (by rw [List.length_append, List.length_singleton]; omega)] at there
      exact nomatch there

section Dirent

def direntSize (data : Bytes) : Nat := 24 + (u32At data 16 + 7) / 8 * 8

/-- The loop of a guest over a reply; every entry has some bytes, so a round for each byte is enough. -/
def splitDirentsLoop : Nat → Bytes → List Bytes
  | 0, _ => []
  | rounds + 1, data =>
    if data.length < direntSize data then []
    else data.take (direntSize data) :: splitDirentsLoop rounds (data.drop (direntSize data))

def splitDirents (data : Bytes) : List Bytes := splitDirentsLoop data.length data

def direntOff (entry : Bytes) : Nat := u64At entry 8

variable (off dtype : Nat) (name : DirentName)

theorem buildDirent_size (rest : Bytes) : direntSize (buildDirent off dtype name.bytes ++ rest) =
    (buildDirent off dtype name.bytes).length := by
  have short := name.short
  have namelen : u32At (buildDirent off dtype name.bytes ++ rest) 16 = name.bytes.length := by
    simpa only [buildDirent, List.append_assoc, List.length_append, le_length] using
      u32At_field (le 8 off ++ le 8 off) (le 4 dtype ++ (name.bytes ++ (List.replicate
        ((name.bytes.length + 7) / 8 * 8 - name.bytes.length) 0 ++ rest)))
        (show name.bytes.length < 2 ^ 32 by omega)
  rw [direntSize, namelen]
  simp only [buildDirent, List.length_append, le_length, List.length_replicate]
  omega

theorem buildDirent_off (small : off < 2 ^ 64) : direntOff (buildDirent off dtype name.bytes) = off := by
  simpa only [direntOff, buildDirent, List.append_assoc, le_length] using
    u64At_field (le 8 off) (le 4 name.bytes.length ++ (le 4 dtype ++ (name.bytes ++ List.replicate
      ((name.bytes.length + 7) / 8 * 8 - name.bytes.length) 0))) small

theorem splitDirentsLoop_nil (rounds : Nat) : splitDirentsLoop rounds [] = [] := by
  cases rounds with
  | zero => rfl
  | succ rounds => exact if_pos (Nat.lt_of_lt_of_le (by decide) (Nat.le_add_right 24 _))

theorem splitDirentsLoop_build (rounds : Nat) (rest : Bytes) :
    splitDirentsLoop (rounds + 1) (buildDirent off dtype name.bytes ++ rest) =
      buildDirent off dtype name.bytes :: splitDirentsLoop rounds rest := by
  rw [splitDirentsLoop, buildDirent_size, if_neg, List.take_left, List.drop_left]
  rw [List.length_append]
  omega

end Dirent

theorem splitDirents_flatten (entries : List Bytes)
    (built : ∀ entry ∈ entries, ∃ off dtype, ∃ name : DirentName,
    entry = buildDirent off dtype name.bytes) : splitDirents entries.flatten = entries := by
  have loop (rounds : Nat) (enough : entries.flatten.length ≤ rounds) :
      splitDirentsLoop rounds entries.flatten = entries := by
    induction entries generalizing rounds with
    | nil => exact splitDirentsLoop_nil rounds
    | cons entry rest ih =>
      obtain ⟨⟨off, dtype, name, rfl⟩, others⟩ := List.forall_mem_cons.mp built
      have header : 24 ≤ (buildDirent off dtype name.bytes).length := by
        simp only [buildDirent, List.length_append, le_length]
        omega
      rw [List.flatten_cons, List.length_append] at enough
      obtain ⟨rounds, rfl⟩ : ∃ more, rounds = more + 1 := ⟨rounds - 1, by omega⟩
      rw [List.flatten_cons, splitDirentsLoop_build, ih others rounds (by omega)]
  exact loop _ (Nat.le_refl _)

def fitting (room : Nat) : List Bytes → Nat
  | [] => 0
  | entry :: rest => if room < entry.length then 0 else fitting (room - entry.length) rest + 1

theorem fillDirents_eq (entries : List Bytes) (room : Nat) :
    fillDirents room entries = (entries.take (fitting room entries)).flatten := by
  induction entries generalizing room with
  | nil => rfl
  | cons entry rest ih =>
    unfold fillDirents fitting
    split
    · rfl
    · rw [ih, List.take_succ_cons, List.flatten_cons]

theorem fillDirents_fits (entries : List Bytes) (room : Nat) :
    (fillDirents room entries).length ≤ room := by
  induction entries generalizing room with
  | nil => exact Nat.zero_le _
  | cons entry rest ih =>
    unfold fillDirents
    split
    · exact Nat.zero_le _
    · have later := ih (room - entry.length)
      rw [List.length_append]
      omega

theorem fitting_pos (room : Nat) (some_ : entries ≠ [])
    (fits : ∀ entry ∈ entries, entry.length ≤ room) : fitting room entries ≠ 0 := by
  cases entries with
  | nil => exact absurd rfl some_
  | cons entry rest =>
    unfold fitting
    rw [if_neg (Nat.not_lt.mpr (fits entry List.mem_cons_self))]
    exact Nat.succ_ne_zero _

variable {σ : Type} {host : Host σ} {s t : State σ}

section Children

variable (host) (rootAbs dirRel : Bytes)

/-- A child has an entry unless it is one of the two dots, or its path is too long to ask for the type
that readdir has not told. -/
def shown (child : HostDirent) : Bool :=
  decide (child.name.bytes ≠ [dot] ∧ child.name.bytes ≠ [dot, dot] ∧
    (child.dtype ≠ 0 ∨ (buildAbsPath rootAbs (joinRel dirRel child.name.bytes)).isSome))

def listedChildren (children : List HostDirent) : List HostDirent :=
  (children.filter (shown rootAbs dirRel)).take maxDirents

/-- The type in an entry is the one that readdir has told, or else what an lstat finds. -/
def HasType (child : HostDirent) (dtype : Nat) : Prop :=
  if child.dtype ≠ 0 then dtype = child.dtype
  else ∃ h abs, buildAbsPath rootAbs (joinRel dirRel child.name.bytes) = some abs ∧
    dtype = match (host.call h (.lstat abs)).1 with
      | .ok st => modeToDt st.mode
      | .error _ => 0

structure Lists (children : List HostDirent) (entries : List Bytes) : Prop where
  count : entries.length = children.length
  entry : ∀ i child, children[i]? = some child → ∃ dtype, HasType host rootAbs dirRel child dtype ∧
    entries[i]? = some (buildDirent (i + 1) dtype child.name.bytes)

variable {host rootAbs dirRel}

theorem Lists.add {children : List HostDirent}
    (lists : Lists host rootAbs dirRel children entries) {child : HostDirent} {dtype : Nat}
    (kind : HasType host rootAbs dirRel child dtype) : Lists host rootAbs dirRel (children ++ [child])
      (entries ++ [buildDirent (entries.length + 1) dtype child.name.bytes]) where
  count := by rw [List.length_append, List.length_append, lists.count]; rfl
  entry i other there := by
    rcases Nat.lt_trichotomy i children.length with before | here | behind
    · rw [List.getElem?_append_left before] at there
      rw [List.getElem?_append_left (lists.count ▸ before)]
      exact lists.entry i other there
    · subst here
      rw [List.getElem?_concat_length] at there
      obtain rfl := Option.some.inj there
      rw [← lists.count, List.getElem?_concat_length]
      exact ⟨dtype, kind, rfl⟩
    · rw [List.getElem?_eq_none (by rw [List.length_append, List.length_singleton]; omega)] at there
      exact nomatch there

variable (host rootAbs dirRel)

def Tells (child : HostDirent) : Option Nat → Prop
  | none => child.dtype = 0 ∧ buildAbsPath rootAbs (joinRel dirRel child.name.bytes) = none
  | some dtype => (child.dtype ≠ 0 ∨ (buildAbsPath rootAbs (joinRel dirRel child.name.bytes)).isSome) ∧
      HasType host rootAbs dirRel child dtype

theorem direntType_tells (child : HostDirent) : Triple (fun s => s.rootAbs = rootAbs)
    (direntType host dirRel child)
    (fun dtype s => Tells host rootAbs dirRel child dtype ∧ s.rootAbs = rootAbs) fun _ _ => True := by
  apply Triple.branch
  · intro known
    have kind : HasType host rootAbs dirRel child child.dtype := by
      rw [HasType, if_pos known]
    exact Triple.ret fun _ root => ⟨⟨.inl known, kind⟩, root⟩
  · intro unknown s root
    rw [bind_ok (show (read : Handler σ (State σ)) s = (.ok s, s) from rfl), root]
    cases abs : buildAbsPath rootAbs (joinRel dirRel child.name.bytes) with
    | none => exact ⟨⟨Decidable.not_not.mp unknown, abs⟩, root⟩
    | some path =>
      have kind : HasType host rootAbs dirRel child (match (host.call s.host (.lstat path)).1 with
          | .ok st => modeToDt st.mode
          | .error _ => 0) := by
        rw [HasType, if_neg unknown]
        exact ⟨s.host, path, abs, rfl⟩
      dsimp only
      rw [bind_ok (attempt_eq rfl)]
      cases answer : (host.call s.host (.lstat path)).1 with
      | ok st =>
        rw [answer] at kind
        exact ⟨⟨.inr (by rw [abs]; rfl), kind⟩, root⟩
      | error errno =>
        rw [answer] at kind
        exact ⟨⟨.inr (by rw [abs]; rfl), kind⟩, root⟩

theorem packDirents_lists (children : List HostDirent) : ∀ before entries,
    Lists host rootAbs dirRel before entries → before.length ≤ maxDirents →
    Triple (fun s => s.rootAbs = rootAbs) (packDirents host dirRel children entries)
      (fun packed _ => Lists host rootAbs dirRel (before ++
        (children.filter (shown rootAbs dirRel)).take (maxDirents - before.length)) packed)
      fun _ _ => True := by
  induction children with
  | nil =>
    intro before entries lists few
    rw [List.filter_nil, List.take_nil, List.append_nil]
    exact Triple.ret fun _ _ => lists
  | cons child rest ih =>
    intro before entries lists few
    apply Triple.branch
    · intro full
      rw [← lists.count, full, Nat.sub_self, List.take_zero, List.append_nil]
      exact Triple.ret fun _ _ => lists
    intro room
    have left : before.length < maxDirents := by
      have := lists.count
      omega
    have skip (hidden : shown rootAbs dirRel child = false) :
        (child :: rest).filter (shown rootAbs dirRel) = rest.filter (shown rootAbs dirRel) :=
      List.filter_cons_of_neg (by rw [hidden]; nofun)
    apply Triple.branch
    · intro dots
      rw [skip (decide_eq_false fun named => by
        rcases dots with one | two
        · exact named.1 one
        · exact named.2.1 two)]
      exact ih before entries lists few
    intro named
    obtain ⟨one, two⟩ := not_or.mp named
    refine Triple.learn (direntType_tells host rootAbs dirRel child) fun dtype tells => ?_
    cases dtype with
    | none =>
      rw [skip (decide_eq_false fun visible => by
        rcases visible.2.2 with known | short
        · exact known tells.1
        · rw [tells.2] at short
          exact nomatch short)]
      exact ih before entries lists few
    | some dtype =>
      have next := ih (before ++ [child]) _ (lists.add tells.2)
        (by rw [List.length_append, List.length_singleton]; omega)
      have taken : before ++ ((child :: rest).filter (shown rootAbs dirRel)).take
          (maxDirents - before.length) = before ++ [child] ++
            (rest.filter (shown rootAbs dirRel)).take (maxDirents - (before ++ [child]).length) := by
        rw [List.filter_cons_of_pos (show shown rootAbs dirRel child = true from
          decide_eq_true ⟨one, two, tells.1⟩), List.length_append,
          List.length_singleton, List.append_assoc, List.singleton_append,
          show maxDirents - before.length = maxDirents - (before.length + 1) + 1 by omega,
          List.take_succ_cons]
      rw [taken]
      exact next

end Children

variable (host) in
theorem packDirents_numbered (dirRel : Bytes) (children : List HostDirent) :
    ∀ entries, Numbered entries → Triple (fun _ => True) (packDirents host dirRel children entries)
      (fun packed _ => Numbered packed) fun _ _ => True := by
  induction children with
  | nil => exact fun entries listed => Triple.ret fun _ _ => listed
  | cons child rest ih =>
    intro entries listed
    apply Triple.branch
    · exact fun _ => Triple.ret fun _ _ => listed
    intro room
    apply Triple.branch
    · exact fun _ => ih entries listed
    intro _
    refine Triple.andThen (M := fun _ _ => True) (fun s _ => ?_) fun dtype => ?_
    · match direntType host dirRel child s with
      | (.ok _, _) => trivial
      | (.error _, _) => trivial
    · cases dtype with
      | none => exact ih entries listed
      | some dtype => exact ih _ (listed.add room dtype child.name)

theorem newHandle_inv {entry : OpenEntry}
    (ran : newHandle entry s = (.ok fh, t)) : fh < 2 ^ 64 ∧ t.handles.lookup fh = some entry := by
  obtain ⟨_, u, first, ran⟩ := bind_inv ran
  cases first
  obtain ⟨room, ran⟩ := checked_inv ran
  cases ran
  exact ⟨by omega, AList.lookup_insert _⟩

theorem need_inv {A : Type} {value : Option A} {e : Exit} {a : A}
    (ran : (need value e : Handler σ A) s = (.ok a, t)) : value = some a ∧ t = s := by
  cases value with
  | none => exact nomatch (congrArg Prod.fst ran)
  | some found =>
    cases ran
    exact ⟨rfl, rfl⟩

theorem sys_inv {c : Call} {answer : c.Answer} (ran : sys host c s = (.ok answer, t)) :
    (host.call s.host c).1 = .ok answer ∧ t.rootAbs = s.rootAbs := by
  obtain ⟨result, u, called, ran⟩ := bind_inv ran
  rw [attempt_eq rfl] at called
  cases called
  cases told : (host.call s.host c).1 with
  | error errno =>
    rw [told] at ran
    exact nomatch (congrArg Prod.fst ran)
  | ok found =>
    rw [told] at ran
    cases ran
    exact ⟨rfl, rfl⟩

/-- The listing that OPENDIR keeps: an entry for each child that the host tells of the directory. -/
structure Snapshot (host : Host σ) (s : State σ) (nodeid : Nat) (entries : List Bytes) : Prop where
  numbered : Numbered entries
  children : ∃ entry abs children, s.table.lookup nodeid = some entry ∧
    buildAbsPath s.rootAbs entry.relPath = some abs ∧
      (host.call s.host (.listDir abs)).1 = .ok children ∧
        Lists host s.rootAbs entry.relPath (listedChildren s.rootAbs entry.relPath children) entries

theorem onOpendir_opens (ran : onOpendir host nodeid s = (.ok (.opened fh), t)) :
    fh < 2 ^ 64 ∧ ∃ entries, Snapshot host s nodeid entries ∧
      t.handles.lookup fh = some (.dir 0 entries) := by
  obtain ⟨entry, u, found, ran⟩ := bind_inv ran
  obtain ⟨abs, v, built, ran⟩ := bind_inv ran
  obtain ⟨children, w, told, ran⟩ := bind_inv ran
  obtain ⟨entries, x, packed, ran⟩ := bind_inv ran
  obtain ⟨id, y, made, ran⟩ := bind_inv ran
  cases ran
  obtain ⟨known, same⟩ := need_inv found
  subst same
  obtain ⟨path, same⟩ := need_inv built
  subst same
  obtain ⟨answer, root⟩ := sys_inv told
  have listed := packDirents_numbered host entry.relPath children []
    ⟨⟨Nat.zero_le _, nofun⟩, nofun⟩ w trivial
  have lists := packDirents_lists host v.rootAbs entry.relPath children [] [] ⟨rfl, nofun⟩
    (Nat.zero_le _) w root
  rw [packed] at listed lists
  rw [List.nil_append, List.length_nil, Nat.sub_zero] at lists
  obtain ⟨small, there⟩ := newHandle_inv made
  exact ⟨small, entries, ⟨listed, entry, abs, children, known, path, answer, lists⟩, there⟩

structure Asks (request : Request) (fh offset : Nat) : Prop where
  whole : fuseInHeaderSize ≤ request.frame.length
  op : request.op = .readdir
  long : 32 ≤ request.body.length
  fh : u64At request.body 0 = fh
  offset : u64At request.body 8 = offset

def Request.room (request : Request) : Nat := u32At request.body 16

def okFrame (unique : Nat) (data : Bytes) : Bytes :=
  le 4 (fuseOutHeaderSize + data.length) ++ le 4 0 ++ le 8 unique ++ data

def Request.unique (request : Request) : Nat := (readInHeader request.frame).unique

variable (host) in
theorem handle_readdir (op : request.op = .readdir) (s : State σ) :
    handle host request.order (readInHeader request.frame) (bodyOf request.frame) s =
      onReaddir request.body s := by
  have code : Op.ofCode (readInHeader request.frame).opcode = .readdir := op
  unfold handle
  rw [code]
  rfl

theorem onReaddir_eq {offset : Nat} (asks : Asks request fh offset)
    (there : s.handles.lookup fh = some (.dir nodeid entries)) :
    onReaddir request.body s = (.ok (.data (fillDirents request.room (entries.drop offset))), s) := by
  unfold onReaddir
  rw [bind_ok (ensure_ok asks.long _ s), bind_ok
    (show (read : Handler σ (State σ)) s = (.ok s, s) from rfl), asks.fh, there, asks.offset]
  rfl

variable (host) in
theorem page_answered {offset : Nat} (asks : Asks request fh offset)
    (there : s.handles.lookup fh = some (.dir nodeid entries)) (packed : Packed entries) :
    s.dispatch host request =
        some (some (okFrame request.unique (fillDirents request.room (entries.drop offset)))) ∧
      (s.serve host request).handles = s.handles := by
  have ran := (handle_readdir host asks.op s).trans (onReaddir_eq asks there)
  constructor
  · have framed : (Reply.data (fillDirents request.room (entries.drop offset))).Framed := by
      apply Reply.data_framed
      have filled := fillDirents_length (entries.drop offset) request.room
        fun entry listed => packed.short entry (List.mem_of_mem_drop listed)
      have few : (entries.drop offset).length ≤ maxDirents :=
        Nat.le_trans (List.length_drop ▸ Nat.sub_le _ _) packed.few
      calc (fillDirents request.room (entries.drop offset)).length
          ≤ (entries.drop offset).length * (24 + 1024) := filled
        _ ≤ maxDirents * (24 + 1024) := Nat.mul_le_mul_right _ few
        _ < 2 ^ 31 := by decide
    obtain ⟨frame, sent, -⟩ := framed.send request.unique
    have whole : frame = okFrame request.unique (fillDirents request.room (entries.drop offset)) := by
      unfold Reply.send Reply.encode at sent
      simp only [Reply.parts, Option.map_some] at sent
      split at sent
      · exact (Option.some.inj (Option.some.inj sent)).symm
      · exact nomatch sent
    unfold State.dispatch
    dsimp only
    rw [if_neg (Nat.not_lt.mpr asks.whole), ran, ← whole]
    exact sent
  · unfold State.serve
    rw [ran]
    rfl

section Restore

variable (host) in
theorem restoreHandle_handles (rec : HandleRec) (r : State σ) :
    ∃ t, restoreHandle host rec r = (.ok ⟨⟩, t) ∧
    (∀ other, other ≠ rec.id → t.handles.lookup other = r.handles.lookup other) ∧
    ∀ handleId nodeid flags entries, rec = .dir handleId nodeid flags entries →
      t.handles.lookup handleId = some (.dir nodeid entries) := by
  cases rec with
  | dir handleId nodeid flags entries =>
    refine ⟨_, rfl, fun other away => AList.lookup_insert_ne away, ?_⟩
    rintro _ _ _ _ ⟨⟩
    exact AList.lookup_insert _
  | file handleId nodeid openFlags =>
    obtain ⟨file, u, reopened, same⟩ : ∃ file u, reopenHandle host nodeid openFlags r = (.ok file, u) ∧
        u.handles = r.handles := by
      unfold reopenHandle
      rw [bind_ok (show (read : Handler σ (State σ)) r = (.ok r, r) from rfl)]
      cases (r.table.lookup nodeid).bind fun entry => buildAbsPath r.rootAbs entry.relPath with
      | none => exact ⟨none, r, rfl, rfl⟩
      | some abs =>
        dsimp only
        rw [bind_ok (attempt_eq rfl)]
        cases (host.call r.host (.open_ abs (linuxOpenToHost (reopenFlags r.modeRw openFlags)) 0)).1 with
        | error errno => exact ⟨none, _, rfl, rfl⟩
        | ok fd => exact ⟨_, _, rfl, rfl⟩
    refine ⟨u.setHandles (u.handles.insert handleId (.file file nodeid openFlags)), ?_, ?_, nofun⟩
    · unfold restoreHandle
      dsimp only
      rw [bind_ok reopened]
      rfl
    · intro other away
      exact (AList.lookup_insert_ne away).trans (congrArg (AList.lookup other) same)

variable (host) in
theorem restoreHandles_dir {handleId flags : Nat} (recs : List HandleRec)
    (once : (recs.map HandleRec.id).Nodup) (listed : .dir handleId nodeid flags entries ∈ recs)
    (r : State σ) : ∃ t, forEach (restoreHandle host) recs r = (.ok ⟨⟩, t) ∧
      t.handles.lookup handleId = some (.dir nodeid entries) := by
  have others (recs : List HandleRec) (apart : handleId ∉ recs.map HandleRec.id) (r : State σ) : ∃ t,
      forEach (restoreHandle host) recs r = (.ok ⟨⟩, t) ∧
        t.handles.lookup handleId = r.handles.lookup handleId := by
    induction recs generalizing r with
    | nil => exact ⟨r, rfl, rfl⟩
    | cons rec recs ih =>
      rw [List.map_cons, List.mem_cons, not_or] at apart
      obtain ⟨away, later⟩ := apart
      obtain ⟨u, first, kept, -⟩ := restoreHandle_handles host rec r
      obtain ⟨t, rest, same⟩ := ih later u
      exact ⟨t, (bind_ok first).trans rest, same.trans (kept handleId away)⟩
  induction recs generalizing r with
  | nil => exact nomatch listed
  | cons rec recs ih =>
    obtain ⟨apart, once⟩ := List.nodup_cons.mp once
    obtain ⟨u, first, -, put⟩ := restoreHandle_handles host rec r
    rcases List.mem_cons.mp listed with rfl | later
    · obtain ⟨t, rest, same⟩ := others recs apart u
      exact ⟨t, (bind_ok first).trans rest, same.trans (put handleId nodeid flags entries rfl)⟩
    · obtain ⟨t, rest, there⟩ := ih once later u
      exact ⟨t, (bind_ok first).trans rest, there⟩

theorem applyState_dir (sized : s.Sized) {payload : Bytes} (dumped : Dumps s payload)
    (there : s.handles.lookup fh = some (.dir nodeid entries))
    (modeRw : Bool) (h : σ) : ((State.init s.rootAbs modeRw h).applyState host payload).handles.lookup
      fh = some (.dir nodeid entries) := by
  obtain ⟨inodes, handles, permI, permH, rfl⟩ := dumped
  have listed : .dir fh nodeid 0 entries ∈ handles := by
    apply permH.mem_iff.mpr
    exact List.mem_map.mpr ⟨⟨fh, .dir nodeid entries⟩, AList.mem_lookup_iff.mp there, rfl⟩
  have ids := (permH.map HandleRec.id).trans (.of_eq (dumpHandles_ids s.handles))
  let r : State σ := { State.init s.rootAbs modeRw h with
    modeRw := s.modeRw
    table := .restore inodes s.table.nextInode
    nextHandle := s.nextHandle }
  obtain ⟨t, ran, found⟩ := restoreHandles_dir host handles
    (ids.nodup_iff.mpr s.handles.keys_nodup) listed r
  unfold State.applyState
  rw [decodeState_encode _ (sized.of_perm permI permH)]
  have done : applyDecoded host ⟨s.modeRw, s.table.nextInode, s.nextHandle, inodes, handles⟩
      (State.init s.rootAbs modeRw h) = (.ok ⟨⟩, t) := ran
  dsimp only
  rw [done]
  exact found

end Restore

structure Listing (σ : Type) where
  state : State σ
  offset : Nat := 0
  answers : List (Request × Option (Option Bytes)) := []

inductive Turn (σ : Type) where
  | page (request : Request)
  | restored (payload : Bytes) (modeRw : Bool) (h : σ)

def received : Option (Option Bytes) → List Bytes
  | some (some frame) => splitDirents (frame.drop fuseOutHeaderSize)
  | _ => []

namespace Listing

/-- The next page is asked for from the place that the last entry received tells. -/
def turn (host : Host σ) (l : Listing σ) : Turn σ → Option (Listing σ)
  | .page request =>
    let answer := l.state.dispatch host request
    some
      { state := l.state.serve host request
        offset := ((received answer).getLast?.map direntOff).getD l.offset
        answers := l.answers ++ [(request, answer)] }
  | .restored payload modeRw h =>
    some { l with state := (State.init l.state.rootAbs modeRw h).applyState host payload }

/-- A page is asked for from the place that was told, with room for the largest entry; a restore is made
from a dump, every number of which fits its field. -/
def Fair (fh : Nat) (entries : List Bytes) (l : Listing σ) : Turn σ → Prop
  | .page request => Asks request fh l.offset ∧ ∀ entry ∈ entries, entry.length ≤ request.room
  | .restored payload _ _ => Dumps l.state payload ∧ l.state.Sized

/-- The answer is a success with just these entries, and not longer than was asked. -/
def Carries (asked : Request × Option (Option Bytes)) (page : List Bytes) : Prop :=
  asked.2 = some (some (okFrame asked.1.unique page.flatten)) ∧ page.flatten.length ≤ asked.1.room

/-- The pages so far are the entries up to the place that is asked for next, and only the pages that come
after the last entry are empty. -/
structure Progress (fh : Nat) (entries : List Bytes) (l : Listing σ) (pages : List (List Bytes)) :
    Prop where
  there : ∃ nodeid, l.state.handles.lookup fh = some (.dir nodeid entries)
  carried : List.Forall₂ Carries l.answers pages
  sofar : pages.flatten = entries.take l.offset
  within : l.offset ≤ entries.length
  empty : ∀ i page, pages[i]? = some page → (page = [] ↔ (pages.take i).flatten = entries)

theorem received_page {page : List Bytes} (listed : Numbered entries) (unique : Nat)
    (part : page ⊆ entries) : received (some (some (okFrame unique page.flatten))) = page := by
  have data : (okFrame unique page.flatten).drop fuseOutHeaderSize = page.flatten := by
    apply List.drop_left'
    simp only [List.length_append, le_length, fuseOutHeaderSize]
  unfold received
  dsimp only
  rw [data]
  apply splitDirents_flatten
  intro entry member
  obtain ⟨i, there⟩ := List.mem_iff_getElem?.mp (part member)
  obtain ⟨dtype, name, built⟩ := listed.numbered i entry there
  exact ⟨_, dtype, name, built⟩

theorem next_offset (listed : Numbered entries) {offset : Nat}
    (within : offset ≤ entries.length) (n : Nat) :
    (((entries.drop offset).take n).getLast?.map direntOff).getD offset =
      offset + ((entries.drop offset).take n).length := by
  cases last : ((entries.drop offset).take n).getLast? with
  | none =>
    rw [List.getLast?_eq_none_iff.mp last]
    rfl
  | some entry =>
    have some_ : (entries.drop offset).take n ≠ [] := by
      rintro none_
      rw [none_] at last
      exact nomatch last
    have positive := List.length_pos_of_ne_nil some_
    have few : ((entries.drop offset).take n).length ≤ entries.length - offset :=
      Nat.le_trans (List.length_take_le' ..) (Nat.le_of_eq List.length_drop)
    have taken : ((entries.drop offset).take n).length ≤ n := List.length_take_le ..
    rw [List.getLast?_eq_getElem?, List.getElem?_take, if_pos (by omega), List.getElem?_drop] at last
    obtain ⟨dtype, name, rfl⟩ := listed.numbered _ _ last
    rw [Option.map_some, Option.getD_some, buildDirent_off]
    · omega
    · have bounded := listed.packed.few
      have small : maxDirents < 2 ^ 64 := by decide
      omega

variable (host) in
theorem progress_page (listed : Numbered entries) {l : Listing σ} (progress : Progress fh entries l pages)
    (asks : Asks request fh l.offset) (roomy : ∀ entry ∈ entries, entry.length ≤ request.room) :
    ∃ l' page, l.turn host (.page request) = some l' ∧ Progress fh entries l' (pages ++ [page]) := by
  obtain ⟨nodeid, there⟩ := progress.there
  obtain ⟨answer, handles⟩ := page_answered host asks there listed.packed
  obtain ⟨n, is⟩ : ∃ n, n = fitting request.room (entries.drop l.offset) := ⟨_, rfl⟩
  have filled := fillDirents_eq (entries.drop l.offset) request.room
  have fits := fillDirents_fits (entries.drop l.offset) request.room
  rw [← is] at filled
  rw [filled] at answer fits
  have part : (entries.drop l.offset).take n ⊆ entries :=
    fun entry member => List.mem_of_mem_drop (List.mem_of_mem_take member)
  have offset := next_offset listed progress.within n
  have few : ((entries.drop l.offset).take n).length ≤ entries.length - l.offset :=
    Nat.le_trans (List.length_take_le' ..) (Nat.le_of_eq List.length_drop)
  have more : pages.flatten ++ (entries.drop l.offset).take n =
      entries.take (l.offset + ((entries.drop l.offset).take n).length) := by
    rw [progress.sofar, List.take_add, List.length_take, ← List.take_eq_take_min]
  refine ⟨_, (entries.drop l.offset).take n, rfl, ⟨nodeid, ?_⟩, ?_, ?_, ?_, ?_⟩
  · dsimp only
    rw [handles]
    exact there
  · exact List.rel_append progress.carried (.cons ⟨answer, fits⟩ .nil)
  · dsimp only
    rw [answer, received_page listed _ part, offset, List.flatten_append, List.flatten_singleton]
    exact more
  · dsimp only
    rw [answer, received_page listed _ part, offset]
    have within := progress.within
    omega
  · intro i page found
    rcases Nat.lt_trichotomy i pages.length with before | here | behind
    · rw [List.getElem?_append_left before] at found
      rw [List.take_append_of_le_length (Nat.le_of_lt before)]
      exact progress.empty i page found
    · subst here
      rw [List.getElem?_concat_length] at found
      obtain rfl := Option.some.inj found
      rw [List.take_left, progress.sofar]
      constructor
      · intro nothing
        by_contra unfinished
        have left : entries.drop l.offset ≠ [] := fun none_ =>
          unfinished (List.take_of_length_le (List.drop_eq_nil_iff.mp none_))
        have pos := fitting_pos request.room left fun entry member =>
          roomy entry (List.mem_of_mem_drop member)
        rw [← is] at pos
        rcases List.take_eq_nil_iff.mp nothing with zero | none_
        · exact pos zero
        · exact left none_
      · intro finished
        have all : entries.length ≤ l.offset := by
          have lengths := congrArg List.length finished
          rw [List.length_take] at lengths
          omega
        rw [List.drop_of_length_le all, List.take_nil]
    · rw [List.getElem?_eq_none (by rw [List.length_append, List.length_singleton]; omega)] at found
      exact nomatch found

variable (host) in
theorem progress_restored {l : Listing σ} (progress : Progress fh entries l pages) {payload : Bytes}
    (dumped : Dumps l.state payload) (sized : l.state.Sized) (modeRw : Bool) (h : σ) :
    ∃ l', l.turn host (.restored payload modeRw h) = some l' ∧ Progress fh entries l' pages := by
  obtain ⟨nodeid, there⟩ := progress.there
  exact ⟨_, rfl, ⟨nodeid, applyState_dir sized dumped there modeRw h⟩, progress.carried, progress.sofar,
    progress.within, progress.empty⟩

theorem progress_run (listed : Numbered entries) (turns : List (Turn σ)) {l : Listing σ}
    (progress : Progress fh entries l pages) (fair : Run.Meets (turn host) (Fair fh entries) l turns) :
    ∃ l' pages', Run.exec (turn host) l turns = some l' ∧ Progress fh entries l' pages' := by
  induction turns generalizing l pages with
  | nil => exact ⟨l, pages, rfl, progress⟩
  | cons turn turns ih =>
    have step : ∃ l' pages', l.turn host turn = some l' ∧ Progress fh entries l' pages' := by
      cases turn with
      | page request =>
        obtain ⟨l', page, next, later⟩ := progress_page host listed progress fair.1.1 fair.1.2
        exact ⟨l', _, next, later⟩
      | restored payload modeRw h =>
        obtain ⟨l', next, later⟩ := progress_restored host progress fair.1.1 fair.1.2 modeRw h
        exact ⟨l', pages, next, later⟩
    obtain ⟨m, pages', next, later⟩ := step
    obtain ⟨l', pages'', run, done⟩ := ih later (fair.tail next)
    refine ⟨l', pages'', ?_, done⟩
    unfold Run.exec
    rw [next]
    exact run

end Listing

open Listing in
/-- Once OPENDIR has given a handle, its listing has one entry for each child of the directory,
every page that is asked for from where the last one ended is answered with whole entries, these
follow one another in the order of the directory, and a page is empty just where all of them have
been received; a restore of the machine between two requests makes no difference. -/
theorem listing_in_order (host : Host σ) (s : State σ) (request : Request) (fh : Nat)
    (op : request.op = .opendir)
    (opened : (handle host request.order (readInHeader request.frame) (bodyOf request.frame) s).1 =
      .ok (.opened fh)) :
    ∃ entries, Snapshot host s (readInHeader request.frame).nodeid entries ∧
      (s.serve host request).handles.lookup fh = some (.dir 0 entries) ∧
      ∀ turns,
      Run.Meets (Listing.turn host) (Fair fh entries) { state := s.serve host request } turns →
      ∃ l pages, Run.exec (Listing.turn host) { state := s.serve host request } turns = some l ∧
        List.Forall₂ Carries l.answers pages ∧ pages.flatten = entries.take l.offset ∧
        ∀ i page, pages[i]? = some page → (page = [] ↔ (pages.take i).flatten = entries) := by
  have code : Op.ofCode (readInHeader request.frame).opcode = .opendir := op
  have ran : ∃ t, onOpendir host (readInHeader request.frame).nodeid s = (.ok (.opened fh), t) ∧
      (s.serve host request).handles = t.handles := by
    unfold State.serve
    unfold handle at opened ⊢
    rw [code] at opened ⊢
    dsimp only at opened ⊢
    cases done : onOpendir host (readInHeader request.frame).nodeid s with
    | mk result t =>
      rw [done] at opened
      obtain rfl : result = .ok (.opened fh) := opened
      exact ⟨t, rfl, rfl⟩
  obtain ⟨t, ran, handles⟩ := ran
  obtain ⟨-, entries, snapshot, there⟩ := onOpendir_opens ran
  have looked := (congrArg (AList.lookup fh) handles).trans there
  refine ⟨entries, snapshot, looked, fun turns fair => ?_⟩
  have start : Progress fh entries { state := s.serve host request } [] :=
    ⟨⟨0, looked⟩, .nil, rfl, Nat.zero_le _, nofun⟩
  obtain ⟨l, pages, run, progress⟩ := progress_run snapshot.numbered turns start fair
  exact ⟨l, pages, run, progress.carried, progress.sofar, progress.empty⟩

def Host.twoEntries : Host Unit where
  call s c := match c with
    | .listDir _ => (.ok
        [⟨⟨[97], nofun, by simp [slash], by decide⟩, 8⟩,
          ⟨⟨[98, 99], nofun, by simp [slash], by decide⟩, 4⟩], s)
    | c => Host.idle.call s c

def readdirRequest (offset size : Nat) : Request :=
  .of 28 1 (le 8 1 ++ le 8 offset ++ le 4 size ++ List.replicate 20 0) []

theorem pages_received (listed : Numbered entries) {answers : List (Request × Option (Option Bytes))}
    (carried : List.Forall₂ Listing.Carries answers pages) (part : pages.flatten ⊆ entries) :
    pages = answers.map fun asked => received asked.2 := by
  induction carried with
  | nil => rfl
  | cons carries _ ih =>
    obtain ⟨here, later⟩ := List.append_subset.mp (List.flatten_cons ▸ part)
    rw [List.map_cons, carries.1, Listing.received_page listed _ here, ← ih later]

/-- Room for one entry at a time, with a restore in between: a page for each child of the directory, and
an empty one. -/
theorem two_entries_listed :
    let s := State.serve Host.twoEntries (State.init [slash] true ()) (.of 27 1 [] [])
    ∃ l, Run.exec (Listing.turn Host.twoEntries) { state := s }
        [.page (readdirRequest 0 32), .restored s.dumpState false (), .page (readdirRequest 1 32),
          .page (readdirRequest 2 32)] = some l ∧
      List.Forall₂ Listing.Carries l.answers
        [[buildDirent 1 8 [97]], [buildDirent 2 4 [98, 99]], []] := by
  intro s
  obtain ⟨entries, snapshot, there, listing⟩ := listing_in_order Host.twoEntries
    (State.init [slash] true ()) (.of 27 1 [] []) 1 rfl rfl
  have same : some (OpenEntry.dir 0 entries) =
    some (.dir 0 [buildDirent 1 8 [97], buildDirent 2 4 [98, 99]]) :=
    there.symm.trans rfl
  cases same
  obtain ⟨l, pages, run, carried, sofar, -⟩ := listing [.page (readdirRequest 0 32),
    .restored s.dumpState false (), .page (readdirRequest 1 32), .page (readdirRequest 2 32)] (by
      refine ⟨⟨⟨by decide, rfl, by decide, rfl, rfl⟩, by decide⟩, ⟨⟨_, _, .refl _, .refl _, rfl⟩, ?_⟩,
        ⟨⟨by decide, rfl, by decide, rfl, by decide +kernel⟩, by decide⟩,
        ⟨⟨by decide, rfl, by decide, rfl, by decide +kernel⟩, by decide⟩, trivial⟩
      refine ⟨by decide, by decide, by decide, by decide, fun rec listed => ?_, fun rec listed => ?_⟩
      · obtain rfl := List.mem_singleton.mp listed
        exact ⟨by decide, by decide, by decide⟩
      · obtain rfl := List.mem_singleton.mp listed
        exact ⟨by decide, by decide, by decide⟩)
  have found : (Run.exec (Listing.turn Host.twoEntries) { state := s } [.page (readdirRequest 0 32),
      .restored s.dumpState false (), .page (readdirRequest 1 32), .page (readdirRequest 2 32)]).map
      (fun l => l.answers.map fun asked => received asked.2) =
        some [[buildDirent 1 8 [97]], [buildDirent 2 4 [98, 99]], []] := by
    decide +kernel
  rw [run] at found
  have all := pages_received snapshot.numbered carried (sofar ▸ List.take_subset ..)
  exact ⟨l, run, (all.trans (Option.some.inj found)) ▸ carried⟩

end Machinen.Mount
