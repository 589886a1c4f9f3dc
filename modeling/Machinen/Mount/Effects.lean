import Machinen.Mount.HandlerMoves

/-! What a request does to the inode table and to the directory entries of the host, as
one effect. At most one call that creates, removes or moves a file is granted, at most
one change of the table follows it, and every other call leaves the files where they are. -/
namespace Machinen.Mount

open Bytes Prog

/-- Whether a call that is granted changes which files there are, or where. -/
def Call.structural : Call → Bool
  | .open_ _ flags _ => flags.creates
  | .mkdir .. | .symlink .. | .unlink _ | .rmdir _ | .link .. | .rename .. => true
  | _ => false

variable {σ : Type}

section Calls

variable (host : Host σ)

def Granted (h : σ) (c : Call) : Prop := ∃ answer, (host.call h c).1 = .ok answer

def Host.after (h : σ) (c : Call) : σ := (host.call h c).2

/-- One call after another, none of which moves a file. -/
inductive Calm (h : σ) : σ → Prop where
  | none : Calm h h
  | more {k : σ} (before : Calm h k) (c : Call) (still : c.structural = true → ¬ Granted host k c) :
      Calm h (host.after k c)

def State.called (s : State σ) (c : Call) : State σ := (s.note (.call c)).setHost (host.after s.host c)

/-- From `s` on, nothing but calm calls and changes of the handles, apart from the table. -/
structure After (s : State σ) (table : Table) (t : State σ) : Prop where
  table : t.table = table
  rootAbs : t.rootAbs = s.rootAbs
  calm : Calm host s.host t.host
  calls : ∃ calls : List Call, t.log = s.log ++ calls.map Event.call

/-- The names below a directory that a request resolves. -/
def Request.names (request : Request) : List (Nat × Bytes) :=
  let hdr := readInHeader request.frame
  let body := bodyOf request.frame
  match Op.ofCode hdr.opcode with
  | .lookup | .unlink | .rmdir => [(hdr.nodeid, decodeName body)]
  | .mkdir | .link => [(hdr.nodeid, decodeName (body.drop 8))]
  | .create => [(hdr.nodeid, decodeName (body.drop fuseCreateInSize))]
  | .symlink => (renameNames body).toList.map fun names => (hdr.nodeid, names.1)
  | .rename => (renameNames (body.drop 8)).toList.flatMap fun names =>
      [(hdr.nodeid, names.1), (u64At body 0, names.2)]
  | _ => []

/-- The lookups that a request gives back. -/
def Request.forgets (request : Request) : List (Nat × Nat) :=
  let hdr := readInHeader request.frame
  let body := bodyOf request.frame
  match Op.ofCode hdr.opcode with
  | .forget => if body.length < 8 then [] else [(hdr.nodeid, u64At body 0)]
  | .batchForget => if body.length < 8 then [] else forgetRecords body
  | _ => []

/-- A valid name in a directory that the table knows, with its path in the mount and on the host. -/
structure Child (s : State σ) (parent : Nat) (name rel abs : Bytes) : Prop where
  valid : validateName name = true
  found : ∃ entry, s.table.lookup parent = some entry ∧ rel = joinRel entry.relPath name
  built : buildAbsPath s.rootAbs rel = some abs

/-- The one path a request resolves. -/
def Names (s : State σ) (request : Request) (rel abs : Bytes) : Prop :=
  ∃ parent name, request.names = [(parent, name)] ∧ Child s parent name rel abs

/-- A LINK that the mount and the host grant. -/
structure Links (s : State σ) (request : Request) (nodeid : Nat) (rel : Bytes) : Prop where
  op : Op.ofCode (readInHeader request.frame).opcode = .link
  writable : s.modeRw = true
  old : u64At (bodyOf request.frame) 0 = nodeid
  granted : ∃ entry oldAbs newAbs, s.table.lookup nodeid = some entry ∧
    buildAbsPath s.rootAbs entry.relPath = some oldAbs ∧ Names s request rel newAbs ∧
    Granted host s.host (.link oldAbs newAbs) ∧
    Granted host (host.after s.host (.link oldAbs newAbs)) (.lstat newAbs)

/-- A RENAME that the mount and the host grant; `isDir` is what the lstat after it says. -/
structure Renames (s : State σ) (request : Request) (old new oldAbs newAbs : Bytes) (isDir : Bool) :
    Prop where
  writable : s.modeRw = true
  named : ∃ p q oldName newName, request.names = [(p, oldName), (q, newName)] ∧
    Child s p oldName old oldAbs ∧ Child s q newName new newAbs
  granted : Granted host s.host (.rename oldAbs newAbs)
  kind : isDir = renamedIsDir (host.call (host.after s.host (.rename oldAbs newAbs)) (.lstat newAbs)).1

/-- A call that creates a file at a path, as CREATE, MKDIR and SYMLINK make it. -/
inductive Creates (abs : Bytes) : Call → Prop where
  | file (flags : HostFlags) (mode : Nat) (creates : flags.creates = true) :
      Creates abs (.open_ abs flags mode)
  | dir (mode : Nat) : Creates abs (.mkdir abs mode)
  | symlink (target : Bytes) : Creates abs (.symlink target abs)

/-- A call that removes what is at a path. -/
inductive Removes (abs : Bytes) : Call → Prop where
  | file : Removes abs (.unlink abs)
  | dir : Removes abs (.rmdir abs)

/-- FORGET and BATCH_FORGET, one record after another. -/
def State.forgetAll (s : State σ) (records : List (Nat × Nat)) : State σ :=
  records.foldl (fun s record =>
    (s.note (.forget record.1 record.2)).setTable (s.table.decrefInode record.1 record.2)) s

/-- The second argument lists the nodeid whose lookup count grows. -/
inductive Effect (s : State σ) (request : Request) : List Nat → State σ → Prop where
  | still {t : State σ} (after : After host s s.table t) : Effect s request [] t
  | looked {t : State σ} {rel abs : Bytes} (names : Names s request rel abs)
      (found : Granted host s.host (.lstat abs))
      (after : After host (s.called host (.lstat abs)) (s.table.bindInode rel).2 t) :
      Effect s request [(s.table.bindInode rel).1] t
  | made {t : State σ} {rel abs : Bytes} {c : Call} (names : Names s request rel abs)
      (creates : Creates abs c) (granted : Granted host s.host c)
      (after : After host (s.called host c) s.table t) : Effect s request [] t
  | entered {t : State σ} {rel abs : Bytes} {c : Call} (names : Names s request rel abs)
      (creates : Creates abs c) (granted : Granted host s.host c)
      (after : After host (s.called host c) (s.table.bindInode rel).2 t) :
      Effect s request [(s.table.bindInode rel).1] t
  | removed {t : State σ} {rel abs : Bytes} {c : Call} (names : Names s request rel abs)
      (removes : Removes abs c) (granted : Granted host s.host c)
      (after : After host (s.called host c) (s.table.unindex rel) t) : Effect s request [] t
  | renamed {t : State σ} {old new oldAbs newAbs : Bytes} {isDir : Bool} {table : Table}
      (renames : Renames host s request old new oldAbs newAbs isDir)
      (done : s.table.updateBoundInodesAfterRename old new isDir request.order = some table)
      (after : After host (s.called host (.rename oldAbs newAbs)) table t) : Effect s request [] t
  | renamedStale {t : State σ} {old new oldAbs newAbs : Bytes} {isDir : Bool}
      (renames : Renames host s request old new oldAbs newAbs isDir)
      (stale : s.table.updateBoundInodesAfterRename old new isDir request.order = none)
      (after : After host (s.called host (.rename oldAbs newAbs)) s.table t) : Effect s request [] t
  | linked {t : State σ} {oldAbs newAbs rel : Bytes} {nodeid : Nat} {table : Table}
      (links : Links host s request nodeid rel) (done : s.table.retarget nodeid rel = some table)
      (after : After host (s.called host (.link oldAbs newAbs)) table t) : Effect s request [nodeid] t
  | linkedOnly {t : State σ} {oldAbs newAbs : Bytes}
      (op : Op.ofCode (readInHeader request.frame).opcode = .link)
      (after : After host (s.called host (.link oldAbs newAbs)) s.table t) : Effect s request [] t
  | forgot : Effect s request [] (s.forgetAll request.forgets)

/-- How a handler may end early. -/
def Halted (s : State σ) (request : Request) : Exit → State σ → Prop
  | .error _, t => Effect host s request [] t
  | .trap, _ => True

/-- A handler does what the request's effect says, and its reply issues what it lists. -/
def Effects (s : State σ) (request : Request) (handler : Handler σ Reply) : Prop :=
  Triple (· = s) handler (fun reply t => Effect host s request reply.issued.toList t)
    (Halted host s request)

variable {t : State σ} {I : State σ → Prop} {parent : Nat} {body : Bytes}

end Calls

section After

variable {host : Host σ} {s : State σ} {table : Table}

theorem Calm.call {h k : σ} (calm : Calm host h k) (c : Call) (still : c.structural = false) :
    Calm host h (host.after k c) :=
  calm.more c fun moves => absurd (still.symm.trans moves) Bool.false_ne_true

namespace After

theorem refl (host : Host σ) (s : State σ) : After host s s.table s :=
  ⟨rfl, rfl, .none, [], (List.append_nil _).symm⟩

theorem call (after : After host s table t) (c : Call) (next : σ)
    (calm : Calm host s.host next) : After host s table ((t.note (.call c)).setHost next) where
  table := after.table
  rootAbs := after.rootAbs
  calm := calm
  calls := by
    obtain ⟨calls, log⟩ := after.calls
    refine ⟨calls ++ [c], ?_⟩
    rw [List.map_append, ← List.append_assoc, ← log]
    rfl

theorem hold {u : State σ} (after : After host s table t) (tables : u.table = t.table)
    (roots : u.rootAbs = t.rootAbs) (hosts : u.host = t.host) (logs : u.log = t.log) :
    After host s table u :=
  ⟨tables.trans after.table, roots.trans after.rootAbs, hosts ▸ after.calm, logs ▸ after.calls⟩

theorem retable (after : After host s table t) (new : Table) :
    After host s new (t.setTable new) := ⟨rfl, after.rootAbs, after.calm, after.calls⟩

end After

theorem attempt_after (c : Call) (still : c.structural = false) :
    Keeps (After host s table) (attempt host c) := by
  apply Triple.andThen (Triple.get (Q := fun u t => t = u ∧ After host s table u) fun _ after =>
    ⟨rfl, after⟩)
  intro u
  apply Triple.andThen (M := fun _ => After host s table)
  · apply Triple.set
    rintro t ⟨rfl, after⟩
    exact after.call c _ (after.calm.call c still)
  · exact fun _ => Keeps.ret _

theorem sys_after (c : Call) (still : c.structural = false) :
    Keeps (After host s table) (sys host c) := by
  apply (attempt_after c still).andThen
  intro answer
  cases answer with
  | ok a => exact Keeps.ret _
  | error e => exact Keeps.exit _

theorem newHandle_after (entry : OpenEntry) : Keeps (After host s table) (newHandle entry) := by
  apply Keeps.get.andThen
  intro u
  apply (Keeps.check _ _).andThen
  intro _
  apply Keeps.andThen
  · exact Keeps.set _ fun t after => after.hold rfl rfl rfl rfl
  · exact fun _ => Keeps.ret _

theorem absPath_keeps (rel : Bytes) : Keeps I (absPath rel) :=
  Keeps.get.andThen fun _ => Keeps.found _ _

theorem requireInode_keeps (nodeid : Nat) : Keeps I (requireInode nodeid) :=
  Keeps.get.andThen fun _ => Keeps.found _ _

theorem requireWritable_keeps : Keeps I requireWritable :=
  Keeps.get.andThen fun _ => Keeps.check _ _

theorem inodePath_keeps (nodeid : Nat) : Keeps I (inodePath nodeid) :=
  (requireInode_keeps nodeid).andThen fun entry => absPath_keeps entry.relPath

theorem openFile_keeps (fh : Nat) : Keeps I (openFile fh) := by
  apply Keeps.get.andThen
  intro u
  split
  · exact Keeps.ret _
  · exact Keeps.exit _

end After

/-- A handler whose calls move no file, which issues nothing and leaves the table alone. -/
def Still (host : Host σ) (s : State σ) (handler : Handler σ Reply) : Prop :=
  Triple (After host s s.table) handler (fun reply t => reply.issued = none ∧ After host s s.table t)
    (fun _ => After host s s.table)

section Still

variable {host : Host σ} {s : State σ}

theorem Still.effects {request : Request} {handler : Handler σ Reply} (still : Still host s handler) :
    Effects host s request handler := by
  refine Triple.weaken still (fun t same => same ▸ After.refl host s) ?_ ?_
  · rintro reply t ⟨silent, after⟩
    rw [silent]
    exact .still after
  · intro e t after
    cases e with
    | error errno => exact .still after
    | trap => trivial

theorem Still.ret (reply : Reply) (silent : reply.issued = none) : Still host s (pure reply) :=
  Triple.ret fun _ after => ⟨silent, after⟩

theorem Still.andThen {A : Type} {m : Handler σ A} {f : A → Handler σ Reply}
    (first : Keeps (After host s s.table) m) (rest : ∀ a, Still host s (f a)) : Still host s (m >>= f) :=
  Triple.andThen first rest

theorem attr_still (st : Stat) (nodeid : Nat) : Still host s (do
    let attr ← attrOf st nodeid
    pure (Reply.attr attr)) :=
  .andThen (Keeps.found _ _) fun _ => .ret _ rfl

theorem onInit_still (body : Bytes) : Still host s (onInit body) :=
  .andThen (Keeps.check _ _) fun _ => .ret _ rfl

theorem onGetattr_still (nodeid : Nat) : Still host s (onGetattr host nodeid) := by
  apply Still.andThen (inodePath_keeps nodeid)
  intro abs
  apply Still.andThen (sys_after _ rfl)
  exact fun st => attr_still st nodeid

theorem onReadlink_still (nodeid : Nat) : Still host s (onReadlink host nodeid) := by
  apply Still.andThen (inodePath_keeps nodeid)
  intro abs
  apply Still.andThen (sys_after _ rfl)
  exact fun _ => .ret _ rfl

theorem pwriteAll_after (fd : Nat) (data : Bytes) (offset : Nat) (rounds : Nat) :
    ∀ done, Keeps (After host s s.table) (pwriteAll host fd data offset done rounds) := by
  induction rounds with
  | zero => exact fun done => Keeps.ret _
  | succ rounds ih =>
    intro done
    unfold pwriteAll
    apply Triple.branch
    · exact fun _ => Keeps.ret _
    intro _
    apply (Keeps.check _ _).andThen
    intro _
    apply (sys_after _ rfl).andThen
    intro (n : Nat)
    apply Triple.branch
    · exact fun _ => Keeps.ret _
    · exact fun _ => ih _

theorem onWrite_still (body : Bytes) : Still host s (onWrite host body) := by
  apply Still.andThen requireWritable_keeps
  intro _
  apply Still.andThen (Keeps.check _ _)
  intro _
  apply Still.andThen (Keeps.check _ _)
  intro _
  apply Still.andThen (openFile_keeps _)
  intro file
  apply Still.andThen (pwriteAll_after _ _ _ _ _)
  intro written
  apply Still.andThen (Keeps.check _ _)
  exact fun _ => .ret _ rfl

theorem onOpen_still (nodeid : Nat) (body : Bytes) : Still host s (onOpen host nodeid body) := by
  apply Still.andThen (Keeps.check _ _)
  intro _
  apply Still.andThen Keeps.get
  intro u
  apply Still.andThen (Keeps.check _ _)
  intro _
  apply Still.andThen (inodePath_keeps nodeid)
  intro abs
  apply Still.andThen (sys_after _ rfl)
  intro fd
  apply Still.andThen (newHandle_after _)
  exact fun _ => .ret _ rfl

theorem onRead_still (body : Bytes) : Still host s (onRead host body) := by
  apply Still.andThen (Keeps.check _ _)
  intro _
  apply Still.andThen (openFile_keeps _)
  intro file
  apply Still.andThen (Keeps.check _ _)
  intro _
  apply Still.andThen (sys_after _ rfl)
  exact fun _ => .ret _ rfl

theorem setattrFile_keeps (valid : Nat) (body : Bytes) :
    Keeps I (setattrFile valid body) := by
  apply Triple.branch
  · exact fun _ => Keeps.ret _
  · exact fun _ => (openFile_keeps _).andThen fun _ => Keeps.ret _

theorem setattrSize_after (valid : Nat) (body abs : Bytes) :
    Keeps (After host s s.table) (setattrSize host valid body abs) := by
  apply Triple.branch
  · exact fun _ => Keeps.ret _
  intro _
  apply (Keeps.check _ _).andThen
  intro _
  apply (Keeps.check _ _).andThen
  intro _
  apply (setattrFile_keeps valid body).andThen
  intro file
  cases file with
  | some file => exact (sys_after _ rfl).andThen fun _ => Keeps.ret _
  | none => exact (sys_after _ rfl).andThen fun _ => Keeps.ret _

theorem setattrMode_after (valid : Nat) (body abs : Bytes) :
    Keeps (After host s s.table) (setattrMode host valid body abs) := by
  apply Triple.branch
  · exact fun _ => Keeps.ret _
  intro _
  apply (Keeps.check _ _).andThen
  intro _
  apply (setattrFile_keeps valid body).andThen
  intro file
  cases file with
  | some file => exact (sys_after _ rfl).andThen fun _ => Keeps.ret _
  | none => exact (sys_after _ rfl).andThen fun _ => Keeps.ret _

theorem onSetattr_still (nodeid : Nat) (body : Bytes) : Still host s (onSetattr host nodeid body) := by
  apply Still.andThen (Keeps.check _ _)
  intro _
  apply Still.andThen Keeps.get
  intro u
  apply Still.andThen (Keeps.check _ _)
  intro _
  apply Still.andThen (inodePath_keeps nodeid)
  intro abs
  apply Still.andThen (setattrSize_after _ body abs)
  intro _
  apply Still.andThen (setattrMode_after _ body abs)
  intro _
  apply Still.andThen (sys_after _ rfl)
  exact fun st => attr_still st nodeid

theorem release_still (handles : State σ → AList fun _ : Nat => OpenEntry) : Still host s (do
    change fun t => t.setHandles (handles t)
    pure Reply.ack) :=
  .andThen (Keeps.set _ fun _ after => after.hold rfl rfl rfl rfl) fun _ => .ret _ rfl

theorem releaseHandle_still (fh : Nat) : Still host s (releaseHandle host fh) := by
  apply Still.andThen Keeps.get
  intro u
  split
  · exact .ret _ rfl
  · exact .andThen (attempt_after _ rfl) fun _ => release_still _
  · exact release_still _

theorem direntType_after (dirRel : Bytes) (child : HostDirent) :
    Keeps (After host s s.table) (direntType host dirRel child) := by
  apply Triple.branch
  · exact fun _ => Keeps.ret _
  intro _
  apply Keeps.get.andThen
  intro u
  split
  · exact Keeps.ret _
  · apply (attempt_after _ rfl).andThen
    intro answer
    cases answer with
    | ok st => exact Keeps.ret _
    | error e => exact Keeps.ret _

theorem packDirents_after (dirRel : Bytes) (children : List HostDirent) :
    ∀ entries, Keeps (After host s s.table) (packDirents host dirRel children entries) := by
  induction children with
  | nil => exact fun entries => Keeps.ret _
  | cons child rest ih =>
    intro entries
    apply Triple.branch
    · exact fun _ => Keeps.ret _
    intro _
    apply Triple.branch
    · exact fun _ => ih entries
    intro _
    apply (direntType_after dirRel child).andThen
    intro dtype
    cases dtype with
    | none => exact ih entries
    | some dtype => exact ih _

theorem onOpendir_still (nodeid : Nat) : Still host s (onOpendir host nodeid) := by
  apply Still.andThen (requireInode_keeps nodeid)
  intro entry
  apply Still.andThen (absPath_keeps _)
  intro abs
  apply Still.andThen (sys_after _ rfl)
  intro children
  apply Still.andThen (packDirents_after _ children [])
  intro entries
  apply Still.andThen (newHandle_after _)
  exact fun _ => .ret _ rfl

theorem onReaddir_still (body : Bytes) : Still host s (onReaddir body) := by
  apply Still.andThen (Keeps.check _ _)
  intro _
  apply Still.andThen Keeps.get
  intro u
  split
  · exact .ret _ rfl
  · exact Triple.exit fun _ after => after

end Still

section Exact

variable {host : Host σ} {s : State σ} {request : Request}

theorem Halted.first (e : Exit) : Halted host s request e s := by
  cases e with
  | error errno => exact .still (After.refl host s)
  | trap => trivial

theorem ensure_exact (condition : Prop) [Decidable condition] (e : Exit) :
    Triple (· = s) (ensure condition e) (fun _ t => condition ∧ t = s) (Halted host s request) :=
  Triple.check (fun holds _ same => ⟨holds, same⟩) fun _ _ same => same ▸ Halted.first e

theorem need_exact {A : Type} (value : Option A) (e : Exit) :
    Triple (· = s) (need value e) (fun a t => value = some a ∧ t = s) (Halted host s request) :=
  Triple.found (fun _ present _ same => ⟨present, same⟩) fun _ _ same => same ▸ Halted.first e

theorem requireWritable_exact : Triple (· = s) requireWritable (fun _ t => s.modeRw = true ∧ t = s)
    (Halted host s request) := by
  apply Triple.learn (Triple.get (Q := fun u t => u = s ∧ t = s) fun _ same => ⟨same, same⟩)
  rintro _ rfl
  exact ensure_exact _ _

theorem requireInode_exact (nodeid : Nat) : Triple (· = s) (requireInode nodeid)
    (fun entry t => s.table.lookup nodeid = some entry ∧ t = s) (Halted host s request) := by
  apply Triple.learn (Triple.get (Q := fun u t => u = s ∧ t = s) fun _ same => ⟨same, same⟩)
  rintro _ rfl
  exact need_exact _ _

theorem absPath_exact (rel : Bytes) : Triple (· = s) (absPath rel)
    (fun abs t => buildAbsPath s.rootAbs rel = some abs ∧ t = s) (Halted host s request) := by
  apply Triple.learn (Triple.get (Q := fun u t => u = s ∧ t = s) fun _ same => ⟨same, same⟩)
  rintro _ rfl
  exact need_exact _ _

theorem childPath_exact (parent : Nat) (name : Bytes) : Triple (· = s) (childPath parent name)
    (fun paths t => Child s parent name paths.1 paths.2 ∧ t = s) (Halted host s request) := by
  apply (ensure_exact _ _).learn
  intro _ valid
  apply (requireInode_exact parent).learn
  intro entry found
  apply (absPath_exact (joinRel entry.relPath name)).learn
  intro abs built
  exact Triple.ret fun t same => ⟨⟨valid, ⟨entry, found, rfl⟩, built⟩, same⟩

theorem attempt_exact (c : Call) : Triple (· = s) (attempt host c)
    (fun answer t => (host.call s.host c).1 = answer ∧ t = s.called host c) (Halted host s request) := by
  rintro _ rfl
  exact ⟨rfl, rfl⟩

theorem attempt_answer (b : State σ) {R : Exit → State σ → Prop} (c : Call)
    (still : c.structural = false) : Triple (· = b) (attempt host c)
      (fun answer t => (host.call b.host c).1 = answer ∧ After host b b.table t) R := by
  rintro t rfl
  exact ⟨rfl, (After.refl host t).call c _ (Calm.none.call c still)⟩

theorem sys_answer (b : State σ) {R : Exit → State σ → Prop} (c : Call) (still : c.structural = false)
    (early : ∀ e t, After host b b.table t → R e t) : Triple (· = b) (sys host c)
      (fun answer t => (host.call b.host c).1 = .ok answer ∧ After host b b.table t) R := by
  apply (attempt_answer b c still).learn
  intro answer answered
  cases answer with
  | ok a => exact Triple.ret fun t after => ⟨answered, after⟩
  | error errno => exact Triple.exit fun t after => early _ t after

theorem sys_exact (c : Call) : Triple (· = s) (sys host c)
    (fun answer t => (host.call s.host c).1 = .ok answer ∧ t = s.called host c)
    (Halted host s request) := by
  apply (attempt_exact c).learn
  intro answer answered
  cases answer with
  | ok a => exact Triple.ret fun t same => ⟨answered, same⟩
  | error errno =>
    apply Triple.exit
    rintro _ rfl
    apply Effect.still
    refine (After.refl host s).call c _ (Calm.none.more c ?_)
    rintro - ⟨a, granted⟩
    rw [answered] at granted
    exact nomatch granted

theorem bindInode_after {b : State σ} {table : Table} (rel : Bytes) :
    Triple (After host b table) (bindInode rel)
      (fun nodeid t => nodeid = (table.bindInode rel).1 ∧ After host b (table.bindInode rel).2 t)
      (fun e _ => e = .trap) := by
  apply Triple.learn (Triple.get (Q := fun u t => u.table = table ∧ After host b table t)
    fun _ after => ⟨after.table, after⟩)
  rintro u rfl
  apply Triple.andThen (M := fun _ => After host b u.table)
  · exact Triple.check (fun _ _ after => after) fun _ _ _ => rfl
  intro _
  apply Triple.andThen (M := fun _ => After host b (u.table.bindInode rel).2)
  · exact Triple.set _ fun t after => after.retable _
  · exact fun _ => Triple.ret fun _ after => ⟨rfl, after⟩

theorem attrOf_after {b : State σ} {table : Table} (st : Stat) (nodeid : Nat) :
    Triple (After host b table) (attrOf st nodeid)
      (fun attr t => attr.ino = nodeid ∧ After host b table t) (fun e _ => e = .trap) :=
  Triple.found (fun _ made _ after => ⟨statToAttr_ino made, after⟩) fun _ _ _ => rfl

theorem Halted.trapped {e : Exit} (trap : e = .trap) : Halted host s request e t :=
  trap ▸ trivial

theorem entry_after {b : State σ} {table : Table} (rel : Bytes) (st : Stat) :
    Triple (After host b table) (do
      let nodeid ← bindInode rel
      let attr ← attrOf st nodeid
      pure (Reply.entry attr))
      (fun reply t => reply.issued.toList = [(table.bindInode rel).1] ∧
        After host b (table.bindInode rel).2 t) (fun e _ => e = .trap) := by
  apply (bindInode_after rel).learn
  rintro _ rfl
  apply (attrOf_after st _).learn
  intro attr ino
  exact Triple.ret fun t after => ⟨congrArg (fun n => [n]) ino, after⟩

theorem granted_then {A : Type} {c : Call} {m : Handler σ A} {Q : A → State σ → Prop}
    {R : Exit → State σ → Prop} (rest : Triple (After host (s.called host c) s.table) m Q R) :
    Triple (· = s.called host c) m Q R := by
  rintro _ rfl
  exact rest _ (After.refl host (s.called host c))

theorem onLookup_effect (names : request.names = [(parent, decodeName body)]) :
    Effects host s request (onLookup host parent body) := by
  apply (childPath_exact parent _).learn
  rintro ⟨rel, abs⟩ child
  apply (sys_exact (.lstat abs)).learn
  intro st found
  refine granted_then ((entry_after rel st).weaken (fun _ after => after) ?_ ?_)
  · rintro reply t ⟨issued, after⟩
    rw [issued]
    exact .looked ⟨parent, _, names, child⟩ ⟨st, found⟩ after
  · exact fun e t trap => Halted.trapped trap

theorem made_ends {rel abs : Bytes} {c : Call} {e : Exit} (names : Names s request rel abs)
    (creates : Creates abs c) (granted : Granted host s.host c)
    (after : After host (s.called host c) s.table t) : Halted host s request e t := by
  cases e with
  | error errno => exact .made names creates granted after
  | trap => trivial

theorem lstat_entry_effect {rel abs : Bytes} {c : Call} (names : Names s request rel abs)
    (creates : Creates abs c) (granted : Granted host s.host c) :
    Triple (After host (s.called host c) s.table) (do
      let st : Stat ← sys host (.lstat abs)
      let nodeid ← bindInode rel
      let attr ← attrOf st nodeid
      pure (Reply.entry attr))
      (fun reply t => Effect host s request reply.issued.toList t) (Halted host s request) := by
  apply Triple.andThen (M := fun _ => After host (s.called host c) s.table)
  · exact (sys_after _ rfl).weaken (fun _ after => after) (fun _ _ after => after)
      fun _ _ after => made_ends names creates granted after
  intro st
  refine (entry_after rel st).weaken (fun _ after => after) ?_ fun e t trap => Halted.trapped trap
  rintro reply t ⟨issued, after⟩
  rw [issued]
  exact .entered names creates granted after

theorem onMkdir_effect (names : request.names = [(parent, decodeName (body.drop 8))]) :
    Effects host s request (onMkdir host parent body) := by
  apply requireWritable_exact.learn
  intro _ _
  apply (ensure_exact _ _).learn
  intro _ _
  apply (childPath_exact parent _).learn
  rintro ⟨rel, abs⟩ child
  apply (sys_exact (.mkdir abs _)).learn
  intro _ granted
  exact granted_then (lstat_entry_effect ⟨parent, _, names, child⟩ (.dir _) ⟨_, granted⟩)

theorem onSymlink_effect
    (names : request.names = (renameNames body).toList.map fun names => (parent, names.1)) :
    Effects host s request (onSymlink host parent body) := by
  apply requireWritable_exact.learn
  intro _ _
  apply (need_exact _ _).learn
  rintro ⟨name, target⟩ parsed
  rw [parsed] at names
  apply (ensure_exact _ _).learn
  intro _ _
  apply (ensure_exact _ _).learn
  intro _ _
  apply (childPath_exact parent name).learn
  rintro ⟨rel, abs⟩ child
  apply (ensure_exact _ _).learn
  intro _ _
  apply (sys_exact (.symlink target abs)).learn
  intro _ granted
  exact granted_then (lstat_entry_effect ⟨parent, name, names, child⟩ (.symlink _) ⟨_, granted⟩)

theorem onCreate_effect (names : request.names = [(parent, decodeName (body.drop fuseCreateInSize))]) :
    Effects host s request (onCreate host parent body) := by
  apply requireWritable_exact.learn
  intro _ _
  apply (ensure_exact _ _).learn
  intro _ _
  apply (childPath_exact parent _).learn
  rintro ⟨rel, abs⟩ child
  let flags : HostFlags := { linuxOpenToHost (u32At body 0) with creates := true }
  let c := Call.open_ abs flags (u32At body 4 &&& 0o7777)
  apply (sys_exact c).learn
  intro fd granted
  have named : Names s request rel abs := ⟨parent, _, names, child⟩
  have creates : Creates abs c := .file _ _ rfl
  apply granted_then
  apply Triple.andThen (M := fun _ => After host (s.called host c) s.table)
  · exact (attempt_after _ rfl).weaken (fun _ after => after) (fun _ _ after => after)
      fun _ _ after => made_ends named creates ⟨fd, granted⟩ after
  intro answer
  cases answer with
  | error errno =>
    apply Triple.andThen (M := fun _ => After host (s.called host c) s.table)
    · exact (attempt_after _ rfl).weaken (fun _ after => after) (fun _ _ after => after)
        fun _ _ after => made_ends named creates ⟨fd, granted⟩ after
    · exact fun _ => Triple.exit fun _ after => made_ends named creates ⟨fd, granted⟩ after
  | ok st =>
    apply ((bindInode_after rel).weaken (fun _ after => after) (fun _ _ done => done)
      fun _ _ trap => Halted.trapped trap).learn
    rintro _ rfl
    apply Triple.andThen (M := fun _ => After host (s.called host c) (s.table.bindInode rel).2)
    · apply Triple.andThen (Triple.get (Q :=
        fun _ => After host (s.called host c) (s.table.bindInode rel).2)
        fun _ after => after)
      intro u
      apply Triple.andThen (M := fun _ => After host (s.called host c) (s.table.bindInode rel).2)
      · exact Triple.check (fun _ _ after => after) fun _ _ _ => trivial
      intro _
      apply Triple.andThen (M := fun _ => After host (s.called host c) (s.table.bindInode rel).2)
      · exact Triple.set _ fun t after => after.hold rfl rfl rfl rfl
      · exact fun _ => Triple.ret fun _ after => after
    intro fh
    apply ((attrOf_after st _).weaken (fun _ after => after) (fun _ _ done => done)
      fun _ _ trap => Halted.trapped trap).learn
    intro attr ino
    apply Triple.ret
    intro t after
    rw [show (Reply.created attr fh).issued.toList = [attr.ino] from rfl, ino]
    exact .entered named creates ⟨fd, granted⟩ after

theorem unlinkOrRmdir_effect (isRmdir : Bool) (names : request.names = [(parent, decodeName body)]) :
    Effects host s request (unlinkOrRmdir host parent body isRmdir) := by
  apply requireWritable_exact.learn
  intro _ _
  apply (childPath_exact parent _).learn
  rintro ⟨rel, abs⟩ child
  have removed : ∀ c, Removes abs c → Granted host s.host c → Triple (· = s.called host c)
      (do
        change fun s => s.setTable (s.table.unindex rel)
        pure Reply.ack : Handler σ Reply)
      (fun reply t => Effect host s request reply.issued.toList t) (Halted host s request) := by
    intro c removes granted
    apply Triple.andThen (M := fun _ => After host (s.called host c) (s.table.unindex rel))
    · apply Triple.set
      rintro _ rfl
      exact (After.refl host (s.called host c)).retable _
    · exact fun _ => Triple.ret fun t after => .removed ⟨parent, _, names, child⟩ removes granted after
  apply Triple.branch
  · intro _
    apply (sys_exact (.rmdir abs)).learn
    exact fun a granted => removed _ .dir ⟨a, granted⟩
  · intro _
    apply (sys_exact (.unlink abs)).learn
    exact fun a granted => removed _ .file ⟨a, granted⟩

theorem linkedOnly_ends {oldAbs newAbs : Bytes} {e : Exit}
    (op : Op.ofCode (readInHeader request.frame).opcode = .link)
    (after : After host (s.called host (.link oldAbs newAbs)) s.table t) : Halted host s request e t := by
  cases e with
  | error errno => exact .linkedOnly op after
  | trap => trivial

theorem onLink_effect (op : Op.ofCode (readInHeader request.frame).opcode = .link) :
    Effects host s request (onLink host (readInHeader request.frame).nodeid (bodyOf request.frame)) := by
  apply requireWritable_exact.learn
  intro _ writable
  apply (ensure_exact _ _).learn
  intro _ _
  apply (ensure_exact _ _).learn
  intro _ valid
  apply (requireInode_exact _).learn
  intro old found
  apply (requireInode_exact _).learn
  intro newParent parentFound
  apply (absPath_exact _).learn
  intro oldAbs oldBuilt
  apply (absPath_exact _).learn
  intro newAbs newBuilt
  apply (sys_exact (.link oldAbs newAbs)).learn
  intro _ granted
  let b := s.called host (.link oldAbs newAbs)
  apply (sys_answer b (.lstat newAbs) rfl fun _ _ after => linkedOnly_ends op after).learn
  intro st answered
  have links : Links host s request (u64At (bodyOf request.frame) 0)
      (joinRel newParent.relPath (decodeName ((bodyOf request.frame).drop 8))) := by
    have names : request.names =
        [((readInHeader request.frame).nodeid, decodeName ((bodyOf request.frame).drop 8))] := by
      simp only [Request.names, op]
    exact ⟨op, writable, rfl, old, oldAbs, newAbs, found, oldBuilt,
      ⟨_, _, names, valid, ⟨newParent, parentFound, rfl⟩, newBuilt⟩, ⟨_, granted⟩, ⟨st, answered⟩⟩
  apply Triple.learn (Triple.get (Q := fun u t => u.table = s.table ∧ After host b s.table t)
    fun _ after => ⟨after.table, after⟩)
  intro u same
  rw [same]
  apply Triple.learn (Triple.found (Q := fun table t => s.table.retarget _ _ = some table ∧
    After host b s.table t) (fun table done _ after => ⟨done, after⟩)
    fun _ _ after => linkedOnly_ends op after)
  intro table done
  apply Triple.andThen (M := fun _ => After host b table)
  · exact Triple.set _ fun t after => after.retable table
  intro _
  apply ((attrOf_after st _).weaken (fun _ after => after) (fun _ _ done => done)
    fun _ _ trap => Halted.trapped trap).learn
  intro attr ino
  apply Triple.ret
  intro t after
  rw [show (Reply.entry attr).issued.toList = [attr.ino] from rfl, ino]
  exact .linked links done after

theorem names_rename {oldName newName : Bytes}
    (op : Op.ofCode (readInHeader request.frame).opcode = .rename)
    (parsed : renameNames ((bodyOf request.frame).drop 8) = some (oldName, newName)) :
    request.names = [((readInHeader request.frame).nodeid, oldName),
    (u64At (bodyOf request.frame) 0, newName)] := by
  simp only [Request.names, op, parsed]
  rfl

theorem onRename_effect (op : Op.ofCode (readInHeader request.frame).opcode = .rename) :
    Effects host s request
      (onRename host (readInHeader request.frame).nodeid (bodyOf request.frame) request.order) := by
  apply requireWritable_exact.learn
  intro _ writable
  apply (ensure_exact _ _).learn
  intro _ _
  apply (need_exact _ _).learn
  rintro ⟨oldName, newName⟩ parsed
  apply (ensure_exact _ _).learn
  intro _ oldValid
  apply (ensure_exact _ _).learn
  intro _ newValid
  apply (requireInode_exact _).learn
  intro oldParent oldFound
  apply (requireInode_exact _).learn
  intro newParent newFound
  apply (absPath_exact _).learn
  intro oldAbs oldBuilt
  apply (absPath_exact _).learn
  intro newAbs newBuilt
  apply (sys_exact (.rename oldAbs newAbs)).learn
  intro _ granted
  let b := s.called host (.rename oldAbs newAbs)
  apply (attempt_answer (R := Halted host s request) b (.lstat newAbs) rfl).learn
  intro renamed answered
  have renames : Renames host s request (joinRel oldParent.relPath oldName)
      (joinRel newParent.relPath newName) oldAbs newAbs (renamedIsDir renamed) := by
    refine ⟨writable, ⟨_, _, _, _, names_rename op parsed, ⟨oldValid, ⟨_, oldFound, rfl⟩, oldBuilt⟩,
      ⟨newValid, ⟨_, newFound, rfl⟩, newBuilt⟩⟩, ⟨_, granted⟩, ?_⟩
    exact congrArg renamedIsDir answered.symm
  apply Triple.andThen (M := fun _ => After host b s.table)
  · exact Triple.check (fun _ _ after => after) fun _ _ _ => trivial
  intro _
  apply Triple.learn (Triple.get (Q := fun u t => u.table = s.table ∧ After host b s.table t)
    fun _ after => ⟨after.table, after⟩)
  intro u same
  rw [same]
  apply Triple.learn (Triple.found (Q := fun table t => s.table.updateBoundInodesAfterRename _ _ _ _ =
    some table ∧ After host b s.table t) (R := Halted host s request)
    (fun table done _ after => ⟨done, after⟩) fun stale t after =>
      show Halted host s request (.error .io) t from .renamedStale renames stale after)
  intro table done
  apply Triple.andThen (M := fun _ => After host b table)
  · exact Triple.set _ fun t after => after.retable table
  · exact fun _ => Triple.ret fun t after => .renamed renames done after

theorem forgetAll_exact (records : List (Nat × Nat)) : ∀ b : State σ,
    forEach (fun record => decref record.1 record.2) records b = (.ok ⟨⟩, b.forgetAll records) := by
  induction records with
  | nil => exact fun b => rfl
  | cons record rest ih => exact fun b => ih _

theorem forgot_effects (handler : Handler σ Reply)
    (ran : handler s = (.ok .none, s.forgetAll request.forgets)) : Effects host s request handler := by
  intro t here
  have done : Effect host s request [] (s.forgetAll request.forgets) := .forgot
  rw [here, ran]
  exact done

theorem onForget_effect (op : Op.ofCode (readInHeader request.frame).opcode = .forget) :
    Effects host s request (onForget (readInHeader request.frame).nodeid (bodyOf request.frame)) := by
  apply forgot_effects
  by_cases short : (bodyOf request.frame).length < 8
  · simp only [onForget, Request.forgets, op, if_pos short]
    rfl
  · simp only [onForget, Request.forgets, op, if_neg short]
    rfl

theorem onBatchForget_effect (op : Op.ofCode (readInHeader request.frame).opcode = .batchForget) :
    Effects host s request (onBatchForget (bodyOf request.frame)) := by
  apply forgot_effects
  by_cases short : (bodyOf request.frame).length < 8
  · simp only [onBatchForget, Request.forgets, op, if_pos short]
    rfl
  · simp only [onBatchForget, Request.forgets, op, if_neg short, bind_ok (forgetAll_exact _ s)]
    rfl

theorem handle_effect : Effects host s request
    (handle host request.order (readInHeader request.frame) (bodyOf request.frame)) := by
  unfold handle
  split
  · exact (onInit_still _).effects
  · exact (Still.ret _ rfl).effects
  · exact (Still.ret _ rfl).effects
  · exact onForget_effect ‹_›
  · exact onBatchForget_effect ‹_›
  · rename_i op
    exact onLookup_effect (by simp only [Request.names, op])
  · exact (onGetattr_still _).effects
  · exact (onReadlink_still _).effects
  · rename_i op
    exact onCreate_effect (by simp only [Request.names, op])
  · exact (onWrite_still _).effects
  · exact (Still.andThen (Keeps.check _ _) fun _ => releaseHandle_still _).effects
  · exact (onOpen_still _ _).effects
  · exact (onRead_still _).effects
  · exact (onOpendir_still _).effects
  · exact (onReaddir_still _).effects
  · exact (Still.andThen (Keeps.check _ _) fun _ => releaseHandle_still _).effects
  · rename_i op
    exact onMkdir_effect (by simp only [Request.names, op])
  · rename_i op
    exact unlinkOrRmdir_effect false (by simp only [Request.names, op])
  · rename_i op
    exact unlinkOrRmdir_effect true (by simp only [Request.names, op])
  · exact onRename_effect ‹_›
  · exact onLink_effect ‹_›
  · rename_i op
    exact onSymlink_effect (by simp only [Request.names, op])
  · exact (onSetattr_still _ _).effects
  · exact (Still.ret _ rfl).effects
  iterate 4 exact (Still.ret _ rfl).effects
  · exact Still.effects (Triple.exit fun _ after => after)

end Exact

/-- A request has one effect, then its reply issues what the effect lists; or it traps. -/
theorem serve_effect (host : Host σ) (s : State σ) (request : Request) :
    (∃ reply t, Effect host s request reply.issued.toList t ∧
      s.serve host request = t.note (.reply reply)) ∨ (s.serve host request).trapped = true := by
  have served := (handle_effect : Effects host s request _) s rfl
  unfold State.serve
  match ran : handle host request.order (readInHeader request.frame) (bodyOf request.frame) s with
  | (.ok reply, t) =>
    rw [ran] at served
    exact .inl ⟨reply, t, served, rfl⟩
  | (.error (.error errno), t) =>
    rw [ran] at served
    exact .inl ⟨.error errno, t, served, rfl⟩
  | (.error .trap, t) => exact .inr rfl

end Machinen.Mount
