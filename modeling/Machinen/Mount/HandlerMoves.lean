import Machinen.Mount.Moves

/-! Every handler is a sequence of moves, and what its reply issues is what its moves
count. A handler that fails has issued nothing. -/
namespace Machinen.Mount

open Prog

variable {σ : Type}

/-- The moves from `s` so far, with what they issued. -/
structure Did (G : Bytes → Prop) (T : Prop) (s : State σ) (issued : List Nat) (t : State σ) : Prop where
  moves : Moves G T s issued t
  within : t.table.Within G

def Ended (G : Bytes → Prop) (T : Prop) (s : State σ) : Exit → State σ → Prop
  | .error _, t => Did G T s [] t
  | .trap, t => ∃ issued, Did G T s issued t

section Steps

variable {G : Bytes → Prop} {T : Prop} {s : State σ} (host : Host σ) {issued : List Nat}

theorem Did.move (closed : Closed G) {t u : State σ} {more : List Nat} (did : Did G T s issued t)
    (move : Move G T t more u) : Did G T s (issued ++ more) u :=
  ⟨did.moves.more move, move.within closed did.within⟩

theorem Did.quietly (closed : Closed G) {t u : State σ} (did : Did G T s issued t)
    (move : Move G T t [] u) : Did G T s issued u :=
  ⟨did.moves.quiet move, move.within closed did.within⟩

theorem absPath_moves (rel : Bytes) : Triple (Did G T s []) (absPath rel)
    (fun abs t => buildAbsPath s.rootAbs rel = some abs ∧ Did G T s [] t) (Ended G T s) := by
  apply Triple.learn (Triple.get (Q := fun u t => u.rootAbs = s.rootAbs ∧ Did G T s [] t)
    fun t did => ⟨did.moves.config.1, did⟩)
  intro u root
  apply Triple.found
  · intro abs built t did
    exact ⟨root ▸ built, did⟩
  · exact fun _ _ did => did

theorem requireInode_moves (nodeid : Nat) : Triple (Did G T s []) (requireInode nodeid)
    (fun entry t => G entry.relPath ∧ Did G T s [] t) (Ended G T s) := by
  apply Triple.learn (Triple.get (Q := fun u t => u.table.Within G ∧ Did G T s [] t)
    fun t did => ⟨did.within, did⟩)
  intro u within
  apply Triple.found
  · exact fun entry looked t did => ⟨within nodeid entry looked, did⟩
  · exact fun _ _ did => did

theorem requireWritable_moves : Triple (Did G T s []) requireWritable
    (fun _ t => s.modeRw = true ∧ Did G T s [] t) (Ended G T s) := by
  apply Triple.learn (Triple.get (Q := fun u t => u.modeRw = s.modeRw ∧ Did G T s [] t)
    fun t did => ⟨did.moves.config.2, did⟩)
  intro u mode
  apply Triple.check
  · exact fun writable t did => ⟨mode ▸ writable, did⟩
  · exact fun _ _ did => did

theorem ensure_moves (condition : Prop) [Decidable condition] (errno : Errno) :
    Triple (Did G T s []) (ensure condition (.error errno))
      (fun _ t => condition ∧ Did G T s [] t) (Ended G T s) :=
  Triple.check (fun holds _ did => ⟨holds, did⟩) fun _ _ did => did

theorem inodePath_moves (nodeid : Nat) : Triple (Did G T s []) (inodePath nodeid)
    (fun abs t => (∃ rel, G rel ∧ buildAbsPath s.rootAbs rel = some abs) ∧ Did G T s [] t)
    (Ended G T s) := by
  apply (requireInode_moves nodeid).learn
  intro entry good
  exact (absPath_moves entry.relPath).post fun _ _ done => ⟨⟨_, good, done.1⟩, done.2⟩

theorem validName_nonempty {name : Bytes} (valid : validateName name = true) : name ≠ [] := by
  intro empty
  simp [validateName, empty] at valid

theorem joinRel_nonempty {parent name : Bytes} (valid : validateName name = true) :
    joinRel parent name ≠ [] := by
  unfold joinRel
  split
  · exact validName_nonempty valid
  · simp

/-- A path that childPath returns. -/
structure ChildOf (G : Bytes → Prop) (s : State σ) (paths : Bytes × Bytes) : Prop where
  good : G paths.1
  named : paths.1 ≠ []
  built : buildAbsPath s.rootAbs paths.1 = some paths.2

theorem childPath_moves (closed : Closed G) (parent : Nat) (name : Bytes) :
    Triple (Did G T s []) (childPath parent name)
      (fun paths t => ChildOf G s paths ∧ Did G T s [] t) (Ended G T s) := by
  apply (ensure_moves _ _).learn
  intro _ valid
  apply (requireInode_moves parent).learn
  intro entry good
  apply (absPath_moves (joinRel entry.relPath name)).learn
  intro abs built
  apply Triple.ret
  intro t did
  exact ⟨⟨closed.child _ _ good valid, joinRel_nonempty valid, built⟩, did⟩

/-- A call whose paths come from the table and that the mount's mode allows. -/
structure Proper (G : Bytes → Prop) (T : Prop) (s : State σ) (c : Call) : Prop where
  paths : ∀ path ∈ c.paths, ∃ rel, G rel ∧ buildAbsPath s.rootAbs rel = some path
  may : c.mutates = true → s.modeRw = true ∨ T

theorem Proper.one {path : Bytes} {c : Call} (only : c.paths = [path])
    (built : ∃ rel, G rel ∧ buildAbsPath s.rootAbs rel = some path)
    (may : c.mutates = true → s.modeRw = true ∨ T) : Proper G T s c := by
  refine ⟨fun other listed => ?_, may⟩
  rw [only, List.mem_singleton] at listed
  exact listed ▸ built

theorem Proper.pathless {c : Call} (none : c.paths = [])
    (may : c.mutates = true → s.modeRw = true ∨ T) : Proper G T s c :=
  ⟨fun _ listed => absurd (none ▸ listed) List.not_mem_nil, may⟩

theorem attempt_moves (closed : Closed G) (c : Call) (proper : Proper G T s c) :
    Triple (Did G T s issued) (attempt host c) (fun _ => Did G T s issued) (Ended G T s) := by
  apply Triple.andThen (Triple.get (Q := fun _ => Did G T s issued) fun _ did => did)
  intro u
  apply Triple.andThen (M := fun _ => Did G T s issued)
  · apply Triple.set
    intro t did
    obtain ⟨root, mode⟩ := did.moves.config
    apply did.quietly closed
    apply Move.call
    · rw [root]
      exact proper.paths
    · rw [mode]
      exact proper.may
  · exact fun _ => Triple.ret fun _ did => did

theorem sys_moves (closed : Closed G) (c : Call) (proper : Proper G T s c) :
    Triple (Did G T s []) (sys host c) (fun _ => Did G T s []) (Ended G T s) := by
  apply (attempt_moves host closed c proper).andThen
  intro answer
  cases answer with
  | ok a => exact Triple.ret fun _ did => did
  | error e => exact Triple.exit fun _ did => did

theorem bindInode_moves (closed : Closed G) (rel : Bytes) (good : G rel) (named : rel ≠ []) :
    Triple (Did G T s []) (bindInode rel) (fun nodeid => Did G T s [nodeid]) (Ended G T s) := by
  apply Triple.andThen (Triple.get (Q := fun u t => t = u ∧ Did G T s [] u) fun _ did => ⟨rfl, did⟩)
  intro u
  apply Triple.andThen (Triple.check
    (Q := fun _ t => (u.table.bindInode rel).2.nextInode < 2 ^ 64 ∧ t = u ∧ Did G T s [] u)
    (fun room _ did => ⟨room, did⟩) fun _ _ did => ⟨[], did.1 ▸ did.2⟩)
  intro _
  apply Triple.given
  intro room
  apply Triple.andThen (M := fun _ => Did G T s [(u.table.bindInode rel).1])
  · apply Triple.set
    intro t did
    obtain ⟨same, did⟩ := did
    subst same
    exact did.move closed (.bind t rel good named room)
  · exact fun _ => Triple.ret fun _ did => did

theorem newHandle_moves (closed : Closed G) (entry : OpenEntry)
    (reading : ∀ file nodeid flags, entry = .file (some file) nodeid flags →
      file.flags.writes = true → s.modeRw = true)
    (listing : ∀ nodeid entries, entry = .dir nodeid entries → Packed entries) :
    Triple (Did G T s issued) (newHandle entry) (fun _ => Did G T s issued) (Ended G T s) := by
  apply Triple.andThen (Triple.get (Q := fun _ => Did G T s issued) fun _ did => did)
  intro u
  apply Triple.andThen (M := fun _ => Did G T s issued)
  · exact Triple.check (fun _ _ did => did) fun _ _ did => ⟨issued, did⟩
  intro _
  apply Triple.andThen (M := fun _ => Did G T s issued)
  · apply Triple.set
    intro t did
    apply did.quietly closed
    refine Move.put t entry ?_ listing
    rw [did.moves.config.2]
    exact reading
  · exact fun _ => Triple.ret fun _ did => did

theorem statToAttr_ino {st : Stat} {nodeid : Nat} {attr : Attr}
    (made : statToAttr st nodeid = some attr) : attr.ino = nodeid := by
  simp only [statToAttr, Option.bind_eq_bind, Option.bind_eq_some_iff, Option.some.injEq] at made
  obtain ⟨_, -, _, -, _, -, _, -, _, -, _, -, _, -, _, -, _, -, _, -, _, -, same⟩ := made
  exact same ▸ rfl

theorem attrOf_moves (st : Stat) (nodeid : Nat) :
    Triple (Did G T s issued) (attrOf st nodeid)
      (fun attr t => attr.ino = nodeid ∧ Did G T s issued t) (Ended G T s) :=
  Triple.found (fun _ made _ did => ⟨statToAttr_ino made, did⟩) fun _ _ did => ⟨issued, did⟩

theorem openFile_moves (fh : Nat) :
    Triple (Did G T s []) (openFile fh) (fun _ => Did G T s []) (Ended G T s) := by
  apply Triple.andThen (Triple.get (Q := fun _ => Did G T s []) fun _ did => did)
  intro u
  split
  · exact Triple.ret fun _ did => did
  · exact Triple.exit fun _ did => did

theorem decref_moves (closed : Closed G) (nodeid n : Nat) :
    Triple (Did G T s []) (decref nodeid n) (fun _ => Did G T s []) (Ended G T s) :=
  Triple.set _ fun t did => did.quietly closed (.forget t nodeid n)

/-- The end of a handler that gives a nodeid one more lookup. -/
theorem entry_moves (closed : Closed G) (rel : Bytes) (good : G rel) (named : rel ≠ []) (st : Stat) :
    Triple (Did G T s []) (do
      let nodeid ← bindInode rel
      let attr ← attrOf st nodeid
      pure (Reply.entry attr))
      (fun reply => Did G T s reply.issued.toList) (Ended G T s) := by
  apply (bindInode_moves closed rel good named).andThen
  intro nodeid
  apply (attrOf_moves st nodeid).learn
  intro attr ino
  apply Triple.ret
  intro t did
  simpa [Reply.issued, ino] using did

end Steps

section Handlers

variable {G : Bytes → Prop} {T : Prop} {s : State σ} (host : Host σ) (closed : Closed G)

/-- The reply of a handler issues what its moves counted. -/
def Serves (G : Bytes → Prop) (T : Prop) (s : State σ) (handler : Handler σ Reply) : Prop :=
  Triple (Did G T s []) handler (fun reply => Did G T s reply.issued.toList) (Ended G T s)

theorem ret_serves (reply : Reply) (silent : reply.issued = none) : Serves G T s (pure reply) := by
  apply Triple.ret
  intro t did
  rwa [silent]

theorem onInit_serves (body : Bytes) : Serves G T s (onInit body) := by
  exact (ensure_moves _ _).learn fun _ _ => ret_serves _ rfl

include closed

theorem onForget_serves (nodeid : Nat) (body : Bytes) : Serves G T s (onForget nodeid body) := by
  apply Triple.branch
  · exact fun _ => ret_serves _ rfl
  · exact fun _ => (decref_moves closed nodeid _).andThen fun _ => ret_serves _ rfl

theorem onBatchForget_serves (body : Bytes) : Serves G T s (onBatchForget body) := by
  apply Triple.branch
  · exact fun _ => ret_serves _ rfl
  · intro _
    apply Triple.andThen (M := fun _ => Did G T s [])
    · exact Triple.loop (fun (record : Nat × Nat) => decref_moves closed record.1 record.2) _
    · exact fun _ => ret_serves _ rfl

theorem onLookup_serves (parent : Nat) (body : Bytes) : Serves G T s (onLookup host parent body) := by
  apply (childPath_moves closed parent _).learn
  intro paths child
  apply (sys_moves host closed (.lstat paths.2)
    (Proper.one rfl ⟨_, child.good, child.built⟩ nofun)).andThen
  exact fun st => entry_moves closed _ child.good child.named st

theorem onGetattr_serves (nodeid : Nat) : Serves G T s (onGetattr host nodeid) := by
  apply (inodePath_moves nodeid).learn
  intro abs from_
  apply (sys_moves host closed (.lstat abs) (Proper.one rfl from_ nofun)).andThen
  intro st
  exact (attrOf_moves st nodeid).learn fun _ _ => ret_serves _ rfl

theorem onReadlink_serves (nodeid : Nat) : Serves G T s (onReadlink host nodeid) := by
  apply (inodePath_moves nodeid).learn
  intro abs from_
  apply (sys_moves host closed (.readlink abs) (Proper.one rfl from_ nofun)).andThen
  exact fun _ => ret_serves _ rfl

theorem onCreate_serves (parent : Nat) (body : Bytes) : Serves G T s (onCreate host parent body) := by
  apply requireWritable_moves.learn
  intro _ writable
  apply (ensure_moves _ _).learn
  intro _ _
  apply (childPath_moves closed parent _).learn
  intro paths child
  apply (sys_moves host closed _
    (Proper.one rfl ⟨_, child.good, child.built⟩ fun _ => .inl writable)).andThen
  intro fd
  apply (attempt_moves host closed (.fstat fd) (Proper.pathless rfl nofun)).andThen
  intro answer
  cases answer with
  | error errno =>
    apply (attempt_moves host closed (.close fd) (Proper.pathless rfl nofun)).andThen
    exact fun _ => Triple.exit fun _ did => did
  | ok st =>
    apply (bindInode_moves closed _ child.good child.named).andThen
    intro nodeid
    apply (newHandle_moves closed _ (fun _ _ _ _ _ => writable) (by nofun)).andThen
    intro fh
    apply (attrOf_moves st nodeid).learn
    intro attr ino
    apply Triple.ret
    intro t did
    simpa [Reply.issued, ino] using did

theorem pwriteAll_moves (writable : s.modeRw = true) (fd : Nat) (data : Bytes) (offset rounds : Nat) :
    ∀ done, Triple (Did G T s []) (pwriteAll host fd data offset done rounds)
      (fun _ => Did G T s []) (Ended G T s) := by
  induction rounds with
  | zero => exact fun done => Triple.ret fun _ did => did
  | succ rounds ih =>
    intro done
    apply Triple.branch
    · exact fun _ => Triple.ret fun _ did => did
    · intro _
      apply Triple.andThen (M := fun _ => Did G T s [])
      · exact Triple.check (fun _ _ did => did) fun _ _ did => ⟨[], did⟩
      intro _
      apply (sys_moves host closed _ (Proper.pathless rfl fun _ => .inl writable)).andThen
      intro (n : Nat)
      apply Triple.branch
      · exact fun _ => Triple.ret fun _ did => did
      · exact fun _ => ih _

theorem onWrite_serves (body : Bytes) : Serves G T s (onWrite host body) := by
  apply requireWritable_moves.learn
  intro _ writable
  apply (ensure_moves _ _).learn
  intro _ _
  apply (ensure_moves _ _).learn
  intro _ _
  apply (openFile_moves _).andThen
  intro file
  apply (pwriteAll_moves host closed writable _ _ _ _ 0).andThen
  intro written
  apply Triple.andThen (M := fun _ => Did G T s [])
  · exact Triple.check (fun _ _ did => did) fun _ _ did => ⟨[], did⟩
  · exact fun _ => ret_serves _ rfl

/-- An OPEN that truncates without asking to write. -/
def TruncatingOpen (hdr : InHeader) (body : Bytes) : Prop :=
  Op.ofCode hdr.opcode = .open_ ∧ 8 ≤ body.length ∧
    (linuxOpenToHost (u32At body 0)).writes = false ∧ (linuxOpenToHost (u32At body 0)).truncates = true

omit closed in
theorem writes_iff (flags : Nat) : (linuxOpenToHost flags).writes = true ↔
    flags &&& 3 = linuxOWronly ∨ flags &&& 3 = linuxORdwr := by
  simp [linuxOpenToHost]

theorem onOpen_serves (nodeid : Nat) (body : Bytes)
    (truncates : 8 ≤ body.length → (linuxOpenToHost (u32At body 0)).writes = false →
      (linuxOpenToHost (u32At body 0)).truncates = true → T) :
    Serves G T s (onOpen host nodeid body) := by
  apply (ensure_moves _ _).learn
  intro _ long
  apply Triple.learn (Triple.get (Q := fun u t => u.modeRw = s.modeRw ∧ Did G T s [] t)
    fun t did => ⟨did.moves.config.2, did⟩)
  intro u mode
  apply (ensure_moves _ _).learn
  intro _ gate
  have writable : (linuxOpenToHost (u32At body 0)).writes = true → s.modeRw = true := by
    intro writes
    rw [← mode]
    by_contra readOnly
    exact gate ⟨(writes_iff _).mp writes, Bool.eq_false_iff.mpr readOnly⟩
  apply (inodePath_moves nodeid).learn
  intro abs from_
  have proper : Proper G T s (.open_ abs (linuxOpenToHost (u32At body 0)) 0) := by
    apply Proper.one rfl from_
    intro mutates
    cases writes : (linuxOpenToHost (u32At body 0)).writes with
    | true => exact .inl (writable writes)
    | false =>
      right
      apply truncates long writes
      simpa [Call.mutates, linuxOpenToHost] using mutates
  apply (sys_moves host closed _ proper).andThen
  intro fd
  apply Triple.andThen (newHandle_moves closed _ ?_ (by nofun))
  · exact fun _ => ret_serves _ rfl
  · intro file _ _ same writes
    apply writable
    cases same
    exact writes

theorem onRead_serves (body : Bytes) : Serves G T s (onRead host body) := by
  apply (ensure_moves _ _).learn
  intro _ _
  apply (openFile_moves _).andThen
  intro file
  apply Triple.andThen (M := fun _ => Did G T s [])
  · exact Triple.check (fun _ _ did => did) fun _ _ did => ⟨[], did⟩
  intro _
  apply (sys_moves host closed (.pread file.fd _ _) (Proper.pathless rfl nofun)).andThen
  exact fun _ => ret_serves _ rfl

theorem onMkdir_serves (parent : Nat) (body : Bytes) : Serves G T s (onMkdir host parent body) := by
  apply requireWritable_moves.learn
  intro _ writable
  apply (ensure_moves _ _).learn
  intro _ _
  apply (childPath_moves closed parent _).learn
  intro paths child
  have from_ : ∃ rel, G rel ∧ buildAbsPath s.rootAbs rel = some paths.2 := ⟨_, child.good, child.built⟩
  apply (sys_moves host closed _ (Proper.one rfl from_ fun _ => .inl writable)).andThen
  intro _
  apply (sys_moves host closed (.lstat paths.2) (Proper.one rfl from_ nofun)).andThen
  exact fun st => entry_moves closed _ child.good child.named st

theorem unlinkOrRmdir_serves (parent : Nat) (body : Bytes) (isRmdir : Bool) :
    Serves G T s (unlinkOrRmdir host parent body isRmdir) := by
  apply requireWritable_moves.learn
  intro _ writable
  apply (childPath_moves closed parent _).learn
  intro paths child
  have from_ : ∃ rel, G rel ∧ buildAbsPath s.rootAbs rel = some paths.2 := ⟨_, child.good, child.built⟩
  have removed : Serves G T s (do
      change fun s => s.setTable (s.table.unindex paths.1)
      pure Reply.ack) := by
    apply Triple.andThen (M := fun _ => Did G T s [])
    · exact Triple.set _ fun t did => did.quietly closed (.unindex t _ child.named)
    · exact fun _ => ret_serves _ rfl
  apply Triple.branch
  · intro _
    exact (sys_moves host closed _ (Proper.one rfl from_ fun _ => .inl writable)).andThen fun _ => removed
  · intro _
    exact (sys_moves host closed _ (Proper.one rfl from_ fun _ => .inl writable)).andThen fun _ => removed

theorem onLink_serves (parent : Nat) (body : Bytes) : Serves G T s (onLink host parent body) := by
  apply requireWritable_moves.learn
  intro _ writable
  apply (ensure_moves _ _).learn
  intro _ _
  apply (ensure_moves _ _).learn
  intro _ valid
  apply (requireInode_moves _).learn
  intro old oldGood
  apply (requireInode_moves parent).learn
  intro newParent parentGood
  have good := closed.child _ _ parentGood valid
  have named : joinRel newParent.relPath (decodeName (body.drop 8)) ≠ [] := joinRel_nonempty valid
  apply (absPath_moves _).learn
  intro oldAbs oldBuilt
  apply (absPath_moves _).learn
  intro newAbs newBuilt
  have proper : Proper G T s (.link oldAbs newAbs) := by
    refine ⟨fun path listed => ?_, fun _ => .inl writable⟩
    rcases List.mem_pair.mp listed with first | second
    · exact ⟨_, oldGood, first ▸ oldBuilt⟩
    · exact ⟨_, good, second ▸ newBuilt⟩
  apply (sys_moves host closed _ proper).andThen
  intro _
  apply (sys_moves host closed (.lstat newAbs) (Proper.one rfl ⟨_, good, newBuilt⟩ nofun)).andThen
  intro st
  apply Triple.andThen (Triple.get (Q := fun u t => t = u ∧ Did G T s [] u) fun _ did => ⟨rfl, did⟩)
  intro u
  apply Triple.andThen (Triple.found (Q := fun table t => u.table.retarget (u64At body 0)
    (joinRel newParent.relPath (decodeName (body.drop 8))) = some table ∧ t = u ∧ Did G T s [] u)
    (fun table done _ did => ⟨done, did⟩) fun _ _ did => did.1 ▸ did.2)
  intro table
  apply Triple.given
  intro done
  apply Triple.andThen (M := fun _ => Did G T s [u64At body 0])
  · apply Triple.set
    intro t did
    obtain ⟨same, did⟩ := did
    subst same
    exact did.move closed (.retarget t _ _ table good named done)
  intro _
  apply (attrOf_moves st _).learn
  intro attr ino
  apply Triple.ret
  intro t did
  simpa [Reply.issued, ino] using did

theorem onRename_serves (parent : Nat) (body : Bytes) (order : List Nat) :
    Serves G T s (onRename host parent body order) := by
  apply requireWritable_moves.learn
  intro _ writable
  apply (ensure_moves _ _).learn
  intro _ _
  apply Triple.andThen (M := fun _ => Did G T s [])
  · exact Triple.found (fun _ _ _ did => did) fun _ _ did => did
  intro names
  apply (ensure_moves _ _).learn
  intro _ oldValid
  apply (ensure_moves _ _).learn
  intro _ newValid
  apply (requireInode_moves parent).learn
  intro oldParent oldParentGood
  apply (requireInode_moves _).learn
  intro newParent newParentGood
  have oldGood := closed.child _ _ oldParentGood oldValid
  have newGood := closed.child _ _ newParentGood newValid
  apply (absPath_moves _).learn
  intro oldAbs oldBuilt
  apply (absPath_moves _).learn
  intro newAbs newBuilt
  have proper : Proper G T s (.rename oldAbs newAbs) := by
    refine ⟨fun path listed => ?_, fun _ => .inl writable⟩
    rcases List.mem_pair.mp listed with first | second
    · exact ⟨_, oldGood, first ▸ oldBuilt⟩
    · exact ⟨_, newGood, second ▸ newBuilt⟩
  apply (sys_moves host closed _ proper).andThen
  intro _
  apply (attempt_moves host closed (.lstat newAbs) (Proper.one rfl ⟨_, newGood, newBuilt⟩ nofun)).andThen
  intro renamed
  apply Triple.andThen (M := fun _ => Did G T s [])
  · exact Triple.check (fun _ _ did => did) fun _ _ did => ⟨[], did⟩
  intro _
  apply Triple.andThen (Triple.get (Q := fun u t => t = u ∧ Did G T s [] u) fun _ did => ⟨rfl, did⟩)
  intro u
  apply Triple.andThen (Triple.found (Q := fun table t => u.table.updateBoundInodesAfterRename
    (joinRel oldParent.relPath names.1) (joinRel newParent.relPath names.2) _ order = some table ∧
      t = u ∧ Did G T s [] u) (fun table done _ did => ⟨done, did⟩) fun _ _ did => did.1 ▸ did.2)
  intro table
  apply Triple.given
  intro done
  apply Triple.andThen (M := fun _ => Did G T s [])
  · apply Triple.set
    intro t did
    obtain ⟨same, did⟩ := did
    subst same
    exact did.quietly closed (.rename t _ _ _ order table newGood
      ⟨joinRel_nonempty oldValid, joinRel_nonempty newValid⟩ done)
  · exact fun _ => ret_serves _ rfl

theorem onSymlink_serves (parent : Nat) (body : Bytes) : Serves G T s (onSymlink host parent body) := by
  apply requireWritable_moves.learn
  intro _ writable
  apply Triple.andThen (M := fun _ => Did G T s [])
  · exact Triple.found (fun _ _ _ did => did) fun _ _ did => did
  intro names
  apply (ensure_moves _ _).learn
  intro _ _
  apply (ensure_moves _ _).learn
  intro _ _
  apply (childPath_moves closed parent _).learn
  intro paths child
  apply (ensure_moves _ _).learn
  intro _ _
  have built : ∃ rel, G rel ∧ buildAbsPath s.rootAbs rel = some paths.2 := ⟨_, child.good, child.built⟩
  apply (sys_moves host closed (.symlink names.2 paths.2)
    (Proper.one rfl built fun _ => .inl writable)).andThen
  intro _
  apply (sys_moves host closed (.lstat paths.2) (Proper.one rfl built nofun)).andThen
  exact fun st => entry_moves closed _ child.good child.named st

omit closed in
theorem setattrFile_moves (valid : Nat) (body : Bytes) :
    Triple (Did G T s []) (setattrFile valid body) (fun _ => Did G T s []) (Ended G T s) := by
  apply Triple.branch
  · exact fun _ => Triple.ret fun _ did => did
  · exact fun _ => (openFile_moves _).andThen fun _ => Triple.ret fun _ did => did

/-- A SETATTR that would change something was let through on a writable mount. -/
theorem setattrSize_moves (valid : Nat) (body abs : Bytes)
    (built : ∃ rel, G rel ∧ buildAbsPath s.rootAbs rel = some abs)
    (writable : valid &&& fattrSize ≠ 0 → s.modeRw = true) :
    Triple (Did G T s []) (setattrSize host valid body abs) (fun _ => Did G T s []) (Ended G T s) := by
  apply Triple.branch
  · exact fun _ => Triple.ret fun _ did => did
  intro asked
  apply (ensure_moves _ _).learn
  intro _ _
  apply (ensure_moves _ _).learn
  intro _ _
  apply (setattrFile_moves valid body).andThen
  intro file
  cases file with
  | some file =>
    apply (sys_moves host closed (.ftruncate file.fd _)
      (Proper.pathless rfl fun _ => .inl (writable asked))).andThen
    exact fun _ => Triple.ret fun _ did => did
  | none =>
    apply (sys_moves host closed (.truncate abs _)
      (Proper.one rfl built fun _ => .inl (writable asked))).andThen
    exact fun _ => Triple.ret fun _ did => did

theorem setattrMode_moves (valid : Nat) (body abs : Bytes)
    (built : ∃ rel, G rel ∧ buildAbsPath s.rootAbs rel = some abs)
    (writable : valid &&& fattrMode ≠ 0 → s.modeRw = true) :
    Triple (Did G T s []) (setattrMode host valid body abs) (fun _ => Did G T s []) (Ended G T s) := by
  apply Triple.branch
  · exact fun _ => Triple.ret fun _ did => did
  intro asked
  apply (ensure_moves _ _).learn
  intro _ _
  apply (setattrFile_moves valid body).andThen
  intro file
  cases file with
  | some file =>
    apply (sys_moves host closed (.fchmod file.fd _)
      (Proper.pathless rfl fun _ => .inl (writable asked))).andThen
    exact fun _ => Triple.ret fun _ did => did
  | none =>
    apply (sys_moves host closed (.chmod abs _)
      (Proper.one rfl built fun _ => .inl (writable asked))).andThen
    exact fun _ => Triple.ret fun _ did => did

omit closed in
/-- A bit that the mask has is not lost by masking. -/
theorem masked_ne_zero {valid mask bit : Nat} (covered : mask &&& bit = bit)
    (asked : valid &&& bit ≠ 0) : valid &&& mask ≠ 0 := by
  intro none
  apply asked
  rw [← covered, ← Nat.land_assoc, none, Nat.zero_and]

theorem onSetattr_serves (nodeid : Nat) (body : Bytes) : Serves G T s (onSetattr host nodeid body) := by
  apply (ensure_moves _ _).learn
  intro _ _
  apply Triple.learn (Triple.get (Q := fun u t => u.modeRw = s.modeRw ∧ Did G T s [] t)
    fun t did => ⟨did.moves.config.2, did⟩)
  intro u mode
  apply (ensure_moves _ _).learn
  intro _ gate
  have writable : ∀ bit, mutatingMask &&& bit = bit → u32At body 0 &&& bit ≠ 0 → s.modeRw = true := by
    intro bit covered asked
    rw [← mode]
    by_contra readOnly
    exact gate ⟨Bool.eq_false_iff.mpr readOnly, masked_ne_zero covered asked⟩
  apply (inodePath_moves nodeid).learn
  intro abs built
  apply (setattrSize_moves host closed _ body abs built (writable fattrSize (by decide))).andThen
  intro _
  apply (setattrMode_moves host closed _ body abs built (writable fattrMode (by decide))).andThen
  intro _
  apply (sys_moves host closed (.lstat abs) (Proper.one rfl built nofun)).andThen
  intro st
  exact (attrOf_moves st nodeid).learn fun _ _ => ret_serves _ rfl

theorem releaseHandle_serves (fh : Nat) : Serves G T s (releaseHandle host fh) := by
  have erased : Serves G T s (do
      change fun s => s.setHandles (s.handles.erase fh)
      pure Reply.ack) := by
    apply Triple.andThen (M := fun _ => Did G T s [])
    · exact Triple.set _ fun t did => did.quietly closed (.release t fh)
    · exact fun _ => ret_serves _ rfl
  apply Triple.andThen (Triple.get (Q := fun _ => Did G T s []) fun _ did => did)
  intro u
  split
  · exact ret_serves _ rfl
  · apply (attempt_moves host closed (.close _) (Proper.pathless rfl nofun)).andThen
    exact fun _ => erased
  · exact erased

theorem onRelease_serves (body : Bytes) : Serves G T s (onRelease host body) := by
  exact (ensure_moves _ _).learn fun _ _ => releaseHandle_serves host closed _

theorem onReleasedir_serves (body : Bytes) : Serves G T s (onReleasedir host body) := by
  exact (ensure_moves _ _).learn fun _ _ => releaseHandle_serves host closed _

omit closed in
/-- What readdir returns is a valid name, except for the two entries that are skipped. -/
theorem direntName_valid (name : DirentName) (plain : ¬ (name.bytes = [dot] ∨ name.bytes = [dot, dot])) :
    validateName name.bytes = true := by
  simp only [not_or] at plain
  simp only [validateName, Bool.and_eq_true, decide_eq_true_eq, List.all_eq_true, ne_eq]
  exact ⟨⟨⟨name.nonempty, plain.1⟩, plain.2⟩, name.plain⟩

theorem direntType_moves (dirRel : Bytes) (child : HostDirent) (good : G dirRel)
    (valid : validateName child.name.bytes = true) :
    Triple (Did G T s []) (direntType host dirRel child) (fun _ => Did G T s []) (Ended G T s) := by
  apply Triple.branch
  · exact fun _ => Triple.ret fun _ did => did
  intro _
  apply Triple.learn (Triple.get (Q := fun u t => u.rootAbs = s.rootAbs ∧ Did G T s [] t)
    fun t did => ⟨did.moves.config.1, did⟩)
  intro u root
  split
  · exact Triple.ret fun _ did => did
  · rename_i abs built
    rw [root] at built
    apply (attempt_moves host closed (.lstat abs)
      (Proper.one rfl ⟨_, closed.child _ _ good valid, built⟩ nofun)).andThen
    intro answer
    cases answer with
    | ok st => exact Triple.ret fun _ did => did
    | error e => exact Triple.ret fun _ did => did

theorem packDirents_moves (dirRel : Bytes) (good : G dirRel) (children : List HostDirent) :
    ∀ entries, Packed entries → Triple (Did G T s []) (packDirents host dirRel children entries)
      (fun packed t => Packed packed ∧ Did G T s [] t) (Ended G T s) := by
  induction children with
  | nil => exact fun entries packed => Triple.ret fun _ did => ⟨packed, did⟩
  | cons child rest ih =>
    intro entries packed
    apply Triple.branch
    · exact fun _ => Triple.ret fun _ did => ⟨packed, did⟩
    intro room
    apply Triple.branch
    · exact fun _ => ih entries packed
    intro plain
    apply (direntType_moves host closed dirRel child good (direntName_valid _ plain)).andThen
    intro dtype
    cases dtype with
    | none => exact ih entries packed
    | some dtype => exact ih _ (packed.add room _ dtype child.name)

theorem onOpendir_serves (nodeid : Nat) : Serves G T s (onOpendir host nodeid) := by
  apply (requireInode_moves nodeid).learn
  intro entry good
  apply (absPath_moves _).learn
  intro abs built
  apply (sys_moves host closed (.listDir abs) (Proper.one rfl ⟨_, good, built⟩ nofun)).andThen
  intro children
  apply (packDirents_moves host closed _ good children [] ⟨Nat.zero_le _, nofun⟩).learn
  intro entries packed
  apply (newHandle_moves closed (.dir 0 entries) (fun _ _ _ impossible _ => nomatch impossible)
    fun _ _ same => (OpenEntry.dir.inj same).2 ▸ packed).andThen
  exact fun _ => ret_serves _ rfl

omit closed in
theorem onReaddir_serves (body : Bytes) : Serves G T s (onReaddir body) := by
  apply (ensure_moves _ _).learn
  intro _ _
  apply Triple.andThen (Triple.get (Q := fun _ => Did G T s []) fun _ did => did)
  intro u
  split
  · exact ret_serves _ rfl
  · exact Triple.exit fun _ did => did

theorem handle_serves (order : List Nat) (hdr : InHeader) (body : Bytes)
    (truncates : TruncatingOpen hdr body → T) : Serves G T s (handle host order hdr body) := by
  unfold handle
  split
  · exact onInit_serves body
  · exact ret_serves _ rfl
  · exact ret_serves _ rfl
  · exact onForget_serves closed _ body
  · exact onBatchForget_serves closed body
  · exact onLookup_serves host closed _ body
  · exact onGetattr_serves host closed _
  · exact onReadlink_serves host closed _
  · exact onCreate_serves host closed _ body
  · exact onWrite_serves host closed body
  · exact onRelease_serves host closed body
  · rename_i opcode
    exact onOpen_serves host closed _ body fun long reading truncating =>
      truncates ⟨opcode, long, reading, truncating⟩
  · exact onRead_serves host closed body
  · exact onOpendir_serves host closed _
  · exact onReaddir_serves body
  · exact onReleasedir_serves host closed body
  · exact onMkdir_serves host closed _ body
  · exact unlinkOrRmdir_serves host closed _ body false
  · exact unlinkOrRmdir_serves host closed _ body true
  · exact onRename_serves host closed _ body order
  · exact onLink_serves host closed _ body
  · exact onSymlink_serves host closed _ body
  · exact onSetattr_serves host closed _ body
  · exact ret_serves _ rfl
  iterate 4 exact ret_serves _ rfl
  · exact Triple.exit fun _ did => did

/-- A request: some moves, then the reply that issues what they counted, or a trap. -/
theorem serve_moves (request : Request) (within : s.table.Within G)
    (truncates : TruncatingOpen (readInHeader request.frame) (bodyOf request.frame) → T) :
    (∃ reply t, Moves G T s reply.issued.toList t ∧ s.serve host request = t.note (.reply reply)) ∨
    ∃ issued t, Moves G T s issued t ∧ s.serve host request = { t with trapped := true } := by
  have served := handle_serves host closed request.order (readInHeader request.frame)
    (bodyOf request.frame) truncates s ⟨.none, within⟩
  unfold State.serve
  match ran : handle host request.order (readInHeader request.frame) (bodyOf request.frame) s with
  | (.ok reply, t) =>
    rw [ran] at served
    exact .inl ⟨reply, t, served.moves, rfl⟩
  | (.error (.error errno), t) =>
    rw [ran] at served
    exact .inl ⟨.error errno, t, served.moves, rfl⟩
  | (.error .trap, t) =>
    rw [ran] at served
    obtain ⟨issued, did⟩ := served
    exact .inr ⟨issued, t, did.moves, rfl⟩

end Handlers

end Machinen.Mount
