import Machinen.Mount.HandlerMoves

/-! A read-only live mount. Every handler that changes the host checks the mount's mode
first, except that OPEN checks the access mode of its flags and not O_TRUNC. -/
namespace Machinen.Mount

open Prog

variable {σ : Type}

variable {s : State σ}

/-- Nothing was changed on the host, and nothing that is held could change it. -/
structure Untouched (s : State σ) : Prop where
  modeRw : s.modeRw = false
  calls : ∀ c, Event.call c ∈ s.log → c.mutates = false
  handles : ∀ fh file nodeid flags,
    s.handles.lookup fh = some (.file (some file) nodeid flags) → file.flags.writes = false

namespace Untouched

theorem note (untouched : Untouched s) (event : Event)
    (harmless : ∀ c, event = .call c → c.mutates = false) : Untouched (s.note event) where
  modeRw := untouched.modeRw
  calls := by
    intro c logged
    rcases List.mem_append.mp logged with before | now
    · exact untouched.calls c before
    · exact harmless c (List.mem_singleton.mp now).symm
  handles := untouched.handles

theorem putHandle (untouched : Untouched s) (fh : Nat) (entry : OpenEntry)
    (reading : ∀ file nodeid flags, entry = .file (some file) nodeid flags → file.flags.writes = false) :
    Untouched (s.setHandles (s.handles.insert fh entry)) where
  modeRw := untouched.modeRw
  calls := untouched.calls
  handles := by
    intro other file nodeid flags held
    by_cases here : other = fh
    · rw [here] at held
      rw [State.setHandles, AList.lookup_insert] at held
      exact reading file nodeid flags (Option.some.inj held)
    · rw [State.setHandles, AList.lookup_insert_ne here] at held
      exact untouched.handles other file nodeid flags held

theorem eraseHandle (untouched : Untouched s) (fh : Nat) :
    Untouched (s.setHandles (s.handles.erase fh)) where
  modeRw := untouched.modeRw
  calls := untouched.calls
  handles := by
    intro other file nodeid flags held
    by_cases here : other = fh
    · rw [State.setHandles, here, AList.lookup_erase] at held
      exact absurd held (by simp)
    · rw [State.setHandles, AList.lookup_erase_ne here] at held
      exact untouched.handles other file nodeid flags held

theorem move {G : Bytes → Prop} {t : State σ} {issued : List Nat} (untouched : Untouched s)
    (moved : Move G False s issued t) : Untouched t := by
  cases moved with
  | call c host paths may =>
    have harmless : c.mutates = false := by
      by_contra mutates
      rcases may ((Bool.not_eq_false _).mp mutates) with writable | impossible
      · rw [untouched.modeRw] at writable
        exact Bool.false_ne_true writable
      · exact impossible
    have noted := untouched.note (.call c) fun d same => Event.call.inj same ▸ harmless
    exact ⟨noted.modeRw, noted.calls, noted.handles⟩
  | bind | unindex | retarget | rename => exact ⟨untouched.modeRw, untouched.calls, untouched.handles⟩
  | forget nodeid n =>
    have noted := untouched.note (.forget nodeid n) nofun
    exact ⟨noted.modeRw, noted.calls, noted.handles⟩
  | put entry reading listing =>
    have held := untouched.putHandle s.nextHandle entry (by
      intro file nodeid flags same
      by_contra writes
      have writable := reading file nodeid flags same ((Bool.not_eq_false _).mp writes)
      rw [untouched.modeRw] at writable
      exact Bool.false_ne_true writable)
    exact ⟨held.modeRw, held.calls, held.handles⟩
  | release fh => exact untouched.eraseHandle fh

end Untouched

theorem anyPath_closed : Closed fun _ => True := ⟨fun _ _ _ _ => trivial, fun _ _ _ _ _ _ _ _ => trivial⟩

/-- The host path that an OPEN of the nodeid would use. -/
def State.openPath (s : State σ) (nodeid : Nat) : Option Bytes :=
  (s.table.lookup nodeid).bind fun entry => buildAbsPath s.rootAbs entry.relPath

/-- An OPEN of a known nodeid that truncates without asking to write. -/
def Harmful (s : State σ) (request : Request) : Prop :=
  TruncatingOpen (readInHeader request.frame) (bodyOf request.frame) ∧
    (s.openPath (readInHeader request.frame).nodeid).isSome = true

instance (hdr : InHeader) (body : Bytes) : Decidable (TruncatingOpen hdr body) :=
  inferInstanceAs (Decidable (_ ∧ _))

instance (s : State σ) (request : Request) : Decidable (Harmful s request) :=
  inferInstanceAs (Decidable (_ ∧ _))

section Mount

variable (host : Host σ)

theorem onOpen_unresolved {nodeid : Nat} (body : Bytes) (unknown : s.openPath nodeid = none) :
    ∃ errno, onOpen host nodeid body s = (.error (.error errno), s) := by
  have stuck : ∃ errno, (inodePath nodeid : Handler σ Bytes) s = (.error (.error errno), s) := by
    cases looked : s.table.lookup nodeid with
    | none =>
      refine ⟨.stale, ?_⟩
      apply bind_error
      simp only [requireInode, bind_ok (show (read : Handler σ (State σ)) s = (.ok s, s) from rfl),
        looked]
      rfl
    | some entry =>
      refine ⟨.inval, ?_⟩
      have found : (requireInode nodeid : Handler σ InodeEntry) s = (.ok entry, s) := by
        simp only [requireInode, bind_ok (show (read : Handler σ (State σ)) s = (.ok s, s) from rfl),
          looked]
        rfl
      have tooLong : buildAbsPath s.rootAbs entry.relPath = none := by
        simpa [State.openPath, looked] using unknown
      simp only [inodePath, bind_ok found, absPath,
        bind_ok (show (read : Handler σ (State σ)) s = (.ok s, s) from rfl), tooLong]
      rfl
  obtain ⟨errno, failed⟩ := stuck
  unfold onOpen
  by_cases long : 8 ≤ body.length
  · rw [bind_ok (ensure_ok long _ s),
      bind_ok (show (read : Handler σ (State σ)) s = (.ok s, s) from rfl)]
    by_cases gate : ¬ ((u32At body 0 &&& 3 = linuxOWronly ∨ u32At body 0 &&& 3 = linuxORdwr) ∧
        s.modeRw = false)
    · rw [bind_ok (ensure_ok gate _ s)]
      exact ⟨errno, bind_error failed⟩
    · exact ⟨.rofs, bind_error (ensure_error gate _ s)⟩
  · exact ⟨.inval, bind_error (ensure_error long _ s)⟩

theorem serve_untouched (request : Request) (untouched : Untouched s)
    (harmless : ¬ Harmful s request) : Untouched (s.serve host request) := by
  by_cases truncating : TruncatingOpen (readInHeader request.frame) (bodyOf request.frame)
  · have unknown : s.openPath (readInHeader request.frame).nodeid = none := by
      by_contra known
      exact harmless ⟨truncating, Option.isSome_iff_ne_none.mpr known⟩
    obtain ⟨errno, refused⟩ := onOpen_unresolved host (bodyOf request.frame) unknown
    have served : s.serve host request = s.note (.reply (.error errno)) := by
      simp only [State.serve, handle, truncating.1, refused]
    rw [served]
    exact untouched.note _ nofun
  · have kept : ∀ {issued : List Nat} {t : State σ}, Moves (fun _ => True) False s issued t →
        Untouched t := fun moves => moves.keep (fun _ _ _ before move => before.move move) untouched
    have within : s.table.Within fun _ => True := fun _ _ _ => trivial
    rcases serve_moves host anyPath_closed request within truncating with
      ⟨reply, t, moves, served⟩ | ⟨issued, t, moves, served⟩
    · rw [served]
      exact (kept moves).note (.reply reply) nofun
    · rw [served]
      exact ⟨(kept moves).modeRw, (kept moves).calls, (kept moves).handles⟩

theorem step_untouched (s : State σ) (request : Request) (t : State σ) (untouched : Untouched s)
    (harmless : ¬ Harmful s request) (moved : s.step host request = some t) : Untouched t :=
  step_serve host moved ▸ serve_untouched host request untouched harmless

theorem serve_log (s : State σ) (request : Request) :
    s.log <+: (s.serve host request).log ∧ (s.serve host request).modeRw = s.modeRw := by
  have within : s.table.Within fun _ => True := fun _ _ _ => trivial
  rcases serve_moves (T := True) host anyPath_closed request within (fun _ => trivial) with
    ⟨reply, t, moves, served⟩ | ⟨issued, t, moves, served⟩
  · rw [served]
    exact ⟨moves.log.trans (List.prefix_append _ _), moves.config.2⟩
  · rw [served]
    exact ⟨moves.log, moves.config.2⟩

theorem inodePath_known {nodeid : Nat} {abs : Bytes} (known : s.openPath nodeid = some abs) :
    (inodePath nodeid : Handler σ Bytes) s = (.ok abs, s) := by
  obtain ⟨entry, looked, built⟩ := Option.bind_eq_some_iff.mp known
  have here : (read : Handler σ (State σ)) s = (.ok s, s) := rfl
  have found : (requireInode nodeid : Handler σ InodeEntry) s = (.ok entry, s) := by
    simp only [requireInode, bind_ok here, looked]
    rfl
  simp only [inodePath, bind_ok found, absPath, bind_ok here, built]
  rfl

theorem attempt_logs (c : Call) {P : State σ → Prop} {R : Exit → State σ → Prop} :
    Triple P (attempt host c) (fun _ t => Event.call c ∈ t.log) R := by
  apply Triple.andThen (Triple.get (Q := fun _ _ => True) fun _ _ => trivial)
  intro u
  apply Triple.andThen (M := fun _ t => Event.call c ∈ t.log)
  · exact Triple.set _ fun t _ => List.mem_append_right _ (List.mem_singleton.mpr rfl)
  · exact fun _ => Triple.ret fun _ logged => logged

theorem newHandle_logged (c : Call) (entry : OpenEntry) :
    Keeps (fun t : State σ => Event.call c ∈ t.log) (newHandle entry) := by
  apply Keeps.get.andThen
  intro u
  apply (Keeps.check _ _).andThen
  intro _
  apply Keeps.andThen
  · exact Keeps.set _ fun _ logged => logged
  · exact fun _ => Keeps.ret _

theorem sys_logs (c : Call) {P : State σ → Prop} :
    Triple P (sys host c) (fun _ t => Event.call c ∈ t.log) (fun _ t => Event.call c ∈ t.log) := by
  apply (attempt_logs host c).andThen
  intro answer
  cases answer with
  | ok a => exact Triple.ret fun _ logged => logged
  | error e => exact Triple.exit fun _ logged => logged

theorem onOpen_logs {nodeid : Nat} {body abs : Bytes} (long : 8 ≤ body.length)
    (reading : (linuxOpenToHost (u32At body 0)).writes = false) (known : s.openPath nodeid = some abs) :
    Event.call (.open_ abs (linuxOpenToHost (u32At body 0)) 0) ∈ (onOpen host nodeid body s).2.log := by
  let c := Call.open_ abs (linuxOpenToHost (u32At body 0)) 0
  have here : (read : Handler σ (State σ)) s = (.ok s, s) := rfl
  have gate : ¬ ((u32At body 0 &&& 3 = linuxOWronly ∨ u32At body 0 &&& 3 = linuxORdwr) ∧
      s.modeRw = false) := by
    intro stopped
    rw [(writes_iff _).mpr stopped.1] at reading
    exact Bool.false_ne_true reading.symm
  have opened : Triple (fun _ => True) (do
      let fd : Nat ← sys host c
      let fh ← newHandle (.file (some ⟨fd, linuxOpenToHost (u32At body 0)⟩) nodeid (u32At body 0))
      pure (Reply.opened fh))
      (fun _ t => Event.call c ∈ t.log) (fun _ t => Event.call c ∈ t.log) := by
    apply Triple.andThen (M := fun _ t => Event.call c ∈ t.log)
    · exact sys_logs host c
    · intro fd
      exact (newHandle_logged c _).andThen fun _ => Keeps.ret _
  rw [onOpen, bind_ok (ensure_ok long _ s), bind_ok here, bind_ok (ensure_ok gate _ s),
    bind_ok (inodePath_known known)]
  exact opened.final trivial

theorem harmful_mutates (request : Request) (harmful : Harmful s request) :
    ∃ c, Event.call c ∈ (s.serve host request).log ∧ c.mutates = true := by
  obtain ⟨⟨opcode, long, reading, truncating⟩, known⟩ := harmful
  obtain ⟨abs, resolved⟩ := Option.isSome_iff_exists.mp known
  have logged := onOpen_logs host long reading resolved
  have mutates : (Call.open_ abs (linuxOpenToHost (u32At (bodyOf request.frame) 0)) 0).mutates = true := by
    simp only [Call.mutates, truncating, Bool.true_or]
  have handled := handle_log host s request
  rw [show handle host request.order (readInHeader request.frame) (bodyOf request.frame) =
    onOpen host (readInHeader request.frame).nodeid (bodyOf request.frame) by
      simp only [handle, opcode]] at handled
  exact ⟨_, handled.subset logged, mutates⟩

theorem run_untouched_iff {t : State σ} (untouched : Untouched s) (requests : List Request)
    (run : s.exec host requests = some t) :
    Untouched t ↔ Run.Meets (State.step host) (fun u request => ¬ Harmful u request) s requests := by
  constructor
  · intro final
    have back : ∀ u request v, State.step host u request = some v →
        (∀ c, Event.call c ∈ v.log → c.mutates = false) →
        (∀ c, Event.call c ∈ u.log → c.mutates = false) ∧ ¬ Harmful u request := by
      intro u request v moved clean
      rw [step_serve host moved] at clean
      constructor
      · exact fun c logged => clean c ((serve_log host u request).1.subset logged)
      · intro harmful
        obtain ⟨c, logged, mutates⟩ := harmful_mutates host request harmful
        rw [clean c logged] at mutates
        exact Bool.false_ne_true mutates
    exact (Run.exec_backwards back requests run final.calls).2
  · intro harmless
    exact Run.exec_guarded (step_untouched host) requests untouched harmless run

theorem reopenFlags_truncates (modeRw : Bool) (flags : Nat) :
    (linuxOpenToHost (reopenFlags modeRw flags)).truncates = false := by
  have masked : reopenFlags modeRw flags &&& linuxOTrunc = 0 := by
    apply Nat.eq_of_testBit_eq
    intro i
    cases modeRw
    all_goals
      simp only [reopenFlags, Bool.false_eq_true, if_false, if_true, Nat.testBit_land, Nat.testBit_ldiff,
        Nat.zero_testBit]
      cases Nat.testBit linuxOTrunc i <;> simp
  simp only [linuxOpenToHost, masked, bne_self_eq_false]

theorem reopenFlags_writes (flags : Nat) : (linuxOpenToHost (reopenFlags false flags)).writes = false := by
  have masked : reopenFlags false flags &&& 3 = 0 := by
    apply Nat.eq_of_testBit_eq
    intro i
    simp only [reopenFlags, Bool.false_eq_true, if_false, Nat.testBit_land, Nat.testBit_ldiff,
      Nat.zero_testBit]
    cases Nat.testBit 3 i <;> simp
  simp only [linuxOpenToHost, masked]
  rfl

theorem reopenHandle_untouched (nodeid flags : Nat) :
    Triple Untouched (reopenHandle host nodeid flags)
      (fun file (t : State σ) => (∀ f, file = some f → f.flags.writes = false) ∧ Untouched t)
      (fun _ => Untouched) := by
  apply Triple.learn (Triple.get (Q := fun u (t : State σ) => u.modeRw = false ∧ Untouched t)
    fun t untouched => ⟨untouched.modeRw, untouched⟩)
  intro u mode
  split
  · exact Triple.ret fun _ untouched => ⟨nofun, untouched⟩
  · rename_i abs _
    rw [mode]
    have harmless : (Call.open_ abs (linuxOpenToHost (reopenFlags false flags)) 0).mutates = false := by
      simp only [Call.mutates, reopenFlags_truncates, Bool.false_or]
      rfl
    apply Triple.andThen (M := fun _ => Untouched)
    · apply Keeps.get.andThen
      intro v
      apply Keeps.andThen
      · apply Keeps.set
        intro t untouched
        have noted := untouched.note (.call _) fun d same => Event.call.inj same ▸ harmless
        exact ⟨noted.modeRw, noted.calls, noted.handles⟩
      · exact fun _ => Keeps.ret _
    · intro answer
      cases answer with
      | ok fd => exact Triple.ret fun _ untouched =>
          ⟨fun f same => Option.some.inj same ▸ reopenFlags_writes flags, untouched⟩
      | error e => exact Triple.ret fun _ untouched => ⟨nofun, untouched⟩

theorem restoreHandle_untouched (rec : HandleRec) :
    Keeps (Untouched (σ := σ)) (restoreHandle host rec) := by
  cases rec with
  | file handleId nodeid flags =>
    apply (reopenHandle_untouched host nodeid flags).learn
    intro file reading
    apply Keeps.set
    intro t untouched
    apply untouched.putHandle
    intro f _ _ same
    cases same
    exact reading f rfl
  | dir handleId nodeid flags entries =>
    exact Keeps.set _ fun t untouched => untouched.putHandle _ _ nofun

def Quiet (s : State σ) : Prop := ∀ c, Event.call c ∈ s.log → c.mutates = false

theorem freeHandle_quiet (entry : OpenEntry) :
    Triple Quiet (freeHandle host entry) (fun _ => Quiet (σ := σ)) (fun _ _ => False) := by
  unfold freeHandle
  split
  · apply Triple.andThen (M := fun _ => Quiet)
    · apply Triple.andThen (Triple.get (Q := fun _ => Quiet) fun _ quiet => quiet)
      intro u
      apply Triple.andThen (M := fun _ => Quiet)
      · apply Triple.set
        intro t quiet c logged
        rcases List.mem_append.mp logged with before | now
        · exact quiet c before
        · cases List.mem_singleton.mp now
          rfl
      · exact fun _ => Triple.ret fun _ quiet => quiet
    · exact fun _ => Triple.ret fun _ quiet => quiet
  · exact Triple.ret fun _ quiet => quiet

theorem applyState_untouched (quiet : Quiet s) {payload : Bytes} {d : Decoded}
    (decoded : decodeState payload = .ok d) (readOnly : d.modeRw = false) :
    Untouched (s.applyState host payload) := by
  have applied : Triple Quiet (applyDecoded host d) (fun _ => Untouched (σ := σ)) (fun _ => Untouched) := by
    apply Triple.andThen (Triple.get (Q := fun _ => Quiet) fun _ quiet => quiet)
    intro u
    apply Triple.andThen (M := fun _ => Quiet)
    · exact (Triple.loop (fun entry : Sigma fun _ : Nat => OpenEntry => freeHandle_quiet host entry.2)
        _).weaken (fun _ quiet => quiet) (fun _ _ quiet => quiet) fun _ _ impossible => impossible.elim
    intro _
    apply Triple.andThen (M := fun _ => Untouched)
    · apply Triple.set
      intro t quiet
      exact ⟨readOnly, quiet, fun fh _ _ _ held => by simp at held⟩
    · exact fun _ => Keeps.loop (restoreHandle_untouched host) _
  have after := applied s quiet
  simp only [State.applyState, decoded]
  split at after
  all_goals
    rename_i ran
    rw [ran]
    exact after

/-- How a mount becomes read-only: it is one already, or it is restored from a payload
that says so. -/
inductive ReadOnlyStart : State σ → Prop where
  | mounted {s : State σ} (untouched : Untouched s) : ReadOnlyStart s
  | restored {s : State σ} {payload : Bytes} {d : Decoded} (quiet : Quiet s)
      (decoded : decodeState payload = .ok d) (readOnly : d.modeRw = false) :
      ReadOnlyStart (s.applyState host payload)

theorem ReadOnlyStart.begins (start : ReadOnlyStart host s) : Untouched s := by
  cases start with
  | mounted untouched => exact untouched
  | restored quiet decoded readOnly => exact applyState_untouched host quiet decoded readOnly

theorem readOnly_mount_untouched {s t : State σ} (start : ReadOnlyStart host s)
    (requests : List Request)
    (harmless : Run.Meets (State.step host) (fun u request => ¬ Harmful u request) s requests)
    (run : s.exec host requests = some t) : Untouched t :=
  (run_untouched_iff host start.begins requests run).mpr harmless

end Mount

/-- A payload with the root, a file `a`, and a handle on it that was opened for writing. -/
def writtenMount (modeRw : Bool) : Decoded :=
  ⟨modeRw, 3, 2, [⟨1, nlookupPinned, []⟩, ⟨2, 1, [0x61]⟩], [.file 1 2 linuxOWronly]⟩

theorem readOnly_mount_untouched_restored :
    ∃ t, ((State.init [slash] true ()).applyState Host.idle (encodeState (writtenMount false))).exec
        Host.idle [.of 14 2 (Bytes.le 4 0 ++ Bytes.le 4 0) [1, 2]] = some t ∧ Untouched t := by
  have ran : (((State.init [slash] true ()).applyState Host.idle (encodeState (writtenMount false))).exec
      Host.idle [.of 14 2 (Bytes.le 4 0 ++ Bytes.le 4 0) [1, 2]]).isSome = true := by decide +kernel
  obtain ⟨t, run⟩ := Option.isSome_iff_exists.mp ran
  have start : ReadOnlyStart Host.idle
      ((State.init [slash] true ()).applyState Host.idle (encodeState (writtenMount false))) :=
    .restored (d := writtenMount false) (fun _ logged => absurd logged List.not_mem_nil)
      (by decide +kernel) rfl
  exact ⟨t, run, readOnly_mount_untouched Host.idle start _ (by decide +kernel) run⟩

/-- LOOKUP of `a`, then an OPEN of it with O_TRUNC alone; and a payload of a writable mount
on a mount that the host configured read-only. -/
theorem readOnly_mount_truncated_or_writable :
    (¬ ∀ requests t, (State.init [slash] false ()).exec Host.idle requests = some t → Untouched t) ∧
    ¬ ∀ payload requests t, ((State.init [slash] false ()).applyState Host.idle payload).exec Host.idle
      requests = some t → Untouched t := by
  constructor
  · intro safe
    have changed : (((State.init [slash] false ()).exec Host.idle
        [.of 1 1 [0x61, 0] [1], .of 14 2 (Bytes.le 4 linuxOTrunc ++ Bytes.le 4 0) [1, 2]]).any
        fun t => t.log.any fun
          | .call c => c.mutates
          | _ => false) = true := by decide +kernel
    obtain ⟨t, run, found⟩ := (Option.any_eq_true _ _).mp changed
    obtain ⟨event, logged, mutates⟩ := List.any_eq_true.mp found
    cases event with
    | call c =>
      have changes : c.mutates = true := mutates
      rw [(safe _ t run).calls c logged] at changes
      exact Bool.false_ne_true changes
    | forget | reply => exact Bool.false_ne_true mutates
  · intro safe
    have untouched := safe (encodeState (writtenMount true)) [] _ rfl
    have writable : ((State.init [slash] false ()).applyState Host.idle
        (encodeState (writtenMount true))).modeRw = true := by decide +kernel
    rw [untouched.modeRw] at writable
    exact Bool.false_ne_true writable

end Machinen.Mount
