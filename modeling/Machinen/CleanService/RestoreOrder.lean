import Machinen.CleanService.Restore
import Machinen.CleanService.Agreement

/-! In which order a restore does what it does, at whichever call it is stopped: the guest is given the
artifact that the manifest names and nothing else, and it is let go once it has been booted. -/
namespace Machinen.CleanService

open Portable Prog

/-- The component of a manifest that a restore goes on with. -/
structure Chosen (host : Host) (manifest component : Json) : Prop where
  accepted : validateCleanServiceManifest manifest = []
  selected : selectRestorableCleanServiceComponent manifest = .ok component
  other : (manifest.get "sourceArch").any (Json.string host.guestCpu).same = false

def artifactFile (host : Host) (component : Json) : List Text := join host.snapDir (artifactPath component)

inductive Allowed (host : Host) (component : Json) (artifact : Bytes) : Call → Prop where
  | prepare {command} (made : prepareCleanServiceRuntime component = some command) :
      Allowed host component artifact (.exec command)
  | version {interpreter} (known : interpreter = nodeInterpreter ∨ interpreter = pythonInterpreter) :
      Allowed host component artifact (.exec interpreter.versionCommand)
  | deliver : Allowed host component artifact (.writeFile archivePath artifact)
  | unpack : Allowed host component artifact (.exec unpack)
  | start {command} (made : startCleanServiceCommand host.shellQuote component = some command) :
      Allowed host component artifact (.exec command)
  | verify {command} (made : verifyCleanServiceCommand host.shellQuote component = some command) :
      Allowed host component artifact (.exec command)

inductive Stage where
  | start
  | read (artifact : Option Bytes)
  | up (artifact : Bytes) (last : Option (Call × Option ExecResult))
  | down

/-- How far a restore has come, and the exit code that its summary tells. -/
structure Progress where
  stage : Stage
  told : Option Int

inductive Advances (host : Host) (manifest : Json) : Progress → RestoreEvent → Progress → Prop where
  | readArtifact {component} (chosen : Chosen host manifest component) :
      Advances host manifest ⟨.start, none⟩ (.readArtifact (artifactFile host component))
        ⟨.read (host.file (artifactFile host component)), none⟩
  | booted {component artifact} (chosen : Chosen host manifest component)
      (same : stringOf (artifactSha256 component) = some (host.sha256 artifact)) :
      Advances host manifest ⟨.read (some artifact), none⟩ .booted ⟨.up artifact none, none⟩
  | called {component artifact last c answer} (chosen : Chosen host manifest component)
      (allowed : Allowed host component artifact c) :
      Advances host manifest ⟨.up artifact last, none⟩ (.called c answer) ⟨.up artifact (some (c, answer)), none⟩
  | completed {component artifact command verify} (chosen : Chosen host manifest component)
      (asked : verifyCleanServiceCommand host.shellQuote component = some command) (passed : verify.exitCode = 0) :
      Advances host manifest ⟨.up artifact (some (.exec command, some verify)), none⟩ (.summarized none)
        ⟨.up artifact (some (.exec command, some verify)), some 0⟩
  | refused {stage refusal} :
      Advances host manifest ⟨stage, none⟩ (.summarized (some refusal)) ⟨stage, some 1⟩
  | detached {artifact last told} : Advances host manifest ⟨.up artifact last, told⟩ .detached ⟨.down, told⟩

/-- The events lead, one after another, to such a progress. -/
inductive Conforms (host : Host) (manifest : Json) : List RestoreEvent → Progress → Prop where
  | none : Conforms host manifest [] ⟨.start, none⟩
  | snoc {events p event q} (before : Conforms host manifest events p) (next : Advances host manifest p event q) :
      Conforms host manifest (events ++ [event]) q

section Run

variable {host : Host} {manifest component : Json} {artifact : Bytes}

def At (host : Host) (manifest : Json) (p : Progress) (w : World) : Prop := Conforms host manifest w.events p

def Up (host : Host) (manifest : Json) (artifact : Bytes) (w : World) : Prop :=
  ∃ last, At host manifest ⟨.up artifact last, none⟩ w

def Left (host : Host) (manifest : Json) (artifact : Bytes) (w : World) : Prop :=
  ∃ last told, At host manifest ⟨.up artifact last, told⟩ w

theorem Up.left {w : World} (up : Up host manifest artifact w) : Left host manifest artifact w :=
  up.imp fun _ now => ⟨none, now⟩

theorem at_tell {p q : Progress} {event : RestoreEvent} {R : Thrown → World → Prop}
    (next : Advances host manifest p event q) :
    Triple (At host manifest p) (tell event) (fun _ => At host manifest q) R :=
  Triple.set _ fun _ before => before.snoc next

theorem call_after (chosen : Chosen host manifest component) {c : Call}
    (allowed : Allowed host component artifact c) :
    Triple (Up host manifest artifact) (call c)
    (fun answer => At host manifest ⟨.up artifact (some (c, some answer)), none⟩)
      (fun _ => Left host manifest artifact) := by
  rintro w ⟨last, before⟩
  unfold call
  cases w.answers.head?.join with
  | none => exact ⟨_, _, before.snoc (.called chosen allowed)⟩
  | some answer => exact before.snoc (.called chosen allowed)

theorem call_up (chosen : Chosen host manifest component) {c : Call} (allowed : Allowed host component artifact c) :
    Triple (Up host manifest artifact) (call c) (fun _ => Up host manifest artifact)
      (fun _ => Left host manifest artifact) :=
  (call_after chosen allowed).post fun _ _ now => ⟨_, now⟩

theorem exec_up (chosen : Chosen host manifest component) {command : Text}
    (allowed : Allowed host component artifact (.exec command)) :
    Triple (Up host manifest artifact) (exec command) (fun _ => Up host manifest artifact)
      (fun _ => Left host manifest artifact) :=
  (call_up chosen allowed).andThen fun _ => Triple.check (fun _ _ up => up) fun _ _ up => up.left

theorem need_up {A : Type} (value : Option A) : Triple (Up host manifest artifact) (need value Thrown.thrown)
    (fun a w => value = some a ∧ Up host manifest artifact w) (fun _ => Left host manifest artifact) :=
  Triple.found (fun _ there _ up => ⟨there, up⟩) fun _ _ up => up.left

theorem writeFile_up (chosen : Chosen host manifest component) :
    Triple (Up host manifest artifact) (writeFile archivePath artifact) (fun _ => Up host manifest artifact)
      (fun _ => Left host manifest artifact) :=
  (call_up chosen .deliver).andThen fun _ => Triple.ret fun _ up => up

theorem prepareInterpreter_up (chosen : Chosen host manifest component) {interpreter : Interpreter}
    (known : interpreter = nodeInterpreter ∨ interpreter = pythonInterpreter) :
    Triple (Up host manifest artifact) (prepareInterpreter component interpreter)
    (fun _ => Up host manifest artifact)
      (fun _ => Left host manifest artifact) := by
  refine Triple.learn (need_up _) fun command made => ?_
  refine (exec_up chosen (.prepare made)).andThen fun _ => ?_
  refine (call_up chosen (.version known)).andThen fun target => Triple.branch (fun _ => ?_) fun _ => ?_
  · exact Triple.learn (need_up _) fun _ _ => Triple.ret fun _ up => up
  · refine Triple.learn (need_up _) fun source _ => Triple.branch (fun _ => Triple.ret fun _ up => up) fun _ => ?_
    refine Triple.learn (need_up _) fun _ _ => Triple.learn (need_up _) fun _ _ => ?_
    exact Triple.ret fun _ up => up

theorem prepareRuntime_up (chosen : Chosen host manifest component) :
    Triple (Up host manifest artifact) (prepareRuntime component) (fun _ => Up host manifest artifact)
      (fun _ => Left host manifest artifact) := by
  refine Triple.branch (fun _ => prepareInterpreter_up chosen (.inl rfl)) fun _ => ?_
  refine Triple.branch (fun _ => prepareInterpreter_up chosen (.inr rfl)) fun _ => ?_
  refine Triple.branch (fun go => ?_) fun _ => ?_
  · refine (exec_up chosen (.prepare ?_)).andThen fun _ => Triple.ret fun _ up => up
    simp [prepareCleanServiceRuntime, go]
  · exact Triple.learn (need_up _) fun _ _ => Triple.ret fun _ up => up

theorem summarize_told {p q : Progress} {refusal : Option Refusal}
    (next : Advances host manifest p (.summarized refusal) q) :
    Triple (At host manifest p) (summarize host manifest refusal) (fun _ => At host manifest q)
      (fun _ => At host manifest p) := by
  have there {A : Type} (value : Option A) : Triple (At host manifest p) (need value Thrown.thrown)
      (fun _ => At host manifest p) (fun _ => At host manifest p) :=
    Triple.found (fun _ _ _ now => now) fun _ _ now => now
  refine (there _).andThen fun _ => (there _).andThen fun _ => ?_
  have writes : Triple (At host manifest p) (ensure (host.writesSummary = true) Thrown.thrown)
      (fun _ => At host manifest p) (fun _ => At host manifest p) :=
    Triple.check (fun _ _ now => now) fun _ _ now => now
  exact writes.andThen fun _ => at_tell next

theorem report_told {stage : Stage} (refusal : Refusal) :
    Triple (At host manifest ⟨stage, none⟩) (reportCleanServiceRestoreRefusal host manifest refusal)
      (fun code => At host manifest ⟨stage, some code⟩) (fun _ => At host manifest ⟨stage, none⟩) :=
  (summarize_told .refused).andThen fun _ => Triple.ret fun _ now => now

theorem report_up (refusal : Refusal) :
    Triple (Up host manifest artifact) (reportCleanServiceRestoreRefusal host manifest refusal)
      (fun code w => ∃ last, At host manifest ⟨.up artifact last, some code⟩ w)
      (fun _ => Left host manifest artifact) := by
  rintro w ⟨last, before⟩
  exact ((report_told refusal).weaken (fun _ now => now) (fun _ _ now => ⟨last, now⟩)
    fun _ _ now => ⟨last, none, now⟩) w before

theorem restoreInGuest_told (chosen : Chosen host manifest component) :
    Triple (Up host manifest artifact) (restoreInGuest host manifest component artifact)
      (fun code w => ∃ last, At host manifest ⟨.up artifact last, some code⟩ w)
      (fun _ => Left host manifest artifact) := by
  refine (prepareRuntime_up chosen).andThen fun refusal => ?_
  cases refusal with
  | some refusal => exact report_up refusal
  | none =>
    refine (writeFile_up chosen).andThen fun _ => (exec_up chosen .unpack).andThen fun _ => ?_
    refine Triple.learn (need_up _) fun start made => (exec_up chosen (.start made)).andThen fun _ => ?_
    refine Triple.learn (need_up _) fun command asked => (call_after chosen (.verify asked)).andThen fun verify => ?_
    refine Triple.branch (fun _ => (report_up _).pre fun _ now => ⟨_, now⟩) fun passed => ?_
    refine ((summarize_told (.completed chosen asked (not_not.mp passed))).weaken (fun _ now => now)
      (fun _ _ now => now) fun _ _ now => ⟨_, none, now⟩).andThen fun _ => ?_
    exact Triple.ret fun _ now => ⟨_, now⟩

end Run

def Progress.Released (p : Progress) : Prop := ∀ artifact last, p.stage ≠ .up artifact last

theorem detach_released (host : Host) (manifest : Json) (told : Option Int) :
    Triple (fun w => ∃ artifact last, At host manifest ⟨.up artifact last, told⟩ w) (detach host)
      (fun _ => At host manifest ⟨.down, told⟩) (fun _ => At host manifest ⟨.down, told⟩) := by
  rintro w ⟨artifact, last, before⟩
  have told : Triple (At host manifest ⟨.up artifact last, told⟩) (tell .detached)
      (fun _ => At host manifest ⟨.down, told⟩) (fun _ => At host manifest ⟨.down, told⟩) := at_tell .detached
  exact (told.andThen fun _ => Triple.check (fun _ _ now => now) fun _ _ now => now) w before

def Ended (host : Host) (manifest : Json) (code : Int) (w : World) : Prop :=
  ∃ stage, (Progress.mk stage (some code)).Released ∧ At host manifest ⟨stage, some code⟩ w

def Stopped (host : Host) (manifest : Json) (w : World) : Prop := ∃ p : Progress, p.Released ∧ At host manifest p w

theorem report_ended {host : Host} {manifest : Json} {stage : Stage} (released : (Progress.mk stage none).Released)
    (refusal : Refusal) :
    Triple (At host manifest ⟨stage, none⟩) (reportCleanServiceRestoreRefusal host manifest refusal)
      (Ended host manifest) (fun _ => Stopped host manifest) :=
  (report_told refusal).weaken (fun _ now => now) (fun _ _ now => ⟨stage, released, now⟩)
    fun _ _ now => ⟨_, released, now⟩

theorem restore_read {host : Host} {manifest component : Json} (chosen : Chosen host manifest component)
    (artifact : Bytes) :
    Triple (At host manifest ⟨.read (some artifact), none⟩)
      (if stringOf (artifactSha256 component) ≠ some (host.sha256 artifact) then
        reportCleanServiceRestoreRefusal host manifest ⟨"clean-service-artifact-digest-mismatch",
          "clean-service artifact digest does not match the manifest"⟩
      else do
        ensure (host.boots = true) .thrown
        tell .booted
        lastly (restoreInGuest host manifest component artifact) (detach host))
      (Ended host manifest) (fun _ => Stopped host manifest) := by
  have released : (Progress.mk (.read (some artifact)) none).Released := by
    rintro _ _ ⟨⟩
  have down : ∀ told, (Progress.mk .down told).Released := by
    rintro told _ _ ⟨⟩
  refine Triple.branch (fun _ => report_ended released _) fun same => ?_
  have boots : Triple (At host manifest ⟨.read (some artifact), none⟩) (ensure (host.boots = true) Thrown.thrown)
      (fun _ => At host manifest ⟨.read (some artifact), none⟩) (fun _ => Stopped host manifest) :=
    Triple.check (fun _ _ now => now) fun _ _ now => ⟨_, released, now⟩
  refine boots.andThen fun _ => (at_tell (.booted chosen (not_not.mp same))).andThen fun _ => ?_
  refine Triple.lastly ((restoreInGuest_told chosen).pre fun _ now => ⟨none, now⟩) (fun code => ?_) fun _ => ?_
  · exact (detach_released host manifest (some code)).weaken (fun _ now => now.elim fun last now => ⟨_, last, now⟩)
      (fun _ _ now => ⟨.down, down _, now⟩) fun _ _ now => ⟨_, down _, now⟩
  · rintro w ⟨last, told, now⟩
    exact ((detach_released host manifest told).weaken (fun _ now => now) (fun _ _ now => ⟨_, down _, now⟩)
      fun _ _ now => ⟨_, down _, now⟩) w ⟨_, last, now⟩

theorem cmdRestore_ended (host : Host) (manifest : Json) :
    Triple (At host manifest ⟨.start, none⟩) (cmdRestoreCleanService host manifest) (Ended host manifest)
      (fun _ => Stopped host manifest) := by
  have released : (Progress.mk .start none).Released := by
    rintro _ _ ⟨⟩
  unfold cmdRestoreCleanService
  refine Triple.branch (fun _ => report_ended released _) fun accepted => ?_
  cases selected : selectRestorableCleanServiceComponent manifest with
  | error refusal => exact report_ended released refusal
  | ok component =>
    refine Triple.branch (fun _ => report_ended released _) fun other => ?_
    have chosen : Chosen host manifest component := ⟨not_not.mp accepted, selected, by simpa using other⟩
    refine (at_tell (.readArtifact chosen)).andThen fun _ => ?_
    have there : Triple (At host manifest ⟨.read (host.file (artifactFile host component)), none⟩)
        (need (host.file (artifactFile host component)) Thrown.thrown)
        (fun artifact => At host manifest ⟨.read (some artifact), none⟩) (fun _ => Stopped host manifest) := by
      refine Triple.found (fun artifact found _ now => found ▸ now) fun _ _ now => ⟨_, ?_, now⟩
      rintro _ _ ⟨⟩
    exact there.andThen fun artifact => restore_read chosen artifact

theorem events_conform (host : Host) (manifest : Json) (answers : List (Option ExecResult)) :
    ∃ p, Conforms host manifest (cmdRestoreCleanService host manifest { answers }).2.events p := by
  have ended := cmdRestore_ended host manifest { answers } .none
  rcases ran : cmdRestoreCleanService host manifest { answers } with ⟨e | code, w⟩
  · rw [ran] at ended
    exact ended.imp fun _ now => now.2
  · rw [ran] at ended
    exact ended.elim fun _ now => ⟨_, now.2⟩

/-- Whatever the calls answer and wherever one throws, a restore keeps to the order: it touches the guest only
while it is up, with an artifact of the manifest's own digest; it lets the guest go; and it ends with the exit
code of its summary, which is 0 only behind a verifier that passed. -/
theorem restore_conforms (host : Host) (manifest : Json) (answers : List (Option ExecResult)) :
    ∃ p, Conforms host manifest (cmdRestoreCleanService host manifest { answers }).2.events p ∧ p.Released ∧
      ∀ code, (cmdRestoreCleanService host manifest { answers }).1 = .ok code → p.told = some code := by
  have ended := cmdRestore_ended host manifest { answers } .none
  rcases ran : cmdRestoreCleanService host manifest { answers } with ⟨e | code, w⟩
  · rw [ran] at ended
    obtain ⟨p, released, now⟩ := ended
    refine ⟨p, now, released, ?_⟩
    rintro code ⟨⟩
  · rw [ran] at ended
    obtain ⟨stage, released, now⟩ := ended
    refine ⟨_, now, released, ?_⟩
    rintro _ ⟨⟩
    rfl

/-! The file that is read -/

/-- One part of a path: how far the path has left its directory, and the names it has then gone down by. -/
def climbStep (at_ : Nat × List Text) (part : Text) : Nat × List Text :=
  if part = [] ∨ part = ".".toList then at_
  else if part = "..".toList then
    match at_.2 with
    | [] => (at_.1 + 1, [])
    | _ :: _ => (at_.1, at_.2.dropLast)
  else (at_.1, at_.2 ++ [part])

/-- Where a path leads from a directory: so many levels up, and then down by names. -/
def climb (path : Text) : Nat × List Text := (path.splitOn '/').foldl climbStep (0, [])

def reached (dir : List Text) (at_ : Nat × List Text) : List Text := dir.take (dir.length - at_.1) ++ at_.2

theorem dropLast_take_sub {α : Type} (xs : List α) (n : Nat) :
    (xs.take (xs.length - n)).dropLast = xs.take (xs.length - (n + 1)) := by
  rw [List.dropLast_eq_take, List.take_take, List.length_take]
  congr 1
  omega

theorem resolveName_reached (dir : List Text) (at_ : Nat × List Text) (part : Text) :
    resolveName (reached dir at_) part = reached dir (climbStep at_ part) := by
  obtain ⟨ups, names⟩ := at_
  unfold resolveName climbStep
  split
  · rfl
  · split
    · cases names with
      | nil => simpa [reached] using dropLast_take_sub dir ups
      | cons name names => simp [reached, List.dropLast_append_of_ne_nil]
    · simp [reached]

theorem join_eq (dir : List Text) (path : Text) : join dir path = reached dir (climb path) := by
  have fold : ∀ (parts : List Text) (at_ : Nat × List Text),
      parts.foldl resolveName (reached dir at_) = reached dir (parts.foldl climbStep at_) := by
    intro parts
    induction parts with
    | nil => exact fun _ => rfl
    | cons part parts ih =>
      intro at_
      rw [List.foldl_cons, List.foldl_cons, resolveName_reached, ih]
  have start : reached dir (0, []) = dir := by simp [reached]
  rw [join, climb, ← fold, start]

theorem join_below_iff (dir : List Text) (path : Text) :
    dir <+: join dir path ↔ dir.drop (dir.length - (climb path).1) <+: (climb path).2 := by
  rw [join_eq, reached]
  have parts := List.take_append_drop (dir.length - (climb path).1) dir
  generalize dir.take (dir.length - (climb path).1) = top at *
  generalize dir.drop (dir.length - (climb path).1) = rest at *
  rw [← parts, List.prefix_append_right_inj]

theorem Conforms.read {host : Host} {manifest : Json} {events : List RestoreEvent} {p : Progress}
    (conforms : Conforms host manifest events p) {file : List Text} (listed : .readArtifact file ∈ events) :
    ∃ component, Chosen host manifest component ∧ file = artifactFile host component := by
  induction conforms with
  | none => cases listed
  | snoc _ next ih =>
    rcases List.mem_append.mp listed with before | last
    · exact ih before
    · obtain rfl := List.mem_singleton.mp last
      cases next with
      | readArtifact chosen => exact ⟨_, chosen, rfl⟩

/-- The file of the host that a restore reads lies below the snapshot's directory exactly when the path in the
manifest, if it leaves the directory at all, comes back by the directory's own names. -/
theorem read_below_iff (host : Host) (manifest : Json) (answers : List (Option ExecResult)) {file : List Text}
    (listed : .readArtifact file ∈ (cmdRestoreCleanService host manifest { answers }).2.events) :
    ∃ component, Chosen host manifest component ∧ (host.snapDir <+: file ↔
      host.snapDir.drop (host.snapDir.length - (climb (artifactPath component)).1) <+:
      (climb (artifactPath component)).2) := by
  obtain ⟨p, conforms⟩ := events_conform host manifest answers
  obtain ⟨component, chosen, rfl⟩ := conforms.read listed
  exact ⟨component, chosen, join_below_iff _ _⟩

def emptyHost : Host :=
  { snapDir := [['s']], guestCpu := "amd64", shellQuote := shellQuote, file := fun _ => none, sha256 := fun _ => "",
    boots := true, detaches := true, writesSummary := true }

/-- A path that leaves the snapshot directory and comes back to it. -/
theorem read_below_emulated : ∃ component, Chosen emptyHost (emulatedAt "../s/app.tar.gz") component ∧
    ([['s']] <+: [['s'], "app.tar.gz".toList] ↔
      [['s']].drop ([['s']].length - (climb (artifactPath component)).1) <+: (climb (artifactPath component)).2) :=
  read_below_iff emptyHost (emulatedAt "../s/app.tar.gz") [] (by decide +kernel)

end Machinen.CleanService
