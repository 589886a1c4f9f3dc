import Machinen.Session.Resume

/-! The end of a session. The worker records the exit of its child unless the child never wrote
anything: the last checkpoint is then requested at sequence 0, which the store refuses to take
by an assertion. -/
namespace Machinen.Session

namespace Worker

theorem flushOutput_none {w : Worker} (none_ : w.journal.pending.bytes = []) : w.flushOutput = w :=
  if_pos none_

theorem saveCheckpoint_sequence (w : Worker) : w.saveCheckpoint.journal.sequence = w.journal.sequence := by
  simp only [saveCheckpoint]
  split
  · rfl
  split
  · rfl
  split
  · rfl
  split <;> rfl

theorem saveCheckpoint_crashed (w : Worker) (alive : w.crashed = false) :
    w.saveCheckpoint.crashed = (w.outcome.1 && decide (w.journal.sequence = 0)) := by
  have outcome : w.outcome.2.crashed = false := alive
  simp only [saveCheckpoint]
  split
  · rename_i refused
    rw [show w.outcome.1 = false by simpa using refused]
    exact outcome
  rename_i allocated
  rw [show w.outcome.1 = true by simpa using allocated]
  split
  · rename_i zero
    rw [decide_eq_true zero]
    rfl
  rename_i some_
  rw [decide_eq_false some_]
  split
  · exact outcome
  split
  · exact outcome
  · exact outcome

theorem acceptClient_journal (w : Worker) (accepted : Option Accepted) (conn : Nat) :
    (w.acceptClient accepted conn).journal = w.journal := by
  unfold acceptClient
  split
  · rfl
  split
  · rfl
  split <;> rfl

theorem drainPty_none {w : Worker} {reads : List Bytes} (none_ : (reads.takeWhile (· ≠ [])).flatten = []) :
    w.drainPty reads = w := by
  cases reads with
  | nil => rfl
  | cons output more =>
    unfold drainPty
    by_cases empty : output = []
    · rw [if_pos empty]
    · rw [List.takeWhile_cons, if_pos (by simpa using empty), List.flatten_cons,
        List.append_eq_nil_iff] at none_
      exact absurd none_.1 empty

theorem publishOutput_sequence (w : Worker) (output : Bytes) :
    (w.publishOutput output).journal.sequence = w.journal.sequence + 1 := by
  have journal := (broadcastOutput_carries (w.recordOutput output) (w.recordOutput output).journal.sequence
    output).journal
  have recorded : (w.recordOutput output).journal.sequence = w.journal.sequence + 1 := rfl
  simp only [publishOutput]
  split
  · rw [saveCheckpoint_sequence, journal, recorded]
  · rw [journal, recorded]

theorem publishOutput_crashed (w : Worker) (output : Bytes) (alive : w.crashed = false) :
    (w.publishOutput output).crashed = false := by
  have carries := broadcastOutput_carries (w.recordOutput output) (w.recordOutput output).journal.sequence
    output
  have recorded : (w.recordOutput output).journal.sequence = w.journal.sequence + 1 := rfl
  have still : (w.recordOutput output).crashed = false := alive
  simp only [publishOutput]
  split
  · rw [saveCheckpoint_crashed _ (carries.crashed.trans still), carries.journal, recorded]
    exact Bool.and_eq_false_imp.mpr fun _ => decide_eq_false (Nat.succ_ne_zero _)
  · exact carries.crashed.trans still

theorem flushOutput_crashed (w : Worker) (alive : w.crashed = false) : w.flushOutput.crashed = false := by
  unfold flushOutput
  split
  · exact alive
  · exact publishOutput_crashed w _ alive

theorem broadcastExit_quiet (w : Worker) (code : Nat) : Quiet w (w.broadcastExit code) := by
  refine (carries_of_slots _ (fun v i => ?_) w).toQuiet
  split
  · rename_i wanted
    simp only [Bool.and_eq_true] at wanted
    refine sendOrClose_follows v i _ wanted.1 ?_ rfl
    simp only [exitFrame, Bytes.be_length, maxFramePayload]
    decide
  · exact ⟨Quiet.refl v, fun _ _ => rfl, .refl _⟩

theorem closeAll_quiet (w : Worker) : Quiet w (slots.foldl closeClient w) := by
  have each : ∀ (v : Worker) (i : Slot), SlotStep (fun _ _ => True) i v (v.closeClient i) :=
    fun v i => ⟨closeClient_quiet v i, fun j apart => closeClient_other v apart, trivial⟩
  exact (foldl_all_slots each w).1

end Worker

namespace Loop
open Worker

section Silence

variable {s t : Loop} {w : Worker} {input : Input}

theorem tracks_none {read : Bytes} (tracks : Tracks w.journal.pending.bytes read w) (silent : read = []) :
    w.journal.pending.bytes = [] := by
  have all := tracks.all
  rw [silent] at all
  exact (List.append_eq_nil_iff.mp all).2

theorem checkpointIfDue_sequence (none_ : w.journal.pending.bytes = []) (now : Nat) :
    (checkpointIfDue w now).journal.sequence = w.journal.sequence := by
  simp only [checkpointIfDue, flushOutput_none none_]
  split
  · exact saveCheckpoint_sequence w
  · rfl

theorem finishStep_sequence (s : Loop) (w : Worker) (code : Nat) :
    (s.finishStep w code).worker.journal.sequence = w.flushOutput.journal.sequence := by
  simp only [finishStep]
  split
  · exact saveCheckpoint_sequence _
  · have ended := (outcome_settles w.flushOutput.saveCheckpoint).trans
      ((broadcastExit_settles w.flushOutput.saveCheckpoint.outcome.2 code).trans
        (foldl_settles closeClient_settles slots _))
    exact ended.journal.sequence.trans (saveCheckpoint_sequence _)

theorem finishStep_read (s : Loop) (w : Worker) (code : Nat) : (s.finishStep w code).read = s.read := by
  simp only [finishStep]
  split <;> rfl

theorem phaseStep_silent (tracks : Tracks w.journal.pending.bytes s.read w) (alive : w.crashed = false)
    (flushed : ∀ i, s.phase = .serving i → w.journal.pending.bytes = [])
    (zero : s.read = [] → w.journal.sequence = 0) (moved : s.phaseStep w input = some t) :
    t.read = [] → t.worker.journal.sequence = 0 := by
  have settled {v : Worker} (settles : Settles w v) (silent : s.read = []) : v.journal.sequence = 0 :=
    settles.journal.sequence.trans (zero silent)
  unfold phaseStep at moved
  split at moved
  · rw [← Option.some.inj moved]
    unfold pollStep
    split
    · exact zero
    · exact zero
  · rw [← Option.some.inj moved]
    intro silent
    have same := (refreshGeometryOwner_carries w).journal
    dsimp only at silent ⊢
    rw [same]
    exact zero silent
  · simp only [acceptStep] at moved
    split at moved
    · rw [← Option.some.inj moved]
      exact zero
    split at moved
    · exact absurd moved (by simp)
    · rw [← Option.some.inj moved]
      intro silent
      rw [acceptClient_journal]
      exact zero silent
  · rw [← Option.some.inj moved]
    simp only [ptyStep]
    split
    · exact zero
    split
    · exact zero
    · rename_i some_
      exact fun silent => absurd (List.append_eq_nil_iff.mp silent).2 some_
  · rw [← Option.some.inj moved]
    intro silent
    obtain ⟨before, none_⟩ := List.append_eq_nil_iff.mp silent
    unfold drainStep
    rw [drainPty_none none_]
    exact zero before
  · rename_i i _
    rw [← Option.some.inj moved]
    unfold flushingStep
    split
    · exact zero
    split
    · intro silent
      have noted := notePoll_settles s w i
      have none_ : (s.notePoll w i).journal.pending.bytes = [] :=
        (congrArg OutputBatch.bytes noted.journal.pending).trans (tracks_none tracks silent)
      rw [flushOutput_none none_]
      exact settled noted silent
    · exact zero
  · rename_i i here
    rw [← Option.some.inj moved]
    have empty := flushed i here
    have serviced := serviceClient_serviced w i input.frame (empty ▸ tracks.sound) alive tracks.known
    exact fun silent => serviced.journal.sequence.trans (zero silent)
  · rename_i i _
    rw [← Option.some.inj moved]
    unfold hangupStep
    split
    · exact settled ((notePoll_settles s w i).trans (closeClient_settles _ i))
    · exact zero
  · rw [← Option.some.inj moved]
    intro silent
    have same := (refreshGeometryOwner_carries w).journal
    dsimp only at silent ⊢
    rw [same]
    exact zero silent
  · rw [← Option.some.inj moved]
    intro silent
    have none_ : w.monotonicMilliseconds.journal.pending.bytes = [] := tracks_none (w := w) tracks silent
    simp only [dueStep, flushIfDue, flushOutput_none none_, ite_self]
    rw [checkpointIfDue_sequence none_]
    exact zero silent
  · rw [← Option.some.inj moved]
    intro silent
    rw [finishStep_read] at silent
    rw [finishStep_sequence, flushOutput_none (tracks_none tracks silent)]
    exact zero silent
  · exact absurd moved (by simp)

end Silence

/-- What is known of a worker whose child may not have written anything yet. -/
structure Counts (s : Loop) : Prop where
  exact : Exact s
  zero : s.read = [] → s.worker.journal.sequence = 0

theorem step_counts (s : Loop) (input : Input) (t : Loop) (before : Counts s)
    (moved : step s input = some t) : Counts t := by
  refine ⟨step_exact s input t before.exact moved, ?_⟩
  obtain ⟨alive, moved⟩ := phaseStep_of_step moved
  exact phaseStep_silent (w := s.entered input)
    ⟨before.exact.tracks.sound, before.exact.tracks.known, before.exact.tracks.all⟩
    alive before.exact.flushed before.zero moved

theorem flushOutput_zero {s : Loop} (counts : Counts s) (input : Input) :
    (s.entered input).flushOutput.journal.sequence = 0 ↔ s.read = [] := by
  have tracks := counts.exact.tracks
  constructor
  · intro zero
    unfold flushOutput at zero
    split at zero
    · rename_i none_
      have pending : s.worker.journal.pending.bytes = [] := none_
      have outputs : s.worker.journal.outputs = [] :=
        List.length_eq_zero_iff.mp (tracks.sound.counted.trans zero)
      rw [← tracks.all, outputs, pending]
      rfl
    · have more : ((s.entered input).publishOutput
        (s.entered input).journal.pending.bytes).journal.sequence = 0 := zero
      rw [publishOutput_sequence] at more
      exact nomatch more
  · intro silent
    have none_ : (s.entered input).journal.pending.bytes = [] := tracks_none (w := s.worker) tracks silent
    rw [flushOutput_none none_]
    exact counts.zero silent

/-- Whether the statement of setExited succeeds, if the worker comes to it. -/
def exitStatement (s : Loop) (input : Input) : Bool :=
  (s.entered input).flushOutput.saveCheckpoint.outcome.1

theorem finishStep_recorded (s : Loop) (input : Input) :
    ((s.finishStep (s.entered input) input.exitCode).worker.crashed = false ∧
      (s.finishStep (s.entered input) input.exitCode).exitRecorded = true) ↔
    (s.entered input).flushOutput.saveCheckpoint.crashed = false ∧ s.exitStatement input = true := by
  simp only [finishStep, exitStatement]
  split
  · rename_i crashed
    rw [crashed]
    exact iff_of_false (fun both => Bool.false_ne_true both.1.symm) fun both => Bool.false_ne_true both.1.symm
  · rename_i goes
    have quiet := (broadcastExit_quiet (s.entered input).flushOutput.saveCheckpoint.outcome.2
      input.exitCode).trans (closeAll_quiet _)
    dsimp only
    rw [quiet.crashed]
    rfl

/-- The exit of the child is recorded just when the child has written something by then, or the
last checkpoint has no room in memory. -/
theorem exit_recorded_iff (columns rows checkpointBytes : Nat) (positive : 0 < columns ∧ 0 < rows)
    (paint : List VtCommand → Bytes) (inputs : List Input) (s t : Loop) (input : Input)
    (ran : exec (start columns rows checkpointBytes positive paint) inputs = some s)
    (here : s.phase = .finish) (moved : s.step input = some t) (statement : s.exitStatement input = true) :
    (t.worker.crashed = false ∧ t.exitRecorded = true) ↔ s.read ≠ [] ∨
      input.env.outcomes.head? = some false := by
  have counts : Counts s := Run.exec_invariant step_counts inputs
    ⟨start_exact columns rows checkpointBytes positive paint, fun _ => rfl⟩ ran
  obtain ⟨alive, moved⟩ := phaseStep_of_step moved
  unfold phaseStep at moved
  rw [here] at moved
  rw [← Option.some.inj moved, finishStep_recorded s input,
    saveCheckpoint_crashed _ (flushOutput_crashed (s.entered input) alive), and_iff_left statement]
  have zero := flushOutput_zero counts input
  by_cases silent : s.read = []
  · have none_ : (s.entered input).journal.pending.bytes = [] :=
      tracks_none (w := s.worker) counts.exact.tracks silent
    rw [decide_eq_true (zero.mpr silent), Bool.and_true, or_iff_right (not_not.mpr silent),
      flushOutput_none none_]
    change input.env.outcomes.headD true = false ↔ _
    cases input.env.outcomes with
    | nil => exact iff_of_false nofun nofun
    | cons outcome rest => simp
  · rw [decide_eq_false fun none_ => silent (zero.mp none_), Bool.and_false]
    exact iff_of_true rfl (.inl silent)

/-- A child that writes `a` and exits, and one that only exits. -/
def speaking : List Input :=
  [{ polled := some { pty := { readable := true, hungUp := true } } }, quiet, quiet, { reads := [[0x61]] },
    quiet]

def mute : List Input := [{ polled := some { pty := { hungUp := true } } }, quiet, quiet, quiet, quiet]

theorem exit_recorded_speaking : ∃ s t, exec (start 80 24 0 (by decide) fun _ => []) speaking = some s ∧
    s.step quiet = some t ∧ s.read ≠ [] ∧
    ((t.worker.crashed = false ∧ t.exitRecorded = true) ↔ s.read ≠ [] ∨
      quiet.env.outcomes.head? = some false) := by
  have runs : ((exec (start 80 24 0 (by decide) fun _ => []) speaking).any fun s =>
      decide (s.phase = .finish) && (s.step quiet).isSome && s.exitStatement quiet && decide
        (s.read ≠ [])) = true := by
    decide +kernel
  obtain ⟨s, ran, facts⟩ := (Option.any_eq_true _ _).mp runs
  simp only [Bool.and_eq_true, decide_eq_true_eq] at facts
  obtain ⟨⟨⟨here, moves⟩, statement⟩, spoken⟩ := facts
  obtain ⟨t, moved⟩ := Option.isSome_iff_exists.mp moves
  exact ⟨s, t, ran, moved, spoken,
    exit_recorded_iff 80 24 0 (by decide) (fun _ => []) speaking s t quiet ran here moved statement⟩

/-- Nothing was written: the worker stops in an assertion, and its session goes on as running. -/
theorem mute_child_unrecorded : ∃ s t, exec (start 80 24 0 (by decide) fun _ => []) mute = some s ∧
    s.phase = .finish ∧ s.step quiet = some t ∧ s.exitStatement quiet = true ∧
    t.worker.crashed = true ∧ t.exitRecorded = false := by
  have runs : ((exec (start 80 24 0 (by decide) fun _ => []) mute).any fun s =>
      decide (s.phase = .finish) && s.exitStatement quiet &&
        (s.step quiet).any fun t => t.worker.crashed && !t.exitRecorded) = true := by decide +kernel
  obtain ⟨s, ran, facts⟩ := (Option.any_eq_true _ _).mp runs
  simp only [Bool.and_eq_true, decide_eq_true_eq] at facts
  obtain ⟨⟨here, statement⟩, ends⟩ := facts
  obtain ⟨t, moved, stopped⟩ := (Option.any_eq_true _ _).mp ends
  simp only [Bool.and_eq_true, Bool.not_eq_true'] at stopped
  exact ⟨s, t, ran, here, moved, statement, stopped⟩

end Loop
end Machinen.Session
