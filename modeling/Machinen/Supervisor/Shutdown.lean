import Machinen.Supervisor.Forwarding

/-! The supervisor always shuts down: one final sync after the workload's end, the retained
status, and `power_off` after boundedly many steps of its own. -/
namespace Machinen.Supervisor

/-- The first cleanup failure of a run; the log has the newest event first. -/
def firstFailure : List Event → Nat
  | [] => 0
  | .cleaned status :: log => if firstFailure log = 0 then status else firstFailure log
  | _ :: log => firstFailure log

theorem keepFirst_eq (cleanup status : Nat) :
    keepFirst cleanup status = if cleanup = 0 then status else cleanup := by
  unfold keepFirst
  split_ifs <;> omega

def State.Exited (s : State) (status : Nat) : Prop :=
  ∃ w ∈ s.workload, ∃ code, w.exited = some code ∧ waitStatusCode code = status

def Pc.status? : Pc → Option Nat
  | .killGroup _ status | .clearPid status | .findScript status | .forkSync status | .waitSync status _
  | .removeScript status | .stopSidecars status _ _ | .probeSidecar status _ _ => some status
  | _ => none

/-- The pids that are still to be stopped, and the first failure so far. -/
def Pc.sidecars? : Pc → Option (Nat × List Int)
  | .stopSidecars _ cleanup pids | .probeSidecar _ cleanup pids => some (cleanup, pids)
  | _ => none

def Pc.unsynced : Pc → Bool
  | .waitSync _ _ | .removeScript _ | .stopSidecars _ _ _ | .probeSidecar _ _ _ | .powerOff _ | .trapped => false
  | _ => true

def Pc.uncleaned : Pc → Bool
  | .stopSidecars _ _ _ | .probeSidecar _ _ _ | .powerOff _ | .trapped => false
  | _ => true

structure Orderly (s : State) : Prop where
  forked : 0 ≤ s.agentPid ∧ 0 ≤ s.winsizePid
  sidecars : ∀ cleanup pids, s.pc.sidecars? = some (cleanup, pids) → (∀ pid ∈ pids, 0 ≤ pid) ∧
    cleanup = firstFailure s.log
  untrapped : s.pc ≠ .trapped
  recorded : ∀ child, s.pc = .loadPending child → s.globals.pendingSignal.isSome
  status : ∀ status, s.pc.status? = some status → s.Exited status
  unsynced : s.pc.unsynced → s.syncRuns = 0
  once : s.syncRuns ≤ 1
  late : 0 < s.syncRuns → ∃ status, s.Exited status
  uncleaned : s.pc.uncleaned → firstFailure s.log = 0
  retained : ∀ retained, s.pc = .powerOff retained → s.workload = none ∨
    ∃ status, s.Exited status ∧ retained = chooseRetainedStatus status (firstFailure s.log)

/-- What the handlers and the workload do beside `main`. -/
structure Aside (s t : State) : Prop where
  pc : t.pc = s.pc
  agentPid : t.agentPid = s.agentPid
  winsizePid : t.winsizePid = s.winsizePid
  syncRuns : t.syncRuns = s.syncRuns
  recorded : s.globals.pendingSignal.isSome → t.globals.pendingSignal.isSome
  failure : firstFailure t.log = firstFailure s.log
  exited : ∀ status, s.Exited status → t.Exited status
  absent : s.workload = none → t.workload = none

variable {s t : State} {outcome : Outcome} {boot : Boot}

theorem Orderly.aside (inv : Orderly s) (same : Aside s t) : Orderly t := by
  constructor
  · rw [same.agentPid, same.winsizePid]
    exact inv.forked
  · rw [same.pc, same.failure]
    exact inv.sidecars
  · rw [same.pc]
    exact inv.untrapped
  · rw [same.pc]
    exact fun child pc => same.recorded (inv.recorded child pc)
  · rw [same.pc]
    exact fun status pc => same.exited status (inv.status status pc)
  · rw [same.pc, same.syncRuns]
    exact inv.unsynced
  · rw [same.syncRuns]
    exact inv.once
  · rw [same.syncRuns]
    exact fun ran => (inv.late ran).imp same.exited
  · rw [same.pc, same.failure]
    exact inv.uncleaned
  · rw [same.pc, same.failure]
    intro retained pc
    exact (inv.retained retained pc).imp same.absent fun found => found.imp fun status =>
      And.imp_left (same.exited status)

theorem State.deliver_aside (s : State) (sig : Sig) : Aside s (s.deliver sig) := by
  cases there : s.workload with
  | none => rw [s.deliver_none there]; exact ⟨rfl, rfl, rfl, rfl, id, rfl, fun _ => id, id⟩
  | some w =>
    rw [s.deliver_some there]
    refine ⟨rfl, rfl, rfl, rfl, id, ?_, ?_, fun absent => nomatch there.symm.trans absent⟩
    · unfold Workload.deliver
      split_ifs <;> rfl
    · rintro status ⟨w', there', code, exited, same⟩
      obtain rfl := Option.some.inj (there.symm.trans there')
      refine ⟨_, rfl, code, ?_, same⟩
      unfold Workload.deliver
      rw [if_pos (by rw [exited]; rfl)]
      exact exited

theorem State.expire_aside (s : State) (sig : Sig) : Aside s (s.expire sig) := by
  unfold State.expire
  split <;> exact ⟨rfl, rfl, rfl, rfl, id, rfl, fun _ => id, id⟩

theorem forwardStep_aside {call : Call} {left : Option Call}
    (step : forwardStep s call outcome = some (left, t)) : Aside s t := by
  cases forwardStep_cases step with
  | stored => exact ⟨rfl, rfl, rfl, rfl, fun _ => rfl, rfl, fun _ => id, id⟩
  | kept | went => exact ⟨rfl, rfl, rfl, rfl, id, rfl, fun _ => id, id⟩
  | sentGroup | sent => exact s.deliver_aside _
  | failed => exact s.expire_aside _

theorem workloadStep_aside {a : WorkloadAction} (step : s.workloadStep a = some t) :
    Aside s t := by
  obtain ⟨w, there, step⟩ := Option.bind_eq_some_iff.mp step
  obtain ⟨w', moved, step⟩ := Option.bind_eq_some_iff.mp step
  obtain rfl := Option.some.inj step
  refine ⟨rfl, rfl, rfl, rfl, id, ?_, ?_, fun absent => nomatch there.symm.trans absent⟩
  · dsimp only
    split <;> rfl
  · rintro status ⟨w'', there', code, exited, -⟩
    obtain rfl := Option.some.inj (there.symm.trans there')
    unfold Workload.step at moved
    rw [if_pos (by rw [exited]; rfl)] at moved
    exact nomatch moved

theorem Orderly.synced (inv : Orderly s) {status : Nat} (result : Nat)
    (ended : s.pc.status? = some status)
    (uncleaned : s.pc.uncleaned) : Orderly (s.synced status result) := by
  have exited := inv.status status ended
  refine ⟨inv.forked, ?_, nofun, nofun, ?_, nofun, inv.once, inv.late, nofun, nofun⟩
  · intro cleanup pids same
    obtain ⟨rfl, rfl⟩ := Prod.mk.inj (Option.some.inj same)
    refine ⟨?_, ?_⟩
    · simp only [List.mem_cons, List.not_mem_nil, or_false, forall_eq_or_imp, forall_eq]
      exact inv.forked.symm
    · change result = if firstFailure s.log = 0 then result else _
      rw [if_pos (inv.uncleaned uncleaned)]
  · intro status' same
    exact Option.some.inj same ▸ exited

theorem Orderly.stopped (inv : Orderly s) {status cleanup : Nat} {pids : List Int} (result : Nat)
    (ended : s.pc.status? = some status) (first : cleanup = firstFailure s.log)
    (positive : ∀ pid ∈ pids, 0 ≤ pid) : Orderly (s.stopped status cleanup pids result) := by
  have exited := inv.status status ended
  refine ⟨inv.forked, ?_, nofun, nofun, ?_, nofun, inv.once, inv.late, nofun, nofun⟩
  · intro cleanup' pids' same
    obtain ⟨rfl, rfl⟩ := Prod.mk.inj (Option.some.inj same)
    refine ⟨positive, ?_⟩
    rw [keepFirst_eq, first]
    rfl
  · intro status' same
    exact Option.some.inj same ▸ exited

theorem Orderly.on (inv : Orderly s) (forked : 0 ≤ t.agentPid ∧ 0 ≤ t.winsizePid)
    (sidecars : t.pc.sidecars? = none) (untrapped : t.pc ≠ .trapped)
    (running : ∀ retained, t.pc ≠ .powerOff retained)
    (recorded : ∀ child, t.pc = .loadPending child → t.globals.pendingSignal.isSome)
    (status : ∀ status, t.pc.status? = some status → t.Exited status)
    (unsynced : t.pc.unsynced → s.pc.unsynced) (uncleaned : s.pc.uncleaned)
    (exited : ∀ status, s.Exited status → t.Exited status) (runs : t.syncRuns = s.syncRuns)
    (log : t.log = s.log) : Orderly t := by
  refine ⟨forked, fun cleanup pids same => (nomatch sidecars.symm.trans same), untrapped, recorded, status,
    ?_, ?_, ?_, ?_,
    fun retained pc => absurd pc (running retained)⟩
  · rw [runs]
    exact fun there => inv.unsynced (unsynced there)
  · rw [runs]
    exact inv.once
  · rw [runs]
    exact fun ran => (inv.late ran).imp exited
  · rw [log]
    exact fun _ => inv.uncleaned uncleaned

theorem Orderly.main (inv : Orderly s) (forwarding : Forwarding s) (handlers : s.handlers = [])
    (harmless : Harmless boot s (.advance outcome)) (step : mainStep boot s outcome = some t) :
    Orderly t := by
  cases mainStep_cases step with
  | spawnedAgent pc result forked =>
    have worked : result ≠ -1 := by
      unfold Harmless at harmless
      rw [handlers, pc] at harmless
      exact fun failed => harmless (by rw [failed])
    have positive : 0 ≤ result := Int.le_of_lt (forked.resolve_left worked)
    exact inv.on ⟨positive, inv.forked.2⟩ rfl nofun nofun nofun nofun (fun _ => by rw [pc]; rfl)
      (by rw [pc]; rfl) (fun _ => id) rfl rfl
  | spawnedWinsize pc result there forked =>
    have worked : result ≠ -1 := by
      unfold Harmless at harmless
      rw [handlers, pc] at harmless
      exact fun failed => harmless there (by rw [failed])
    have positive : 0 ≤ result := Int.le_of_lt (forked.resolve_left worked)
    exact inv.on ⟨inv.forked.1, positive⟩ rfl nofun nofun nofun nofun (fun _ => by rw [pc]; rfl)
      (by rw [pc]; rfl) (fun _ => id) rfl rfl
  | noWinsize pc =>
    exact inv.on ⟨inv.forked.1, Int.le_refl 0⟩ rfl nofun nofun nofun nofun (fun _ => by rw [pc]; rfl)
      (by rw [pc]; rfl) (fun _ => id) rfl rfl
  | fatal pc =>
    have absent := (forwarding.unborn (.inr (.inr pc))).1
    exact ⟨inv.forked, nofun, nofun, nofun, nofun, nofun, inv.once, inv.late, nofun, fun _ _ => .inl absent⟩
  | spawned pc child =>
    have absent := (forwarding.unborn (.inr (.inr pc))).1
    refine inv.on inv.forked rfl nofun nofun nofun nofun (fun _ => by rw [pc]; rfl) (by rw [pc]; rfl) ?_ rfl
      rfl
    rintro status ⟨w, there, -⟩
    exact nomatch absent.symm.trans there
  | stored child result pc | grouped child result pc | nonePending child result pc | loaded child result pc =>
    exact inv.on inv.forked rfl nofun nofun nofun nofun (fun _ => by rw [pc]; rfl) (by rw [pc]; rfl)
      (fun _ => id) rfl rfl
  | pending child result pc recorded =>
    exact inv.on inv.forked rfl nofun nofun (fun _ _ => recorded) nofun (fun _ => by rw [pc]; rfl)
      (by rw [pc]; rfl) (fun _ => id) rfl rfl
  | forwarded call child pc _ left t' forward =>
    have inv := inv.aside (forwardStep_aside forward)
    have pc : t'.pc = .forward call child := (forwardStep_aside forward).pc.trans pc
    cases left with
    | none | some =>
      exact inv.on inv.forked rfl nofun nofun nofun nofun (fun _ => by rw [pc]; rfl) (by rw [pc]; rfl)
        (fun _ => id) rfl rfl
  | reaped child pc w code there exited =>
    refine inv.on inv.forked rfl nofun nofun nofun ?_ (fun _ => by rw [pc]; rfl) (by rw [pc]; rfl)
      (fun _ => id) rfl rfl
    intro status same
    exact ⟨w, there, code, exited, Option.some.inj same⟩
  | reapedOther | interrupted | syncInterrupted => exact inv
  | killed child status pc | cleared status pc | foundScript status pc =>
    have exited : s.Exited status := inv.status status (by rw [pc]; rfl)
    exact inv.on inv.forked rfl nofun nofun nofun (fun _ same => Option.some.inj same ▸ exited)
      (fun _ => by rw [pc]; rfl)
      (by rw [pc]; rfl) (fun _ => id) rfl rfl
  | syncDone status pid pc =>
    have exited : s.Exited status := inv.status status (by rw [pc]; rfl)
    exact inv.on inv.forked rfl nofun nofun nofun (fun _ same => Option.some.inj same ▸ exited) nofun
      (by rw [pc]; rfl) (fun _ => id) rfl rfl
  | syncing status pc =>
    have exited : s.Exited status := inv.status status (by rw [pc]; rfl)
    have none_yet : s.syncRuns = 0 := inv.unsynced (by rw [pc]; rfl)
    refine ⟨inv.forked, nofun, nofun, nofun, fun _ same => Option.some.inj same ▸ exited, nofun, ?_,
      fun _ => ⟨status, exited⟩,
      fun _ => inv.uncleaned (by rw [pc]; rfl), nofun⟩
    change s.syncRuns + 1 ≤ 1
    omega
  | noScript status pc | noSync status pc | syncFailed status pid pc | removed status pc =>
    exact inv.synced _ (by rw [pc]; rfl) (by rw [pc]; rfl)
  | retained status cleanup pc =>
    have exited : s.Exited status := inv.status status (by rw [pc]; rfl)
    obtain ⟨-, first⟩ := inv.sidecars cleanup [] (by rw [pc]; rfl)
    refine ⟨inv.forked, nofun, nofun, nofun, nofun, nofun, inv.once, inv.late, nofun, ?_⟩
    intro retained same
    exact .inr ⟨status, exited, first ▸ (Pc.powerOff.inj same).symm⟩
  | trapped status cleanup pid pids pc negative =>
    obtain ⟨positive, -⟩ := inv.sidecars cleanup (pid :: pids) (by rw [pc]; rfl)
    exact absurd (positive pid List.mem_cons_self) (by omega)
  | stopped status cleanup pid pids pc =>
    obtain ⟨positive, first⟩ := inv.sidecars cleanup (pid :: pids) (by rw [pc]; rfl)
    exact inv.stopped 0 (by rw [pc]; rfl) first fun other mem => positive other (List.mem_cons_of_mem _ mem)
  | probing status cleanup pid pids pc =>
    have exited : s.Exited status := inv.status status (by rw [pc]; rfl)
    obtain ⟨positive, first⟩ := inv.sidecars cleanup (pid :: pids) (by rw [pc]; rfl)
    refine ⟨inv.forked, ?_, nofun, nofun, fun _ same => Option.some.inj same ▸ exited, nofun, inv.once,
      inv.late, nofun, nofun⟩
    intro cleanup' pids' same
    obtain ⟨rfl, rfl⟩ := Prod.mk.inj (Option.some.inj same)
    exact ⟨fun other mem => positive other (List.mem_cons_of_mem _ mem), first⟩
  | probed status cleanup pids pc result =>
    obtain ⟨positive, first⟩ := inv.sidecars cleanup pids (by rw [pc]; rfl)
    exact inv.stopped _ (by rw [pc]; rfl) first positive

theorem Orderly.step {a : Action} (inv : Orderly s) (forwarding : Forwarding s)
    (harmless : Harmless boot s a) (step : step boot s a = some t) : Orderly t := by
  cases a with
  | arrive sig =>
    change arrive s sig = some t at step
    unfold arrive at step
    split at step
    · exact nomatch step
    · exact Option.some.inj step ▸ inv.aside ⟨rfl, rfl, rfl, rfl, id, rfl, fun _ => id, id⟩
  | workload a => exact inv.aside (workloadStep_aside step)
  | advance outcome =>
    change advance boot s outcome = some t at step
    unfold advance at step
    split at step
    · rename_i handlers
      exact inv.main forwarding handlers harmless step
    · obtain ⟨⟨left, t'⟩, forward, step⟩ := Option.bind_eq_some_iff.mp step
      obtain rfl := Option.some.inj step
      obtain ⟨pc, agentPid, winsizePid, syncRuns, recorded, failure, exited, absent⟩ :=
        forwardStep_aside forward
      exact inv.aside ⟨pc, agentPid, winsizePid, syncRuns, recorded, failure, exited, absent⟩

theorem Orderly.start : Orderly {} :=
  ⟨⟨Int.le_refl 0, Int.le_refl 0⟩, nofun, nofun, nofun, nofun, fun _ => rfl, Nat.zero_le 1, nofun,
    fun _ => rfl, nofun⟩

def Call.rank (call : Call) : Nat :=
  match call.stage with
  | .store => 4
  | .read => 3
  | .group => 2
  | .process => 1

/-- How many of its own steps `main` may still take, its waits apart. -/
def Pc.rank : Pc → Nat
  | .spawnAgent => 23
  | .spawnWinsize => 22
  | .spawnWorkload => 21
  | .storePid _ => 20
  | .storeGroup _ => 19
  | .checkPending _ => 18
  | .loadPending _ => 17
  | .forward call _ => 12 + call.rank
  | .waitWorkload _ => 12
  | .killGroup _ _ => 11
  | .clearPid _ => 10
  | .findScript _ => 9
  | .forkSync _ => 8
  | .waitSync _ _ => 7
  | .removeScript _ => 6
  | .stopSidecars _ _ pids => 2 * pids.length + 1
  | .probeSidecar _ _ pids => 2 * pids.length + 2
  | .powerOff _ | .trapped => 0

def State.rank (s : State) : Nat := s.pc.rank + (s.handlers.map Call.rank).sum

theorem forwardStep_rank {call : Call} {left : Option Call}
    (step : forwardStep s call outcome = some (left, t)) : (left.toList.map Call.rank).sum < call.rank := by
  cases forwardStep_cases step with
  | stored stage => simp [Call.rank, stage]
  | kept stage => simp [Call.rank, stage]
  | went stage later =>
    rcases later with ⟨stage, -, rfl | rfl⟩ | ⟨stage, rfl⟩ <;> simp [Call.rank, stage]
  | sentGroup stage => simp [Call.rank, stage]
  | sent stage => simp [Call.rank, stage]
  | failed stage => simp [Call.rank, stage]

theorem forwardStep_handlers {call : Call} {left : Option Call}
    (step : forwardStep s call outcome = some (left, t)) : t.handlers = s.handlers := by
  cases forwardStep_cases step with
  | stored | kept | went => rfl
  | sentGroup | sent => exact (s.deliver_elsewhere _).handlers
  | failed => exact (s.expire_elsewhere _).handlers

theorem mainStep_rank (step : mainStep boot s outcome = some t) :
    t.rank < s.rank ∨ t = s ∧ (outcome = .interrupted ∨ ∃ child pid code, s.pc = .waitWorkload child ∧
      outcome = .reaped pid code ∧ pid ≠ child) := by
  cases mainStep_cases step with
  | interrupted | syncInterrupted => exact .inr ⟨rfl, .inl rfl⟩
  | reapedOther child pid pc other code => exact .inr ⟨rfl, .inr ⟨child, pid, code, pc, rfl, other⟩⟩
  | forwarded call child pc _ left t' forward =>
    have less := forwardStep_rank forward
    refine .inl ?_
    unfold State.rank
    dsimp only
    rw [pc, forwardStep_handlers forward]
    cases left with
    | none =>
      simp only [Option.toList, List.map_nil, List.sum_nil] at less
      simp only [Pc.afterForward, Pc.rank]
      omega
    | some left =>
      simp only [Option.toList, List.map_cons, List.map_nil, List.sum_cons, List.sum_nil] at less
      simp only [Pc.afterForward, Pc.rank]
      omega
  | _ =>
    refine .inl ?_
    simp [State.rank, State.synced, State.stopped, *, Pc.rank, Call.rank] <;> omega

def Action.isAdvance : Action → Bool
  | .advance _ => true
  | _ => false

def turns (boot : Boot) : State → List Action → Nat
  | _, [] => 0
  | s, a :: as =>
    match step boot s a with
    | none => 0
    | some t => (if a.isAdvance ∧ t ≠ s then 1 else 0) + turns boot t as

def Advances (boot : Boot) (s : State) : Prop :=
  ∃ outcome t, advance boot s outcome = some t ∧ t.rank < s.rank

theorem forwardStep_some (s : State) (call : Call) :
    ∃ left t, forwardStep s call (.returned (-1)) = some (left, t) := by
  unfold forwardStep
  cases call.stage with
  | store | read | process => exact ⟨_, _, rfl⟩
  | group => exact ⟨_, _, if_neg (by decide)⟩

theorem advances_of_main {result : Int} (handlers : s.handlers = [])
    (step : mainStep boot s (.returned result) = some t) : Advances boot s := by
  refine ⟨.returned result, t, ?_, ?_⟩
  · unfold advance
    rw [handlers]
    exact step
  · rcases mainStep_rank step with less | ⟨-, none_ | ⟨_, _, _, -, none_, -⟩⟩
    · exact less
    · exact nomatch none_
    · exact nomatch none_

/-- It stands still only at `power_off`, and where the workload still runs. -/
theorem Orderly.advances (inv : Orderly s) (forwarding : Forwarding s) :
    (∃ retained, s.pc = .powerOff retained) ∨ Advances boot s ∨
      ∃ child w, s.pc = .waitWorkload child ∧ s.workload = some w ∧ w.exited = none := by
  cases handlers : s.handlers with
  | cons call rest =>
    obtain ⟨left, t, forward⟩ := forwardStep_some s call
    have step : advance boot s (.returned (-1)) = some { t with handlers := left.toList ++ rest } := by
      unfold advance
      rw [handlers]
      change (forwardStep s call _).bind _ = _
      rw [forward]
      rfl
    have less := forwardStep_rank forward
    refine .inr (.inl ⟨_, _, step, ?_⟩)
    unfold State.rank
    dsimp only
    rw [(forwardStep_aside forward).pc, handlers, List.map_append, List.sum_append, List.map_cons,
      List.sum_cons]
    omega
  | nil =>
    have main (result : Int) (some_ : (mainStep boot s (.returned result)).isSome) : Advances boot s := by
      obtain ⟨t, step⟩ := Option.isSome_iff_exists.mp some_
      exact advances_of_main handlers step
    cases pc : s.pc with
    | powerOff retained => exact .inl ⟨retained, rfl⟩
    | trapped => exact absurd pc inv.untrapped
    | waitWorkload child =>
      obtain ⟨w, there⟩ := Option.isSome_iff_exists.mp (forwarding.ready (.inr (by rw [pc]; rfl))).2
      cases exited : w.exited with
      | none => exact .inr (.inr ⟨child, w, rfl, there, exited⟩)
      | some code =>
        have step : mainStep boot s (.reaped child code) =
          some { s with pc := .killGroup child (waitStatusCode code) } := by
          rw [mainStep.eq_def, pc]
          simp [there, exited]
        refine .inr (.inl ⟨_, _, by unfold advance; rw [handlers]; exact step, ?_⟩)
        rcases mainStep_rank step with less | ⟨-, none_ | ⟨_, _, _, pc', same, other⟩⟩
        · exact less
        · exact nomatch none_
        · rw [pc] at pc'
          exact absurd ((Outcome.reaped.inj same).1.symm.trans (Pc.waitWorkload.inj pc')) other
    | waitSync status pid =>
      have step : mainStep boot s (.reaped pid 0) = some { s with pc := .removeScript status } := by
        rw [mainStep.eq_def, pc]
        simp [waitStatusCode]
      refine .inr (.inl ⟨_, _, by unfold advance; rw [handlers]; exact step, ?_⟩)
      rcases mainStep_rank step with less | ⟨-, none_ | ⟨_, _, _, pc', -, -⟩⟩
      · exact less
      · exact nomatch none_
      · exact nomatch pc.symm.trans pc'
    | loadPending child =>
      refine .inr (.inl (main 0 ?_))
      rw [mainStep.eq_def, pc]
      simp [inv.recorded child pc]
    | forward call child =>
      obtain ⟨left, t, forward⟩ := forwardStep_some s call
      refine .inr (.inl (main (-1) ?_))
      rw [mainStep.eq_def, pc]
      simp [forward]
    | stopSidecars status cleanup pids =>
      refine .inr (.inl (main 0 ?_))
      rw [mainStep.eq_def, pc]
      cases pids <;> rfl
    | spawnAgent | spawnWinsize | spawnWorkload | storePid | storeGroup | checkPending | killGroup |
        clearPid | findScript
    | forkSync | removeScript | probeSidecar =>
      refine .inr (.inl (main 1 ?_))
      rw [mainStep.eq_def, pc]
      dsimp only
      repeat' split
      all_goals first | rfl | contradiction

end Machinen.Supervisor
