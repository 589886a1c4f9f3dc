import Machinen.Supervisor.Main

/-! Every termination signal reaches the workload: what each signal's delivery rests on, from its
arrival to the `kill` that finds the workload, in every stage of `main`. -/
namespace Machinen.Supervisor

def Sig.other : Sig → Sig
  | .term => .int
  | .int => .term

variable {sig : Sig} {s t : State} {call : Call} {outcome : Outcome} {rest : List Call}

theorem Sig.eq_of_ne_other {other : Sig} (ne : other ≠ sig.other) : other = sig := by
  cases sig <;> cases other <;> first | rfl | exact absurd rfl ne

inductive Phase where
  | early
  | loading
  | forwarding
  | closed
  deriving DecidableEq

/-- `early` until the pid is stored, `loading` until the pending signal is read, `forwarding`
until the workload is reaped. -/
def Pc.phase : Pc → Phase
  | .spawnAgent | .spawnWinsize | .spawnWorkload | .storePid _ => .early
  | .storeGroup _ | .checkPending _ | .loadPending _ => .loading
  | .forward _ _ | .waitWorkload _ => .forwarding
  | _ => .closed

/-- The last `kill` of a call finds a workload that has reset the signal, or that has exited. -/
def Lands (s : State) (call : Call) (outcome : Outcome) : Prop :=
  call.stage = .process → ∀ w ∈ s.workload, w.exited = none → outcome = .returned 0 ∧
    w.start.resets call.sig

instance (s : State) (call : Call) (outcome : Outcome) : Decidable (Lands s call outcome) :=
  inferInstanceAs (Decidable (_ → _))

/-- The condition on a step: until the pending signal is read none comes of the other kind than
one that came before the pid was there, each call lands, and both sidecars are forked. -/
def Harmless (boot : Boot) (s : State) : Action → Prop
  | .arrive sig => s.pc.phase = .early ∨ s.pc.phase = .loading → .arrived sig.other false ∉ s.log
  | .advance outcome =>
    match s.handlers, s.pc with
    | call :: _, _ => Lands s call outcome
    | [], .forward call _ => Lands s call outcome
    | [], .spawnAgent => outcome ≠ .returned (-1)
    | [], .spawnWinsize => boot.winsizeAgent → outcome ≠ .returned (-1)
    | [], _ => True
  | .workload _ => True

instance decidableHarmless (boot : Boot) (s : State) : (a : Action) → Decidable (Harmless boot s a)
  | .arrive _ => inferInstanceAs (Decidable (_ → _))
  | .advance outcome => by
    unfold Harmless
    dsimp only
    split <;> infer_instance
  | .workload _ => isTrue trivial

/-- A signal came before the workload's end and has found neither it nor its remains. The log
has the newest event first. -/
def Awaits (sig : Sig) : List Event → Prop
  | [] => False
  | .arrived sig' _ :: log => (sig' = sig ∧ .exited ∉ log) ∨ Awaits sig log
  | .delivered sig' :: log => sig' ≠ sig ∧ Awaits sig log
  | .expired sig' :: log => (sig' = sig → .exited ∉ log) ∧ Awaits sig log
  | .swallowed _ :: log => Awaits sig log
  | .exited :: log => Awaits sig log
  | .cleaned _ :: log => Awaits sig log

/-- Each arrival before the end has a delivery after it, or was sent on when the workload had
exited in the meantime. -/
def Answered (sig : Sig) (log : List Event) : Prop :=
  ∀ newer older ready, log = newer ++ .arrived sig ready :: older → .exited ∉ older →
    .delivered sig ∈ newer ∨ ∃ late before, newer = late ++ .expired sig :: before ∧ .exited ∈ before

theorem Awaits.of_unanswered {older : List Event} {ready : Bool} (running : .exited ∉ older)
    (newer : List Event) (undelivered : .delivered sig ∉ newer)
    (unexpired : ∀ late before, newer = late ++ .expired sig :: before → .exited ∉ before) :
    Awaits sig (newer ++ .arrived sig ready :: older) := by
  induction newer with
  | nil => exact .inl ⟨rfl, running⟩
  | cons event newer ih =>
    have rest : Awaits sig (newer ++ .arrived sig ready :: older) := by
      refine ih (fun mem => undelivered (List.mem_cons_of_mem _ mem)) fun late before split => ?_
      exact unexpired (event :: late) before (by rw [split]; rfl)
    cases event with
    | arrived => exact .inr rest
    | delivered sig' => exact ⟨fun same => undelivered (same ▸ List.mem_cons_self), rest⟩
    | expired sig' =>
      refine ⟨?_, rest⟩
      rintro rfl ended
      rcases List.mem_append.mp ended with ended | ended
      · exact unexpired [] newer rfl ended
      · rcases List.mem_cons.mp ended with same | ended
        · exact nomatch same
        · exact running ended
    | swallowed | exited | cleaned => exact rest

theorem answered_of_not_awaits {log : List Event} (none : ¬ Awaits sig log) :
    Answered sig log := by
  rintro newer older ready rfl running
  by_contra unanswered
  rw [not_or] at unanswered
  refine none (Awaits.of_unanswered running newer unanswered.1 ?_)
  intro late before split ended
  exact unanswered.2 ⟨late, before, split, ended⟩

@[simp] theorem State.deliver_none (absent : s.workload = none) (sig : Sig) :
    s.deliver sig = s := by
  unfold State.deliver
  rw [absent]

theorem State.deliver_some {w : Workload} (there : s.workload = some w) (sig : Sig) :
    s.deliver sig = { s with workload := some (w.deliver sig).1, log := (w.deliver sig).2 ++ s.log } := by
  unfold State.deliver
  rw [there]

/-- What a call that is over leaves as it was. -/
structure Elsewhere (s t : State) : Prop where
  globals : t.globals = s.globals
  handlers : t.handlers = s.handlers
  pc : t.pc = s.pc
  agentPid : t.agentPid = s.agentPid
  winsizePid : t.winsizePid = s.winsizePid
  syncRuns : t.syncRuns = s.syncRuns

theorem State.deliver_elsewhere (s : State) (sig : Sig) : Elsewhere s (s.deliver sig) := by
  cases there : s.workload with
  | none => rw [s.deliver_none there]; exact ⟨rfl, rfl, rfl, rfl, rfl, rfl⟩
  | some w => rw [s.deliver_some there]; exact ⟨rfl, rfl, rfl, rfl, rfl, rfl⟩

theorem State.expire_elsewhere (s : State) (sig : Sig) : Elsewhere s (s.expire sig) := by
  unfold State.expire
  split <;> exact ⟨rfl, rfl, rfl, rfl, rfl, rfl⟩

def State.Ended (s : State) : Prop := ∀ w ∈ s.workload, w.exited.isSome ↔ .exited ∈ s.log

/-- No signal arrived, and what is awaited was so before. -/
structure Quiet (s t : State) : Prop where
  arrivals : ∀ sig ready, .arrived sig ready ∈ t.log ↔ .arrived sig ready ∈ s.log
  awaits : ∀ sig, Awaits sig t.log → Awaits sig s.log
  present : t.workload.isSome = s.workload.isSome
  exits : .exited ∈ s.log → .exited ∈ t.log
  idle : s.workload = none → t.log = s.log
  ended : s.Ended → t.Ended

theorem Quiet.of_same (workload : t.workload = s.workload) (log : t.log = s.log) :
    Quiet s t := by
  refine ⟨fun _ _ => by
    rw [log], fun _ => by rw [log]; exact id, by rw [workload], by rw [log]; exact id, fun _ => log, ?_⟩
  unfold State.Ended
  rw [workload, log]
  exact id

theorem State.deliver_quiet (s : State) (sig : Sig) : Quiet s (s.deliver sig) := by
  cases there : s.workload with
  | none => rw [s.deliver_none there]; exact .of_same rfl rfl
  | some w =>
    rw [s.deliver_some there]
    unfold Workload.deliver
    refine ⟨?_, ?_, by
      rw [there]; rfl, fun ended => List.mem_append_right _ ended,
        fun absent => (nomatch there.symm.trans absent), ?_⟩
    · intro sig' ready
      split_ifs <;> simp
    · intro sig'
      split_ifs <;> simp +contextual [Awaits]
    · unfold State.Ended
      simp only [there, Option.mem_some_iff, forall_eq']
      intro ended
      split_ifs <;> simp_all

theorem State.expire_quiet (s : State) (sig : Sig) : Quiet s (s.expire sig) := by
  unfold State.expire
  split
  · rename_i exited
    refine ⟨by simp, by simp +contextual [Awaits], rfl, fun ended => List.mem_cons_of_mem _ ended, ?_, ?_⟩
    · intro absent
      rw [absent] at exited
      exact nomatch exited
    unfold State.Ended
    simp
  · exact .of_same rfl rfl

theorem State.deliver_lands {w : Workload} (there : s.workload = some w) (ended : s.Ended)
    (lands : w.exited = none → w.start.resets sig) : ¬ Awaits sig (s.deliver sig).log := by
  have ended := ended w there
  rw [s.deliver_some there]
  unfold Workload.deliver
  split_ifs with exited reset running
  · exact fun awaits => awaits.1 rfl (ended.mp exited)
  · exact fun awaits => awaits.1 rfl
  · exact fun awaits => awaits.1 rfl
  · exact absurd (lands (Option.not_isSome_iff_eq_none.mp exited)) reset

theorem State.expire_lands {w : Workload} (there : s.workload = some w)
    (ended : s.Ended) (exited : w.exited.isSome) : ¬ Awaits sig (s.expire sig).log := by
  have any : (s.workload.any fun w => w.exited.isSome) = true := by rw [there]; exact exited
  unfold State.expire
  rw [if_pos any]
  exact fun awaits => awaits.1 rfl ((ended w there).mp exited)

theorem Start.resets_of_leads {start : Start} (leads : start.leads = true) (sig : Sig) :
    start.resets sig = true := by
  cases start <;> first | rfl | exact absurd leads (by decide)

inductive Forwarded (s : State) (call : Call) (outcome : Outcome) : Option Call → State → Prop where
  | stored (stage : call.stage = .store) : Forwarded s call outcome (some ⟨call.sig, .read⟩)
      { s with globals := { s.globals with pendingSignal := some call.sig } }
  | kept (stage : call.stage = .read) (absent : s.globals.workloadPid ≤ 0) : Forwarded s call outcome none s
  | went (stage : Stage) (later : call.stage = .read ∧ 0 < s.globals.workloadPid ∧
      (stage = .group ∨ stage = .process) ∨
      call.stage = .group ∧ stage = .process) : Forwarded s call outcome (some ⟨call.sig, stage⟩) s
  | sentGroup (stage : call.stage = .group) (leads : s.workload.any fun w => w.start.leads) :
      Forwarded s call outcome none (s.deliver call.sig)
  | sent (stage : call.stage = .process) (result : outcome = .returned 0) :
      Forwarded s call outcome none (s.deliver call.sig)
  | failed (stage : call.stage = .process) (result : outcome ≠ .returned 0) :
      Forwarded s call outcome none (s.expire call.sig)

theorem forwardStep_cases {left : Option Call}
    (step : forwardStep s call outcome = some (left, t)) : Forwarded s call outcome left t := by
  unfold forwardStep at step
  split at step
  · rename_i stage
    obtain ⟨rfl, rfl⟩ := Prod.mk.inj (Option.some.inj step)
    exact .stored stage
  · rename_i stage
    obtain ⟨rfl, rfl⟩ := Prod.mk.inj (Option.some.inj step)
    split_ifs with absent grouped
    · exact .kept stage absent
    · exact .went .group (.inl ⟨stage, by omega, .inl rfl⟩)
    · exact .went .process (.inl ⟨stage, by omega, .inr rfl⟩)
  · rename_i stage
    split_ifs at step with zero leads
    · obtain ⟨rfl, rfl⟩ := Prod.mk.inj (Option.some.inj step)
      exact .sentGroup stage leads
    · obtain ⟨rfl, rfl⟩ := Prod.mk.inj (Option.some.inj step)
      exact .went .process (.inr ⟨stage, rfl⟩)
  · rename_i result stage
    split_ifs at step with zero
    · obtain ⟨rfl, rfl⟩ := Prod.mk.inj (Option.some.inj step)
      exact .sent stage (by rw [zero])
    · obtain ⟨rfl, rfl⟩ := Prod.mk.inj (Option.some.inj step)
      exact .failed stage fun same => zero (Outcome.returned.inj same)
  · exact nomatch step

theorem Awaits.arrived {log : List Event} (awaits : Awaits sig log) :
    ∃ ready, .arrived sig ready ∈ log := by
  induction log with
  | nil => exact awaits.elim
  | cons event log ih =>
    have later (rest : Awaits sig log) : ∃ ready, .arrived sig ready ∈ event :: log :=
      (ih rest).imp fun _ mem => List.mem_cons_of_mem _ mem
    cases event with
    | arrived sig' ready =>
      rcases awaits with ⟨rfl, -⟩ | rest
      · exact ⟨ready, List.mem_cons_self⟩
      · exact later rest
    | delivered | expired => exact later awaits.2
    | swallowed | exited | cleaned => exact later awaits

/-- What an awaited signal's delivery rests on. -/
def State.Carries (s : State) (sig : Sig) : Prop :=
  match s.pc.phase with
  | .early => s.globals.pendingSignal = some sig ∨ ⟨sig, .store⟩ ∈ s.handlers
  | .loading =>
      (∃ call ∈ s.handlers, call.sig = sig) ∨ s.globals.pendingSignal = some sig ∧ .arrived sig false ∈ s.log
  | .forwarding => (∃ call ∈ s.handlers, call.sig = sig) ∨ ∃ call child, s.pc = .forward call child ∧ call.sig = sig
  | .closed => s.workload = none

structure Forwarding (s : State) : Prop where
  ended : s.Ended
  unready : s.pc.phase = .early → s.globals.workloadPid = 0 ∧ ∀ sig ready, .arrived sig ready ∈ s.log →
    ready = false
  unborn : s.pc = .spawnAgent ∨ s.pc = .spawnWinsize ∨ s.pc = .spawnWorkload → s.workload = none ∧
    .exited ∉ s.log
  child : ∀ child, s.pc = .storePid child → 0 < child ∧ s.workload.isSome
  ready : s.pc.phase = .loading ∨ s.pc.phase = .forwarding → 0 < s.globals.workloadPid ∧ s.workload.isSome
  closed : s.pc.phase = .closed → s.workload = none ∨ .exited ∈ s.log
  alone : s.pc.phase = .early ∨ s.pc.phase = .loading →
    ∀ sig sig', .arrived sig false ∈ s.log → .arrived sig' false ∈ s.log → sig = sig'
  early : s.pc.phase = .early → ∀ call ∈ s.handlers,
    (call.stage = .store ∨ call.stage = .read) ∧ .arrived call.sig false ∈ s.log
  loading : s.pc.phase = .loading → ∀ call ∈ s.handlers, ∀ sig, .arrived sig false ∈ s.log → sig = call.sig
  carries : ∀ sig, Awaits sig s.log → s.Carries sig

theorem Forwarding.quiet (inv : Forwarding s) (quiet : Quiet s t) (same : Elsewhere s t) :
    Forwarding t := by
  obtain ⟨globals, handlers, pc, -, -, -⟩ := same
  have none_iff : t.workload = none ↔ s.workload = none := by
    rw [← Option.isNone_iff_eq_none, ← Option.isNone_iff_eq_none, ← Option.not_isSome, ← Option.not_isSome,
      quiet.present]
  constructor
  · exact quiet.ended inv.ended
  · rw [pc, globals]
    exact fun early => ⟨(inv.unready early).1,
      fun sig ready mem => (inv.unready early).2 sig ready ((quiet.arrivals _ _).mp mem)⟩
  · rw [pc, none_iff]
    intro unborn
    obtain ⟨absent, running⟩ := inv.unborn unborn
    exact ⟨absent, quiet.idle absent ▸ running⟩
  · rw [pc, quiet.present]
    exact inv.child
  · rw [pc, globals, quiet.present]
    exact inv.ready
  · rw [pc, none_iff]
    exact fun closed => (inv.closed closed).imp id quiet.exits
  · rw [pc]
    simp only [quiet.arrivals]
    exact inv.alone
  · rw [pc, handlers]
    simp only [quiet.arrivals]
    exact inv.early
  · rw [pc, handlers]
    simp only [quiet.arrivals]
    exact inv.loading
  · intro sig awaits
    have carried := inv.carries sig (quiet.awaits sig awaits)
    unfold State.Carries at carried ⊢
    rw [pc, globals, handlers, none_iff]
    simp only [quiet.arrivals]
    exact carried

theorem Forwarding.drop (inv : Forwarding s) (handlers : s.handlers = call :: rest)
    (spare : s.pc.phase = .early ∧ call.stage ≠ .store ∨ s.pc.phase = .closed ∨ ¬ Awaits call.sig s.log) :
    Forwarding { s with handlers := rest } := by
  have sub {other : Call} (mem : other ∈ rest) : other ∈ s.handlers := handlers ▸ List.mem_cons_of_mem _ mem
  refine ⟨inv.ended, inv.unready, inv.unborn, inv.child, inv.ready, inv.closed, inv.alone,
    fun early other mem => inv.early early other (sub mem),
    fun loading other mem => inv.loading loading other (sub mem), ?_⟩
  intro sig awaits
  have carried := inv.carries sig awaits
  have kept (call' : Call) (mem : call' ∈ s.handlers) (same : call'.sig = sig)
    (there : ¬ Awaits call.sig s.log) :
      call' ∈ rest := by
    rw [handlers] at mem
    rcases List.mem_cons.mp mem with rfl | mem
    · exact absurd (same ▸ awaits) there
    · exact mem
  unfold State.Carries at carried ⊢
  dsimp only
  split at carried
  · rename_i phase
    refine carried.imp id fun mem => ?_
    rcases spare with ⟨-, stage⟩ | closed | there
    · rw [handlers] at mem
      rcases List.mem_cons.mp mem with rfl | mem
      · exact absurd rfl stage
      · exact mem
    · rw [phase] at closed
      exact nomatch closed
    · exact kept _ mem rfl there
  all_goals rename_i phase
  · refine carried.imp (fun found => ?_) id
    obtain ⟨call', mem, same⟩ := found
    rcases spare with ⟨early, -⟩ | closed | there
    · exact nomatch phase.symm.trans early
    · exact nomatch phase.symm.trans closed
    · exact ⟨call', kept call' mem same there, same⟩
  · refine carried.imp (fun found => ?_) id
    obtain ⟨call', mem, same⟩ := found
    rcases spare with ⟨early, -⟩ | closed | there
    · exact nomatch phase.symm.trans early
    · exact nomatch phase.symm.trans closed
    · exact ⟨call', kept call' mem same there, same⟩
  · exact carried

theorem Forwarding.turn {stage : Stage} (inv : Forwarding s) (handlers : s.handlers = call :: rest)
    (later : s.pc.phase ≠ .early) : Forwarding { s with handlers := ⟨call.sig, stage⟩ :: rest } := by
  have mem : call ∈ s.handlers := handlers ▸ List.mem_cons_self
  have sub {other : Call} (mem : other ∈ rest) : other ∈ s.handlers := handlers ▸ List.mem_cons_of_mem _ mem
  refine ⟨inv.ended, inv.unready, inv.unborn, inv.child, inv.ready, inv.closed, inv.alone,
    fun early => absurd early later, ?_, ?_⟩
  · intro loading other there
    rcases List.mem_cons.mp there with rfl | there
    · exact inv.loading loading call mem
    · exact inv.loading loading other (sub there)
  · intro sig awaits
    have carried := inv.carries sig awaits
    have found (there : ∃ call ∈ s.handlers, call.sig = sig) :
      ∃ other ∈ (⟨call.sig, stage⟩ :: rest : List Call), other.sig = sig := by
      obtain ⟨other, there, same⟩ := there
      rw [handlers] at there
      rcases List.mem_cons.mp there with rfl | there
      · exact ⟨⟨other.sig, stage⟩, List.mem_cons_self, same⟩
      · exact ⟨other, List.mem_cons_of_mem _ there, same⟩
    unfold State.Carries at carried ⊢
    dsimp only
    split at carried
    · rename_i phase
      exact absurd phase later
    · exact carried.imp found id
    · exact carried.imp found id
    · exact carried

theorem Forwarding.store (inv : Forwarding s) (handlers : s.handlers = call :: rest) :
    Forwarding
      { s with globals := { s.globals with pendingSignal := some call.sig },
               handlers := ⟨call.sig, .read⟩ :: rest } := by
  have mem : call ∈ s.handlers := handlers ▸ List.mem_cons_self
  have sub {other : Call} (mem : other ∈ rest) : other ∈ s.handlers := handlers ▸ List.mem_cons_of_mem _ mem
  refine ⟨inv.ended, inv.unready, inv.unborn, inv.child, inv.ready, inv.closed, inv.alone, ?_, ?_, ?_⟩
  · intro early other there
    rcases List.mem_cons.mp there with rfl | there
    · exact ⟨.inr rfl, (inv.early early call mem).2⟩
    · exact inv.early early other (sub there)
  · intro loading other there
    rcases List.mem_cons.mp there with rfl | there
    · exact inv.loading loading call mem
    · exact inv.loading loading other (sub there)
  · intro sig awaits
    have carried := inv.carries sig awaits
    have found (there : ∃ call ∈ s.handlers, call.sig = sig) :
        ∃ other ∈ (⟨call.sig, .read⟩ :: rest : List Call), other.sig = sig := by
      obtain ⟨other, there, same⟩ := there
      rw [handlers] at there
      rcases List.mem_cons.mp there with rfl | there
      · exact ⟨⟨other.sig, .read⟩, List.mem_cons_self, same⟩
      · exact ⟨other, List.mem_cons_of_mem _ there, same⟩
    unfold State.Carries at carried ⊢
    dsimp only
    split at carried
    -- The store hides an earlier signal only when both came before the pid, and then they are one kind.
    · rename_i phase
      obtain ⟨ready, arrived⟩ := awaits.arrived
      have arrived := (inv.unready phase).2 sig ready arrived ▸ arrived
      exact .inl (congrArg some (inv.alone (.inl phase) _ _ (inv.early phase call mem).2 arrived))
    · rename_i phase
      rcases carried with there | ⟨-, arrived⟩
      · exact .inl (found there)
      · exact .inr ⟨congrArg some (inv.loading phase call mem sig arrived).symm, arrived⟩
    · exact carried.imp found id
    · exact carried

theorem Forwarding.finished (inv : Forwarding s)
    (there : s.workload.isSome) (lands : Lands s call outcome) (forwarded : Forwarded s call outcome none t)
    (last : call.stage ≠ .read) : Forwarding t ∧ Elsewhere s t ∧ ¬ Awaits call.sig t.log := by
  obtain ⟨w, there⟩ := Option.isSome_iff_exists.mp there
  have running (stage : call.stage = .process) (running : w.exited = none) := lands stage w there running
  cases forwarded with
  | kept stage => exact absurd stage last
  | sentGroup stage leads =>
    refine ⟨inv.quiet (s.deliver_quiet _) (s.deliver_elsewhere _), s.deliver_elsewhere _, ?_⟩
    refine State.deliver_lands there inv.ended fun _ => Start.resets_of_leads ?_ _
    rwa [there] at leads
  | sent stage result =>
    refine ⟨inv.quiet (s.deliver_quiet _) (s.deliver_elsewhere _), s.deliver_elsewhere _, ?_⟩
    exact State.deliver_lands there inv.ended fun exited => (running stage exited).2
  | failed stage result =>
    refine ⟨inv.quiet (s.expire_quiet _) (s.expire_elsewhere _), s.expire_elsewhere _, ?_⟩
    refine State.expire_lands there inv.ended (Option.isSome_iff_ne_none.mpr fun exited => ?_)
    exact result (running stage exited).1

theorem Forwarding.handler {left : Option Call} (inv : Forwarding s)
    (handlers : s.handlers = call :: rest) (lands : Lands s call outcome)
    (step : forwardStep s call outcome = some (left, t)) :
    Forwarding { t with handlers := left.toList ++ rest } := by
  have mem : call ∈ s.handlers := handlers ▸ List.mem_cons_self
  have forwarded := forwardStep_cases step
  have early_stage (early : s.pc.phase = .early) := (inv.early early call mem).1
  cases left with
  | some left =>
    cases forwarded with
    | stored stage => exact inv.store handlers
    | went stage later =>
      refine inv.turn handlers fun early => ?_
      rcases later with ⟨-, there, -⟩ | ⟨grouped, -⟩
      · have absent := (inv.unready early).1
        omega
      · rcases early_stage early with stage | stage <;> exact nomatch stage.symm.trans grouped
  | none =>
    by_cases read : call.stage = .read
    · cases forwarded with
      | kept stage absent =>
        refine inv.drop handlers ?_
        match phase : s.pc.phase with
        | .early => exact .inl ⟨rfl, by rw [read]; nofun⟩
        | .loading => exact absurd (inv.ready (.inl phase)).1 (by omega)
        | .forwarding => exact absurd (inv.ready (.inr phase)).1 (by omega)
        | .closed => exact .inr (.inl rfl)
      | sentGroup stage => exact nomatch read.symm.trans stage
      | sent stage => exact nomatch read.symm.trans stage
      | failed stage => exact nomatch read.symm.trans stage
    · by_cases closed : s.pc.phase = .closed
      · obtain ⟨quiet, same⟩ : Quiet s t ∧ Elsewhere s t := by
          cases forwarded with
          | kept stage => exact absurd stage read
          | sentGroup | sent => exact ⟨s.deliver_quiet _, s.deliver_elsewhere _⟩
          | failed => exact ⟨s.expire_quiet _, s.expire_elsewhere _⟩
        exact (inv.quiet quiet same).drop (same.handlers.trans handlers) (.inr (.inl (same.pc ▸ closed)))
      · have there : s.workload.isSome := by
          match phase : s.pc.phase with
          | .early =>
            -- A handler cannot have come to a `kill` while there is no pid.
            rcases early_stage phase with stage | stage
            · cases forwarded with
              | kept stage' => exact absurd stage' read
              | sentGroup stage' => exact nomatch stage.symm.trans stage'
              | sent stage' => exact nomatch stage.symm.trans stage'
              | failed stage' => exact nomatch stage.symm.trans stage'
            · exact absurd stage read
          | .loading => exact (inv.ready (.inl phase)).2
          | .forwarding => exact (inv.ready (.inr phase)).2
          | .closed => exact absurd phase closed
        obtain ⟨after, same, answered⟩ := inv.finished there lands forwarded read
        exact after.drop (same.handlers.trans handlers) (.inr (.inr answered))

theorem Forwarding.arrive {boot : Boot} (inv : Forwarding s)
    (harmless : Harmless boot s (.arrive sig)) (step : arrive s sig = some t) : Forwarding t := by
  unfold Supervisor.arrive at step
  split at step
  · exact nomatch step
  obtain rfl := Option.some.inj step
  have only (open_ : s.pc.phase = .early ∨ s.pc.phase = .loading) (sig' : Sig)
    (arrived : .arrived sig' false ∈ s.log) :
      sig' = sig := Sig.eq_of_ne_other fun same => harmless open_ (same ▸ arrived)
  have fresh {sig' : Sig} {ready : Bool} (open_ : s.pc.phase = .early ∨ s.pc.phase = .loading)
      (mem : Event.arrived sig' false ∈ Event.arrived sig ready :: s.log) : sig' = sig := by
    rcases List.mem_cons.mp mem with same | mem
    · exact (Event.arrived.inj same).1
    · exact only open_ sig' mem
  refine ⟨?_, ?_, ?_, inv.child, inv.ready, fun closed =>
    (inv.closed closed).imp id (List.mem_cons_of_mem _), ?_, ?_, ?_, ?_⟩
  · intro w there
    simp only [List.mem_cons, reduceCtorEq, false_or]
    exact inv.ended w there
  · intro early
    obtain ⟨absent, unready⟩ := inv.unready early
    refine ⟨absent, fun sig' ready mem => ?_⟩
    rcases List.mem_cons.mp mem with same | mem
    · rw [(Event.arrived.inj same).2, absent]
      rfl
    · exact unready sig' ready mem
  · intro unborn
    simp only [List.mem_cons, reduceCtorEq, false_or]
    exact inv.unborn unborn
  · exact fun open_ sig' sig'' mem mem' => (fresh open_ mem).trans (fresh open_ mem').symm
  · intro early call mem
    rcases List.mem_cons.mp mem with rfl | mem
    · refine ⟨.inl rfl, ?_⟩
      rw [(inv.unready early).1]
      exact List.mem_cons_self
    · exact (inv.early early call mem).imp id (List.mem_cons_of_mem _)
  · intro loading call mem sig' arrived
    rcases List.mem_cons.mp arrived with same | arrived
    · have ready := (Event.arrived.inj same).2
      rw [decide_eq_true (inv.ready (.inl loading)).1] at ready
      exact nomatch ready
    · rcases List.mem_cons.mp mem with rfl | mem
      · exact only (.inr loading) sig' arrived
      · exact inv.loading loading call mem sig' arrived
  · rintro sig' (⟨rfl, running⟩ | awaits)
    · unfold State.Carries
      dsimp only
      split
      · exact .inr List.mem_cons_self
      · exact .inl ⟨_, List.mem_cons_self, rfl⟩
      · exact .inl ⟨_, List.mem_cons_self, rfl⟩
      · rename_i closed
        exact (inv.closed closed).resolve_right running
    · have carried := inv.carries sig' awaits
      unfold State.Carries at carried ⊢
      dsimp only
      split at carried
      · exact carried.imp id (List.mem_cons_of_mem _)
      · refine carried.imp (fun found => ?_) (And.imp id (List.mem_cons_of_mem _))
        exact found.imp fun _ => And.imp (List.mem_cons_of_mem _) id
      · exact carried.imp (fun found => found.imp fun _ => And.imp (List.mem_cons_of_mem _) id) id
      · exact carried

theorem workloadStep_quiet {a : WorkloadAction} (step : s.workloadStep a = some t) :
    Quiet s t ∧ Elsewhere s t := by
  obtain ⟨w, there, step⟩ := Option.bind_eq_some_iff.mp step
  obtain ⟨w', moved, step⟩ := Option.bind_eq_some_iff.mp step
  obtain rfl := Option.some.inj step
  have running : w.exited = none := by
    unfold Workload.step at moved
    split at moved
    · exact nomatch moved
    · rename_i running
      exact Option.not_isSome_iff_eq_none.mp running
  refine ⟨⟨?_, ?_, by rw [there]; rfl, ?_, fun absent => (nomatch there.symm.trans absent), ?_⟩, rfl, rfl,
    rfl, rfl, rfl, rfl⟩
  · intro sig ready
    dsimp only
    split <;> simp
  · intro sig
    dsimp only
    split
    · exact id
    · exact id
  · intro ended
    dsimp only
    split
    · exact List.mem_cons_of_mem _ ended
    · exact ended
  · intro ended w'' there'
    obtain rfl := Option.some.inj there'
    have before := ended w there
    rw [running] at before
    dsimp only
    split
    · rename_i exited
      exact iff_of_true exited List.mem_cons_self
    · rename_i still
      exact iff_of_false still fun mem => absurd (before.mpr mem) (by decide)

theorem Forwarding.of_over (closed : s.pc.phase = .closed) (ended : s.Ended)
    (gone : s.workload = none ∨ .exited ∈ s.log) (carries : ∀ sig, Awaits sig s.log → s.workload = none) :
    Forwarding s := by
  have not_early : s.pc.phase ≠ .early := fun early => nomatch closed.symm.trans early
  have not_loading : s.pc.phase ≠ .loading := fun loading => nomatch closed.symm.trans loading
  have not_forwarding : s.pc.phase ≠ .forwarding := fun forwarding => nomatch closed.symm.trans forwarding
  refine ⟨ended, fun early => absurd early not_early, ?_, ?_, ?_, fun _ => gone, ?_,
    fun early => absurd early not_early,
    fun loading => absurd loading not_loading, ?_⟩
  · rintro (pc | pc | pc) <;> rw [pc] at closed <;> exact nomatch closed
  · intro child pc
    rw [pc] at closed
    exact nomatch closed
  · exact fun either => either.elim (fun loading => absurd loading not_loading) fun forwarding =>
      absurd forwarding not_forwarding
  · exact fun either => either.elim (fun early => absurd early not_early) fun loading =>
      absurd loading not_loading
  · intro sig awaits
    unfold State.Carries
    rw [closed]
    exact carries sig awaits

theorem Forwarding.cleanup (inv : Forwarding s) (before : s.pc.phase = .closed)
    (after : t.pc.phase = .closed)
    (workload : t.workload = s.workload) (log : t.log = s.log ∨ ∃ status,
    t.log = .cleaned status :: s.log) : Forwarding t := by
  have awaits (sig : Sig) (there : Awaits sig t.log) : Awaits sig s.log := by
    rcases log with log | ⟨status, log⟩ <;> rw [log] at there <;> exact there
  have exits : .exited ∈ t.log ↔ .exited ∈ s.log := by
    rcases log with log | ⟨status, log⟩ <;> rw [log]
    simp
  refine .of_over after ?_ ?_ ?_
  · unfold State.Ended
    rw [workload, exits]
    exact inv.ended
  · rw [workload, exits]
    exact inv.closed before
  · intro sig there
    have carried := inv.carries sig (awaits sig there)
    unfold State.Carries at carried
    rw [before] at carried
    exact workload ▸ carried

theorem Forwarding.spawning (inv : Forwarding s) (handlers : s.handlers = [])
    (before : s.pc.phase = .early) (after : t.pc.phase = .early) (globals : t.globals = s.globals)
    (handlers' : t.handlers = s.handlers) (log : t.log = s.log) (ended : t.Ended)
    (unborn : t.pc = .spawnAgent ∨ t.pc = .spawnWinsize ∨ t.pc = .spawnWorkload → t.workload = none ∧
      .exited ∉ t.log)
    (child : ∀ child, t.pc = .storePid child → 0 < child ∧ t.workload.isSome) : Forwarding t := by
  have not_over : t.pc.phase ≠ .closed := fun closed => nomatch after.symm.trans closed
  have not_loading : t.pc.phase ≠ .loading := fun loading => nomatch after.symm.trans loading
  have not_forwarding : t.pc.phase ≠ .forwarding := fun forwarding => nomatch after.symm.trans forwarding
  refine ⟨ended, ?_, unborn, child, ?_, fun closed => absurd closed not_over, ?_, ?_,
    fun loading => absurd loading not_loading, ?_⟩
  · rw [globals, log]
    exact fun _ => inv.unready before
  · exact fun either => either.elim (fun loading => absurd loading not_loading) fun forwarding =>
      absurd forwarding not_forwarding
  · rw [log]
    exact fun _ => inv.alone (.inl before)
  · rw [handlers', handlers]
    exact fun _ _ mem => absurd mem List.not_mem_nil
  · intro sig awaits
    have carried := inv.carries sig (log ▸ awaits)
    unfold State.Carries at carried ⊢
    rw [before] at carried
    rw [after, globals, handlers']
    exact carried

theorem Forwarding.serving (inv : Forwarding s) (handlers : t.handlers = [])
    (after : t.pc.phase = .loading ∨ t.pc.phase = .forwarding) (pid : 0 < t.globals.workloadPid)
    (workload : t.workload = s.workload) (there : s.workload.isSome) (log : t.log = s.log)
    (alone : t.pc.phase = .loading → s.pc.phase = .early ∨ s.pc.phase = .loading)
    (carries : ∀ sig, Awaits sig t.log → t.Carries sig) : Forwarding t := by
  have not_early : t.pc.phase ≠ .early := fun early => by
    rcases after with after | after <;> exact nomatch after.symm.trans early
  have not_over : t.pc.phase ≠ .closed := fun closed => by
    rcases after with after | after <;> exact nomatch after.symm.trans closed
  refine ⟨?_, fun early => absurd early not_early, ?_, ?_, fun _ => ⟨pid, workload ▸ there⟩,
    fun closed => absurd closed not_over, ?_, fun early => absurd early not_early, ?_, carries⟩
  · unfold State.Ended
    rw [workload, log]
    exact inv.ended
  · rintro (pc | pc | pc) <;> rw [pc] at not_early <;> exact absurd rfl not_early
  · intro child pc
    rw [pc] at not_early
    exact absurd rfl not_early
  · rw [log]
    exact fun either => inv.alone (alone (either.resolve_left not_early))
  · rw [handlers]
    exact fun _ _ mem => absurd mem List.not_mem_nil

theorem Forwarding.main {boot : Boot} (inv : Forwarding s) (handlers : s.handlers = [])
    (harmless : Harmless boot s (.advance outcome)) (step : mainStep boot s outcome = some t) :
    Forwarding t := by
  have no_handler (sig : Sig) : ¬ ∃ call ∈ s.handlers, call.sig = sig := by
    rw [handlers]
    rintro ⟨call, mem, -⟩
    exact absurd mem List.not_mem_nil
  have early (pc : s.pc.phase = .early) : ∀ sig, Awaits sig s.log → s.globals.pendingSignal = some sig := by
    intro sig awaits
    have carried := inv.carries sig awaits
    unfold State.Carries at carried
    rw [pc, handlers] at carried
    exact carried.resolve_right List.not_mem_nil
  have loading (pc : s.pc.phase = .loading) : ∀ sig, Awaits sig s.log →
      s.globals.pendingSignal = some sig ∧ .arrived sig false ∈ s.log := by
    intro sig awaits
    have carried := inv.carries sig awaits
    unfold State.Carries at carried
    rw [pc] at carried
    exact carried.resolve_left (no_handler sig)
  have forwarding (pc : s.pc.phase = .forwarding) :
    ∀ sig, Awaits sig s.log → ∃ call child, s.pc = .forward call child ∧ call.sig = sig := by
    intro sig awaits
    have carried := inv.carries sig awaits
    unfold State.Carries at carried
    rw [pc] at carried
    exact carried.resolve_left (no_handler sig)
  cases mainStep_cases step with
  | spawnedAgent pc result =>
    obtain ⟨absent, running⟩ := inv.unborn (.inl pc)
    exact inv.spawning handlers (by rw [pc]; rfl) rfl rfl rfl rfl inv.ended (fun _ => ⟨absent, running⟩)
      nofun
  | spawnedWinsize pc result | noWinsize pc result =>
    obtain ⟨absent, running⟩ := inv.unborn (.inr (.inl pc))
    exact inv.spawning handlers (by rw [pc]; rfl) rfl rfl rfl rfl inv.ended (fun _ => ⟨absent, running⟩)
      nofun
  | fatal pc result =>
    obtain ⟨absent, running⟩ := inv.unborn (.inr (.inr pc))
    exact .of_over rfl inv.ended (.inl absent) fun _ _ => absent
  | spawned pc child positive =>
    obtain ⟨absent, running⟩ := inv.unborn (.inr (.inr pc))
    refine inv.spawning handlers (by rw [pc]; rfl) rfl rfl rfl rfl ?_ nofun ?_
    · intro w there
      obtain rfl := Option.some.inj there
      exact iff_of_false (by decide) running
    · intro child' pc'
      exact ⟨Pc.storePid.inj pc' ▸ positive, rfl⟩
  | stored child result pc =>
    obtain ⟨positive, there⟩ := inv.child child pc
    have phase : s.pc.phase = .early := by rw [pc]; rfl
    refine inv.serving handlers (.inl rfl) positive rfl there rfl (fun _ => .inl phase) fun sig awaits =>
      .inr ⟨early phase sig awaits, ?_⟩
    obtain ⟨ready, arrived⟩ : ∃ ready, .arrived sig ready ∈ s.log := Awaits.arrived awaits
    exact (inv.unready phase).2 sig ready arrived ▸ arrived
  | grouped child result pc | pending child result pc =>
    have phase : s.pc.phase = .loading := by rw [pc]; rfl
    obtain ⟨positive, there⟩ := inv.ready (.inl phase)
    exact inv.serving handlers (.inl rfl) positive rfl there rfl (fun _ => .inr phase) fun sig awaits =>
      .inr (loading phase sig awaits)
  | nonePending child result pc recorded =>
    have phase : s.pc.phase = .loading := by rw [pc]; rfl
    obtain ⟨positive, there⟩ := inv.ready (.inl phase)
    refine inv.serving handlers (.inr rfl) positive rfl there rfl (fun phase => nomatch phase) fun sig
      awaits => ?_
    have found := (loading phase sig awaits).1
    rw [recorded] at found
    exact nomatch found
  | loaded child result pc sig recorded =>
    have phase : s.pc.phase = .loading := by rw [pc]; rfl
    obtain ⟨positive, there⟩ := inv.ready (.inl phase)
    refine inv.serving handlers (.inr rfl) positive rfl there rfl (fun phase => nomatch phase) fun sig'
      awaits => .inr ⟨_, child, rfl, ?_⟩
    exact Option.some.inj (recorded.symm.trans (loading phase sig' awaits).1)
  | forwarded call child pc _ left t' forward =>
    have phase : s.pc.phase = .forwarding := by rw [pc]; rfl
    obtain ⟨positive, there⟩ := inv.ready (.inr phase)
    have lands : Lands s call outcome := by
      unfold Harmless at harmless
      rw [handlers, pc] at harmless
      exact harmless
    have awaited (sig : Sig) (awaits : Awaits sig s.log) : call.sig = sig := by
      obtain ⟨call', child', pc', same⟩ := forwarding phase sig awaits
      rw [pc] at pc'
      rwa [(Pc.forward.inj pc').1]
    have step := forwardStep_cases forward
    cases left with
    | some left =>
      cases step with
      | stored stage | went stage later =>
        exact inv.serving handlers (.inr rfl) positive rfl there rfl (fun phase => nomatch phase)
          fun sig awaits => .inr ⟨_, child, rfl, awaited sig awaits⟩
    | none =>
      by_cases read : call.stage = .read
      · cases step with
        | kept stage absent => exact absurd positive (by omega)
        | sentGroup stage => exact nomatch read.symm.trans stage
        | sent stage => exact nomatch read.symm.trans stage
        | failed stage => exact nomatch read.symm.trans stage
      · obtain ⟨after, same, answered⟩ := inv.finished there lands step read
        have phase' : t'.pc.phase = .forwarding := same.pc ▸ phase
        obtain ⟨positive, there⟩ := after.ready (.inr phase')
        refine after.serving (same.handlers.trans handlers) (.inr rfl) positive rfl there rfl
          (fun phase => nomatch phase) fun sig awaits => ?_
        have carried := after.carries sig awaits
        unfold State.Carries at carried
        rw [phase', same.handlers] at carried
        obtain ⟨call', child', pc', rfl⟩ := carried.resolve_left (no_handler sig)
        rw [same.pc, pc] at pc'
        rw [← (Pc.forward.inj pc').1] at awaits
        exact absurd awaits answered
  | reaped child pc w status there exited =>
    have phase : s.pc.phase = .forwarding := by rw [pc]; rfl
    refine .of_over rfl inv.ended (.inr ((inv.ended w there).mp (by rw [exited]; rfl))) fun sig awaits => ?_
    obtain ⟨call, child', pc', -⟩ := forwarding phase sig awaits
    exact nomatch pc.symm.trans pc'
  | reapedOther | interrupted | syncInterrupted => exact inv
  | killed child status pc | cleared status pc | foundScript status pc | syncing status pc | syncDone status pid pc
  | retained status cleanup pc | trapped status cleanup pid pids pc | probing status cleanup pid pids pc =>
    exact inv.cleanup (by rw [pc]; rfl) rfl rfl (.inl rfl)
  | noScript status pc | noSync status pc | syncFailed status pid pc | removed status pc
  | stopped status cleanup pid pids pc
  | probed status cleanup pids pc =>
    exact inv.cleanup (by rw [pc]; rfl) rfl rfl (.inr ⟨_, rfl⟩)

theorem Forwarding.step {boot : Boot} {a : Action} (inv : Forwarding s)
    (harmless : Harmless boot s a) (step : step boot s a = some t) : Forwarding t := by
  cases a with
  | arrive sig => exact inv.arrive harmless step
  | workload a =>
    obtain ⟨quiet, same⟩ := workloadStep_quiet step
    exact inv.quiet quiet same
  | advance outcome =>
    change advance boot s outcome = some t at step
    unfold advance at step
    split at step
    · rename_i handlers
      exact inv.main handlers harmless step
    · rename_i call rest handlers
      obtain ⟨⟨left, t'⟩, forward, step⟩ := Option.bind_eq_some_iff.mp step
      obtain rfl := Option.some.inj step
      refine inv.handler handlers ?_ forward
      unfold Harmless at harmless
      rw [handlers] at harmless
      exact harmless

theorem Forwarding.start : Forwarding {} := by
  refine ⟨nofun, fun _ => ⟨rfl, nofun⟩, fun _ => ⟨rfl, nofun⟩, nofun, nofun, nofun, nofun, nofun, nofun,
    nofun⟩

/-- No handler runs, and `main` has come to wait for the workload or further. -/
def State.Settled (s : State) : Prop :=
  s.handlers = [] ∧ s.workload.isSome ∧ (s.pc.phase = .closed ∨ ∃ child, s.pc = .waitWorkload child)

theorem Forwarding.answered (inv : Forwarding s) (settled : s.Settled) (sig : Sig) :
    Answered sig s.log := by
  obtain ⟨handlers, there, stage⟩ := settled
  refine answered_of_not_awaits fun awaits => ?_
  have carried := inv.carries sig awaits
  unfold State.Carries at carried
  rcases stage with closed | ⟨child, pc⟩
  · rw [closed] at carried
    have absent : s.workload = none := carried
    rw [absent] at there
    exact nomatch there
  · rw [pc, handlers] at carried
    rcases carried with ⟨call, mem, -⟩ | ⟨call, child', pc', -⟩
    · exact absurd mem List.not_mem_nil
    · exact nomatch pc'

end Machinen.Supervisor
