import Machinen.Files.Agent
import Machinen.Lib.Run

/-! `VsockFiles.pull` against `do_pull`: the guest's `tar`, the agent's loop, the socket's events
and the host's `tar`, each of which may stop at any point. -/
namespace Machinen.Files

open Relay

structure Pull where
  agent : AgentPc := .header
  started : Bool := false
  sent : Bytes := []
  guestTar : Option Exit := none
  copy : Copy UInt8 := {}
  toGuest : Bool := true
  toHost : Bool := true
  /-- What the data events brought to `tar.stdin`. -/
  arrived : Bytes := []
  inputEnded : Bool := false
  received : Bytes := []
  tar : Option Exit := none
  exitSeen : Bool := false
  settled : Option Outcome := none
  deriving DecidableEq

inductive PullAction where
  | agentHeader (lost : Bool)
  | guestTarWrites (bytes : Bytes)
  | guestTarEnds (exit : Exit)
  | agentReads (n : Nat)
  | agentReadsEnd
  | agentWrites (n : Nat)
  | agentWaits
  | agentDies
  | stopToGuest
  | stopToHost
  | sockData (n : Nat)
  | sockEnd
  | sockError
  | tarReads (n : Nat)
  | tarEnds (exit : Exit)
  | tarError
  | tarExit
  | stdinError
  deriving DecidableEq

namespace Pull

/-- The promise is settled once; `finally` destroys the socket. -/
def settle (s : Pull) (outcome : Outcome) : Pull :=
  if s.settled.isSome then s else { s with settled := some outcome, toGuest := false, toHost := false }

/-- `handle_connection` up to `do_pull`; the request of a pull is no other command. -/
def readHeader (guestPath : Bytes) (s : Pull) : Option Pull :=
  match readLine lineLen (request pullWord guestPath) with
  | none => none
  | some none => some { s with agent := .closed }
  | some (some line) =>
    match parseCommand line with
    | some (.pull _) => some { s with agent := .copying, started := true }
    | _ => some { s with agent := .closed }

variable (whole : Bytes → Bool) (guestPath : Bytes)

/-- Nobody listens to the errors of `tar.stdin`, which the event loop meets until it has seen
the exit. -/
def step (s : Pull) : PullAction → Option Pull
  | .agentHeader lost =>
    if s.agent ≠ .header then none
    else if lost then if s.toGuest then none else some { s with agent := .closed }
    else s.readHeader guestPath
  | .guestTarWrites bytes =>
    if s.started ∧ s.guestTar = none then some { s with sent := s.sent ++ bytes } else none
  | .guestTarEnds exit =>
    if s.started ∧ s.guestTar = none ∧ mayExit whole s.sent exit then some
      { s with guestTar := some exit } else none
  | .agentReads n =>
    if s.agent = .copying ∧ s.copy.buffer = [] ∧ 0 < n ∧ n ≤ chunk ∧ s.copy.taken + n ≤ s.sent.length then
      some { s with copy := s.copy.read s.sent n }
    else none
  | .agentReadsEnd =>
    if s.agent = .copying ∧ s.copy.buffer = [] ∧ s.guestTar.isSome ∧ s.copy.taken = s.sent.length then
      some { s with agent := .waiting }
    else none
  | .agentWrites n =>
    if s.agent ≠ .copying ∨ s.copy.buffer = [] then none
    else if s.toHost then
      if 0 < n ∧ n ≤ s.copy.buffer.length then some { s with copy := s.copy.write n } else none
    else some { s with copy := s.copy.lose }
  | .agentWaits => if s.agent = .waiting ∧ s.guestTar.isSome then some { s with agent := .closed } else none
  | .agentDies => if s.agent = .closed then none else some { s with agent := .closed }
  | .stopToGuest => if s.toGuest then some { s with toGuest := false } else none
  | .stopToHost => if s.toHost then some { s with toHost := false } else none
  | .sockData n =>
    if s.toHost ∧ 0 < n ∧ s.arrived.length < s.copy.passed.length then
      some { s with arrived := hop s.copy.passed s.arrived n }
    else none
  | .sockEnd =>
    if s.inputEnded = false ∧ (s.toHost = false ∨ s.agent = .closed ∧ s.arrived = s.copy.passed) then
      some { s with inputEnded := true }
    else none
  | .sockError =>
    if s.settled = none ∧ (s.toGuest = false ∨ s.toHost = false ∨ s.agent = .closed) then some
      (s.settle .rejected) else none
  | .tarReads n =>
    if s.tar = none ∧ 0 < n ∧ s.received.length < s.arrived.length then
      some { s with received := hop s.arrived s.received n }
    else none
  | .tarEnds exit => if s.tar = none ∧ mayExit whole s.received exit then some { s with tar := some exit } else none
  | .tarError =>
    if s.tar = none ∧ s.arrived = [] ∧ s.settled = none then
      some ({ s with tar := some none, exitSeen := true }.settle .rejected)
    else none
  | .tarExit =>
    match s.tar, s.exitSeen with
    | some exit, false => some ({ s with exitSeen := true }.settle (if exit = some 0 then .resolved else .rejected))
    | _, _ => none
  | .stdinError =>
    if s.tar.isSome ∧ s.exitSeen = false ∧ s.received.length < s.arrived.length then some
      (s.settle .crashed) else none

abbrev exec : Pull → List PullAction → Option Pull := Run.exec (step whole guestPath)

def Over (s : Pull) : Prop := ∀ a, step whole guestPath s a = none

structure Complete (s : Pull) : Prop where
  guestTar : s.guestTar = some (some 0)
  tar : s.tar = some (some 0)
  archive : ∃ archive, whole archive ∧ archive <+: s.sent ∧ archive <+: s.received

/-- The condition on a step: when the exit of the host's `tar` with 0 is seen, the guest's has been
started and has not failed, it does not fail after that, and no bytes are left in the host's pipe
when its `tar` has gone unseen. -/
def Sound (s : Pull) : PullAction → Prop
  | .tarExit => s.settled = none → s.tar = some (some 0) → s.started ∧ unfailed s.guestTar
  | .guestTarEnds exit => s.settled = some .resolved → exit = some 0
  | .stdinError => s.settled ≠ none
  | _ => True

instance decidableSound (s : Pull) : (a : PullAction) → Decidable (s.Sound a) := by
  intro a
  cases a <;> unfold Sound <;> dsimp only <;> infer_instance

structure Ordered (s : Pull) : Prop where
  header : s.agent = .header → s.started = false
  copying : s.agent = .copying ∨ s.agent = .waiting → s.started = true
  fresh : s.started = false → s.copy = {}
  passed : s.copy.passed <+: s.sent
  running : s.toHost → s.copy.Exact s.sent
  arrived : s.arrived <+: s.copy.passed
  received : s.received <+: s.arrived
  tar : s.tar = some (some 0) → archived whole s.received
  guestTar : s.guestTar = some (some 0) → archived whole s.sent
  resolved : s.settled = some .resolved → s.tar = some (some 0) ∧ s.started ∧ unfailed s.guestTar
  seen : s.exitSeen → s.settled.isSome
  listened : s.settled ≠ some .crashed

variable {whole guestPath}

theorem Ordered.start : Ordered whole {} :=
  ⟨fun _ => rfl, nofun, fun _ => rfl, List.nil_prefix, fun _ => .start _, List.nil_prefix, List.nil_prefix,
    nofun, nofun, nofun, nofun, nofun⟩

theorem Ordered.settle {s : Pull} (inv : Ordered whole s) (outcome : Outcome)
    (there : s.settled = none → outcome ≠ .crashed)
    (resolved : s.settled = none → outcome = .resolved → s.tar = some (some 0) ∧ s.started ∧
      unfailed s.guestTar) :
    Ordered whole (s.settle outcome) := by
  unfold Pull.settle
  split
  · exact inv
  · rename_i unsettled
    have unsettled := Option.not_isSome_iff_eq_none.mp unsettled
    refine { inv with running := nofun, resolved := ?_, seen := fun _ => rfl, listened := ?_ }
    · exact fun same => resolved unsettled (Option.some.inj same)
    · exact fun same => there unsettled (Option.some.inj same)

theorem Ordered.readHeader {s t : Pull} (inv : Ordered whole s) (step : s.readHeader guestPath = some t) :
    Ordered whole t := by
  unfold Pull.readHeader at step
  split at step
  · exact nomatch step
  · exact Option.some.inj step ▸ { inv with header := nofun, copying := nofun }
  · split at step
    · obtain rfl := Option.some.inj step
      refine { inv with header := nofun, copying := fun _ => rfl, fresh := nofun, resolved := fun resolved => ?_ }
      obtain ⟨tar, -, guest⟩ := inv.resolved resolved
      exact ⟨tar, rfl, guest⟩
    · exact Option.some.inj step ▸ { inv with header := nofun, copying := nofun }

theorem Ordered.step {s t : Pull} {a : PullAction} (inv : Ordered whole s) (sound : s.Sound a)
    (step : step whole guestPath s a = some t) : Ordered whole t := by
  cases a with
  | agentHeader lost =>
    simp only [Pull.step] at step
    split_ifs at step with other lost open_
    · exact Option.some.inj step ▸ { inv with header := nofun, copying := nofun }
    · exact inv.readHeader step
  | guestTarWrites bytes =>
    obtain ⟨⟨started, running⟩, rfl⟩ := Run.guarded step
    have longer : s.sent <+: s.sent ++ bytes := List.prefix_append _ _
    exact { inv with passed := inv.passed.trans longer, running := fun open_ => (inv.running open_).grow longer,
                     guestTar := fun ended => (nomatch running.symm.trans ended) }
  | guestTarEnds exit =>
    obtain ⟨⟨started, running, may⟩, rfl⟩ := Run.guarded step
    refine { inv with guestTar := fun ended => may (Option.some.inj ended), resolved := fun resolved => ?_ }
    obtain ⟨tar, started, -⟩ := inv.resolved resolved
    exact ⟨tar, started, .inr (congrArg some (sound resolved))⟩
  | agentReads n =>
    obtain ⟨⟨copying, done, -, -, there⟩, rfl⟩ := Run.guarded step
    have started : s.started = true := inv.copying (.inl copying)
    exact { inv with running := fun open_ => (inv.running open_).read done there,
                     fresh := fun fresh => (nomatch started.symm.trans fresh) }
  | agentReadsEnd =>
    obtain ⟨⟨copying, -⟩, rfl⟩ := Run.guarded step
    exact { inv with header := nofun, copying := fun _ => inv.copying (.inl copying) }
  | agentWrites n =>
    simp only [Pull.step] at step
    split_ifs at step with idle open_ fits
    · obtain rfl := Option.some.inj step
      have started : s.started = true := inv.copying (.inl (not_not.mp fun other => idle (.inl other)))
      have exact_ := (inv.running open_).write n
      exact { inv with passed := exact_.passed_prefix, running := fun _ => exact_,
                       arrived := inv.arrived.trans (List.prefix_append _ _),
                       fresh := fun fresh => (nomatch started.symm.trans fresh) }
    · obtain rfl := Option.some.inj step
      refine { inv with running := fun open' => absurd open' open_, fresh := fun fresh => ?_ }
      dsimp only
      rw [inv.fresh fresh]
      rfl
  | agentWaits =>
    obtain ⟨-, rfl⟩ := Run.guarded step
    exact { inv with header := nofun, copying := nofun }
  | agentDies =>
    simp only [Pull.step, Option.ite_none_left_eq_some, Option.some.injEq] at step
    obtain ⟨-, rfl⟩ := step
    exact { inv with header := nofun, copying := nofun }
  | stopToGuest =>
    obtain ⟨-, rfl⟩ := Run.guarded step
    exact { inv with }
  | stopToHost =>
    obtain ⟨-, rfl⟩ := Run.guarded step
    exact { inv with running := nofun }
  | sockData n =>
    obtain ⟨-, rfl⟩ := Run.guarded step
    exact { inv with arrived := hop_prefix _ _ _, received := inv.received.trans (prefix_hop inv.arrived n) }
  | sockEnd =>
    obtain ⟨-, rfl⟩ := Run.guarded step
    exact { inv with }
  | sockError =>
    obtain ⟨-, rfl⟩ := Run.guarded step
    exact inv.settle _ nofun nofun
  | tarReads n =>
    obtain ⟨⟨running, -⟩, rfl⟩ := Run.guarded step
    exact { inv with received := hop_prefix _ _ _, tar := fun ended => (nomatch running.symm.trans ended) }
  | tarEnds exit =>
    obtain ⟨⟨running, may⟩, rfl⟩ := Run.guarded step
    refine { inv with tar := fun ended => may (Option.some.inj ended), resolved := fun resolved => ?_ }
    exact nomatch running.symm.trans (inv.resolved resolved).1
  | tarError =>
    obtain ⟨⟨-, -, unsettled⟩, rfl⟩ := Run.guarded step
    unfold Pull.settle
    rw [if_neg (by rw [unsettled]; decide)]
    exact { inv with running := nofun, tar := nofun, resolved := nofun, seen := fun _ => rfl, listened := nofun }
  | tarExit =>
    simp only [Pull.step] at step
    split at step
    · rename_i exit ended unseen
      obtain rfl := Option.some.inj step
      unfold Pull.settle
      split
      · rename_i settled
        exact { inv with seen := fun _ => settled }
      · rename_i unsettled
        have unsettled : s.settled = none := Option.not_isSome_iff_eq_none.mp unsettled
        refine
          { inv with running := nofun, resolved := fun same => ?_, seen := fun _ => rfl,
                     listened := fun same => ?_ }
        · by_cases clean : exit = some 0
          · have ended : s.tar = some (some 0) := clean ▸ ended
            exact ⟨ended, sound unsettled ended⟩
          · rw [if_neg clean] at same
            exact nomatch same
        · have same := Option.some.inj same
          split at same <;> exact nomatch same
    · exact nomatch step
  | stdinError =>
    obtain ⟨-, rfl⟩ := Run.guarded step
    exact inv.settle _ (fun unsettled => absurd unsettled sound) nofun

theorem exec_ordered {as : List PullAction} {s : Pull}
    (met : Run.Meets (Pull.step whole guestPath) Sound {} as)
    (run : exec whole guestPath {} as = some s) : Ordered whole s := by
  have keeps (s : Pull) (a : PullAction) (t : Pull) (inv : Ordered whole s) (sound : s.Sound a)
      (step : Pull.step whole guestPath s a = some t) : Ordered whole t := inv.step sound step
  exact Run.exec_guarded keeps as .start met run

theorem Ordered.ended {s : Pull} (inv : Ordered whole s) (over_ : s.Over whole guestPath) :
    s.tar.isSome ∧ (s.started → s.guestTar.isSome) ∧ s.settled.isSome := by
  have failing (stream : Bytes) : mayExit whole stream (some 1) := nofun
  have tar : s.tar.isSome := by
    cases running : s.tar with
    | some => rfl
    | none =>
      have stuck := over_ (.tarEnds (some 1))
      rw [Pull.step, if_pos ⟨running, failing _⟩] at stuck
      exact nomatch stuck
  refine ⟨tar, fun started => ?_, ?_⟩
  · cases running : s.guestTar with
    | some => rfl
    | none =>
      have stuck := over_ (.guestTarEnds (some 1))
      rw [Pull.step, if_pos ⟨started, running, failing _⟩] at stuck
      exact nomatch stuck
  · obtain ⟨exit, ended⟩ := Option.isSome_iff_exists.mp tar
    refine inv.seen ?_
    by_contra unseen
    have stuck := over_ .tarExit
    simp only [Pull.step, ended, Bool.not_eq_true _ ▸ unseen] at stuck
    exact nomatch stuck

theorem Ordered.received_sent {s : Pull} (inv : Ordered whole s) : s.received <+: s.sent :=
  inv.received.trans (inv.arrived.trans inv.passed)

theorem Ordered.settles {s : Pull} (inv : Ordered whole s) (over_ : s.Over whole guestPath) :
    s.settled = some .resolved ∧ s.Complete whole ∨ s.settled = some .rejected := by
  obtain ⟨-, guestTar, settled⟩ := inv.ended over_
  match outcome : s.settled with
  | none => rw [outcome] at settled; exact nomatch settled
  | some .crashed => exact absurd outcome inv.listened
  | some .rejected => exact .inr rfl
  | some .resolved =>
    obtain ⟨tar, started, guest⟩ := inv.resolved outcome
    have guest : s.guestTar = some (some 0) :=
      guest.resolve_left (Option.isSome_iff_ne_none.mp (guestTar started))
    obtain ⟨archive, there, before⟩ := archived_iff.mp (inv.tar tar)
    exact .inl ⟨rfl, guest, tar, archive, there, before.trans inv.received_sent, before⟩

end Pull

end Machinen.Files
