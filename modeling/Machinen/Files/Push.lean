import Machinen.Files.Agent
import Machinen.Lib.Run

/-! `VsockFiles.push` against `do_push`: the host's `tar`, the socket, the agent's loop and the
guest's `tar`, each of which may stop at any point. -/
namespace Machinen.Files

open Relay

structure Push where
  sent : Bytes := []
  tar : Option Exit := none
  /-- `tarExit` of the listeners. -/
  tarExit : Option Nat := none
  /-- What the socket took of the request and of the archive. -/
  written : Bytes := []
  ended : Bool := false
  toGuest : Bool := true
  toHost : Bool := true
  agent : AgentPc := .header
  /-- Length of the request line that the agent read. -/
  consumed : Nat := 0
  copy : Copy UInt8 := {}
  started : Bool := false
  received : Bytes := []
  guestTar : Option Exit := none
  closed : Bool := false
  settled : Option Outcome := none
  deriving DecidableEq

inductive PushAction where
  | tarWrites (bytes : Bytes)
  | tarEnds (exit : Exit)
  | tarError
  | tarExit
  | relay (n : Nat)
  | endStream
  | stopToGuest
  | stopToHost
  | sockError
  | sockClose
  | agentHeader (lost : Bool)
  | agentReads (n : Nat)
  | agentReadsEnd
  | agentWrites (n : Nat)
  | agentWaits
  | agentDies
  | guestTarReads (n : Nat)
  | guestTarEnds (exit : Exit)
  deriving DecidableEq

namespace Push

/-- The promise is settled once; `finally` destroys the socket. -/
def settle (s : Push) (outcome : Outcome) : Push :=
  if s.settled.isSome then s else { s with settled := some outcome, toGuest := false, toHost := false }

def body (s : Push) : Bytes := s.written.drop s.consumed

def stream (guestPath : Bytes) (s : Push) : Bytes := request pushWord guestPath ++ s.sent

/-- `handle_connection` up to `do_push`; the request of a push is no other command. -/
def readHeader (s : Push) : Option Push :=
  match readLine lineLen s.written with
  | none => if s.ended then some { s with agent := .closed } else none
  | some none => some { s with agent := .closed }
  | some (some line) =>
    match parseCommand line with
    | some (.push _) => some { s with agent := .copying, consumed := line.length + 1, started := true }
    | _ => some { s with agent := .closed }

variable (whole : Bytes → Bool) (guestPath : Bytes)

/-- `code ?? 0` takes a signal for success. -/
def step (s : Push) : PushAction → Option Push
  | .tarWrites bytes => if s.tar = none then some { s with sent := s.sent ++ bytes } else none
  | .tarEnds exit => if s.tar = none ∧ mayExit whole s.sent exit then some { s with tar := some exit } else none
  | .tarError =>
    if s.tar = none ∧ s.sent = [] ∧ s.closed =
      false then some ({ s with tar := some none }.settle .rejected) else none
  | .tarExit =>
    match s.tar, s.tarExit with
    | some exit, none => some { s with tarExit := some (exit.getD 0) }
    | _, _ => none
  | .relay n =>
    if s.toGuest ∧ s.ended = false ∧ 0 < n ∧ s.written.length < (s.stream guestPath).length then
      some { s with written := hop (s.stream guestPath) s.written n }
    else none
  | .endStream =>
    if s.toGuest ∧ s.ended = false ∧ s.tar.isSome ∧
      s.written = s.stream guestPath then some { s with ended := true } else none
  | .stopToGuest => if s.toGuest then some { s with toGuest := false } else none
  | .stopToHost => if s.toHost then some { s with toHost := false } else none
  | .sockError =>
    if s.settled = none ∧ (s.toGuest = false ∨ s.toHost = false ∨ s.agent = .closed) then some
      (s.settle .rejected) else none
  | .sockClose =>
    if s.closed = false ∧ (s.toHost = false ∨ s.agent = .closed) then
      some ({ s with closed := true, toGuest := false, toHost := false }.settle
        (if s.tarExit.getD 0 = 0 then .resolved else .rejected))
    else none
  | .agentHeader lost =>
    if s.agent ≠ .header then none
    else if lost then if s.toGuest then none else some { s with agent := .closed }
    else s.readHeader
  | .agentReads n =>
    if s.agent = .copying ∧ s.copy.buffer = [] ∧ 0 < n ∧ n ≤ chunk ∧ s.copy.taken + n ≤ s.body.length then
      some { s with copy := s.copy.read s.body n }
    else none
  | .agentReadsEnd =>
    if s.agent = .copying ∧ s.copy.buffer = [] ∧
      (s.toGuest = false ∨ s.ended ∧ s.copy.taken = s.body.length) then
      some { s with agent := .waiting }
    else none
  | .agentWrites n =>
    if s.agent ≠ .copying ∨ s.copy.buffer = [] then none
    else if s.guestTar = none then
      if 0 < n ∧ n ≤ s.copy.buffer.length then some { s with copy := s.copy.write n } else none
    else some { s with copy := s.copy.lose }
  | .agentWaits => if s.agent = .waiting ∧ s.guestTar.isSome then some { s with agent := .closed } else none
  | .agentDies => if s.agent = .closed then none else some { s with agent := .closed }
  | .guestTarReads n =>
    if s.started ∧ s.guestTar = none ∧ 0 < n ∧ s.received.length < s.copy.passed.length then
      some { s with received := hop s.copy.passed s.received n }
    else none
  | .guestTarEnds exit =>
    if s.started ∧ s.guestTar = none ∧ mayExit whole s.received exit then some
      { s with guestTar := some exit } else none

abbrev exec : Push → List PushAction → Option Push := Run.exec (step whole guestPath)

def Over (s : Push) : Prop := ∀ a, step whole guestPath s a = none

structure Complete (s : Push) : Prop where
  tar : s.tar = some (some 0)
  guestTar : s.guestTar = some (some 0)
  archive : ∃ archive, whole archive ∧ archive <+: s.sent ∧ archive <+: s.received

/-- The condition on a step: when the socket closes with no failure of the host's `tar` seen, the
guest's has been started and neither has failed; and none fails after that. -/
def Sound (s : Push) : PushAction → Prop
  | .sockClose => s.settled = none → s.tarExit.getD 0 = 0 → s.started ∧ unfailed s.tar ∧ unfailed s.guestTar
  | .tarEnds exit => s.settled = some .resolved → exit = some 0
  | .guestTarEnds exit => s.settled = some .resolved → exit = some 0
  | _ => True

instance decidableSound (s : Push) : (a : PushAction) → Decidable (s.Sound a) := by
  intro a
  cases a <;> unfold Sound <;> dsimp only <;> infer_instance

structure Ordered (s : Push) : Prop where
  written : s.written <+: s.stream guestPath
  header : s.agent = .header → s.started = false
  copying : s.agent = .copying ∨ s.agent = .waiting → s.started = true
  consumed : s.started → s.consumed = (request pushWord guestPath).length
  received : s.received <+: s.copy.passed
  passed : s.started → s.copy.passed <+: s.body
  running : s.started → s.guestTar = none → s.copy.Exact s.body
  fresh : s.started = false → s.copy = {}
  tar : s.tar = some (some 0) → archived whole s.sent
  guestTar : s.guestTar = some (some 0) → archived whole s.received
  resolved : s.settled = some .resolved → s.closed ∧ s.started ∧ unfailed s.tar ∧ unfailed s.guestTar
  closed : s.closed → s.settled.isSome
  listened : s.settled ≠ some .crashed

variable {whole guestPath}

theorem Ordered.start : Ordered whole guestPath {} :=
  ⟨List.nil_prefix, fun _ => rfl, nofun, nofun, List.nil_prefix, nofun, nofun, fun _ => rfl, nofun, nofun,
    nofun, nofun, nofun⟩

theorem Ordered.settle {s : Push} (inv : Ordered whole guestPath s) (outcome : Outcome)
    (there : outcome ≠ .crashed)
    (resolved : s.settled = none → outcome = .resolved → s.closed ∧ s.started ∧ unfailed s.tar ∧
      unfailed s.guestTar) :
    Ordered whole guestPath (s.settle outcome) := by
  unfold Push.settle
  split
  · exact inv
  · rename_i unsettled
    refine { inv with resolved := ?_, closed := fun _ => rfl, listened := ?_ }
    · intro same
      exact resolved (Option.not_isSome_iff_eq_none.mp unsettled) (Option.some.inj same)
    · exact fun same => there (Option.some.inj same)

theorem Ordered.readHeader {s t : Push} (inv : Ordered whole guestPath s) (single : newline ∉ guestPath)
    (agent : s.agent = .header) (step : s.readHeader = some t) : Ordered whole guestPath t := by
  have fresh := inv.fresh (inv.header agent)
  have received := inv.received
  rw [fresh] at received
  unfold Push.readHeader at step
  split at step
  · split at step
    · exact Option.some.inj step ▸ { inv with header := nofun, copying := nofun }
    · exact nomatch step
  · exact Option.some.inj step ▸ { inv with header := nofun, copying := nofun }
  · rename_i line read
    split at step
    · obtain rfl := Option.some.inj step
      refine
        { inv with header := nofun, copying := fun _ => rfl, consumed := ?_, passed := ?_, running := ?_,
                   fresh := nofun, resolved := ?_ }
      · exact fun _ => readLine_of_request inv.written read (by decide) single
      · intro _
        dsimp only
        rw [fresh]
        exact List.nil_prefix
      · intro _ _
        dsimp only
        rw [fresh]
        exact .start _
      · intro resolved
        obtain ⟨closed, -, both⟩ := inv.resolved resolved
        exact ⟨closed, rfl, both⟩
    · exact Option.some.inj step ▸ { inv with header := nofun, copying := nofun }

theorem Ordered.step {s t : Push} {a : PushAction} (inv : Ordered whole guestPath s)
    (single : newline ∉ guestPath)
    (sound : s.Sound a) (step : step whole guestPath s a = some t) : Ordered whole guestPath t := by
  cases a with
  | tarWrites bytes =>
    obtain ⟨running, rfl⟩ := Run.guarded step
    refine { inv with written := inv.written.trans ?_, tar := fun ended => (nomatch running.symm.trans ended) }
    exact ⟨bytes, by simp [stream]⟩
  | tarEnds exit =>
    obtain ⟨⟨running, may⟩, rfl⟩ := Run.guarded step
    refine { inv with tar := fun ended => may (Option.some.inj ended), resolved := fun resolved => ?_ }
    obtain ⟨closed, started, -, guest⟩ := inv.resolved resolved
    exact ⟨closed, started, .inr (congrArg some (sound resolved)), guest⟩
  | tarError =>
    obtain ⟨⟨-, -, open_⟩, rfl⟩ := Run.guarded step
    have inv : Ordered whole guestPath { s with tar := some none } := by
      refine { inv with tar := nofun, resolved := fun resolved => ?_ }
      exact nomatch open_.symm.trans (inv.resolved resolved).1
    exact inv.settle _ nofun nofun
  | tarExit =>
    simp only [Push.step] at step
    split at step
    · exact Option.some.inj step ▸ { inv with }
    · exact nomatch step
  | relay n =>
    obtain ⟨-, rfl⟩ := Run.guarded step
    have longer := prefix_hop inv.written n
    refine
      { inv with written := hop_prefix _ _ _,
                 passed := fun started => (inv.passed started).trans (longer.drop _), running := ?_ }
    exact fun started running => (inv.running started running).grow (longer.drop _)
  | endStream =>
    obtain ⟨-, rfl⟩ := Run.guarded step
    exact { inv with }
  | stopToGuest | stopToHost =>
    obtain ⟨-, rfl⟩ := Run.guarded step
    exact { inv with }
  | sockError =>
    obtain ⟨-, rfl⟩ := Run.guarded step
    exact inv.settle _ nofun nofun
  | sockClose =>
    obtain ⟨-, rfl⟩ := Run.guarded step
    unfold Push.settle
    split
    · rename_i settled
      exact { inv with resolved := fun same => ⟨rfl, (inv.resolved same).2⟩, closed := fun _ => settled }
    · rename_i unsettled
      have unsettled : s.settled = none := Option.not_isSome_iff_eq_none.mp unsettled
      refine { inv with resolved := fun same => ⟨rfl, ?_⟩, closed := fun _ => rfl, listened := fun same => ?_ }
      · by_cases clean : s.tarExit.getD 0 = 0
        · exact sound unsettled clean
        · rw [if_neg clean] at same
          exact nomatch same
      · have same := Option.some.inj same
        split at same <;> exact nomatch same
  | agentHeader lost =>
    simp only [Push.step] at step
    split_ifs at step with other lost open_
    · exact Option.some.inj step ▸ { inv with header := nofun, copying := nofun }
    · exact inv.readHeader single (not_not.mp other) step
  | agentReads n =>
    obtain ⟨⟨copying, done, -, -, there⟩, rfl⟩ := Run.guarded step
    have started : s.started = true := inv.copying (.inl copying)
    refine
      { inv with running := fun started running => (inv.running started running).read done there,
                 fresh := ?_ }
    exact fun fresh => (nomatch started.symm.trans fresh)
  | agentReadsEnd =>
    obtain ⟨⟨copying, -⟩, rfl⟩ := Run.guarded step
    exact { inv with header := nofun, copying := fun _ => inv.copying (.inl copying) }
  | agentWrites n =>
    simp only [Push.step] at step
    split_ifs at step with idle running fits
    · obtain rfl := Option.some.inj step
      have started : s.started = true := inv.copying (.inl (not_not.mp fun other => idle (.inl other)))
      have exact_ := (inv.running started running).write n
      refine { inv with received := inv.received.trans (List.prefix_append _ _), passed :=
        fun _ => exact_.passed_prefix,
                        running := fun _ _ => exact_, fresh := fun fresh => (nomatch started.symm.trans fresh) }
    · obtain rfl := Option.some.inj step
      refine { inv with running := fun _ running' => absurd running' running, fresh := fun fresh => ?_ }
      dsimp only
      rw [inv.fresh fresh]
      rfl
  | agentWaits =>
    obtain ⟨-, rfl⟩ := Run.guarded step
    exact { inv with header := nofun, copying := nofun }
  | agentDies =>
    simp only [Push.step, Option.ite_none_left_eq_some, Option.some.injEq] at step
    obtain ⟨-, rfl⟩ := step
    exact { inv with header := nofun, copying := nofun }
  | guestTarReads n =>
    obtain ⟨⟨started, running, -⟩, rfl⟩ := Run.guarded step
    exact { inv with received := hop_prefix _ _ _, guestTar := fun ended => (nomatch running.symm.trans ended) }
  | guestTarEnds exit =>
    obtain ⟨⟨started, running, may⟩, rfl⟩ := Run.guarded step
    refine
      { inv with running := nofun, guestTar := fun ended => may (Option.some.inj ended),
                 resolved := fun resolved => ?_ }
    obtain ⟨closed, started, host, -⟩ := inv.resolved resolved
    exact ⟨closed, started, host, .inr (congrArg some (sound resolved))⟩

theorem exec_ordered (single : newline ∉ guestPath) {as : List PushAction} {s : Push}
    (met : Run.Meets (Push.step whole guestPath) Sound {} as) (run : exec whole guestPath {} as = some s) :
    Ordered whole guestPath s := by
  have keeps (s : Push) (a : PushAction) (t : Push) (inv : Ordered whole guestPath s) (sound : s.Sound a)
      (step : Push.step whole guestPath s a = some t) : Ordered whole guestPath t :=
    inv.step single sound step
  exact Run.exec_guarded keeps as .start met run

theorem Ordered.ended {s : Push} (inv : Ordered whole guestPath s) (over_ : s.Over whole guestPath) :
    s.tar.isSome ∧ (s.started → s.guestTar.isSome) ∧ s.settled.isSome := by
  have failing (stream : Bytes) : mayExit whole stream (some 1) := nofun
  have tar : s.tar.isSome := by
    cases running : s.tar with
    | some => rfl
    | none =>
      have stuck := over_ (.tarEnds (some 1))
      rw [Push.step, if_pos ⟨running, failing _⟩] at stuck
      exact nomatch stuck
  refine ⟨tar, fun started => ?_, ?_⟩
  · cases running : s.guestTar with
    | some => rfl
    | none =>
      have stuck := over_ (.guestTarEnds (some 1))
      rw [Push.step, if_pos ⟨started, running, failing _⟩] at stuck
      exact nomatch stuck
  · have agent : s.agent = .closed := by
      by_contra alive
      have stuck := over_ .agentDies
      rw [Push.step, if_neg alive] at stuck
      exact nomatch stuck
    refine inv.closed ?_
    by_contra open_
    have stuck := over_ .sockClose
    rw [Push.step, if_pos ⟨Bool.not_eq_true _ ▸ open_, .inr agent⟩] at stuck
    exact nomatch stuck

theorem Ordered.received_sent {s : Push} (inv : Ordered whole guestPath s) (started : s.started) :
    s.received <+: s.sent := by
  refine inv.received.trans ((inv.passed started).trans ?_)
  have behind := inv.written.drop s.consumed
  unfold body
  rw [inv.consumed started] at behind ⊢
  unfold stream at behind
  rwa [List.drop_left] at behind

theorem Ordered.settles {s : Push} (inv : Ordered whole guestPath s) (over_ : s.Over whole guestPath) :
    s.settled = some .resolved ∧ s.Complete whole ∨ s.settled = some .rejected := by
  obtain ⟨tar, guestTar, settled⟩ := inv.ended over_
  match outcome : s.settled with
  | none => rw [outcome] at settled; exact nomatch settled
  | some .crashed => exact absurd outcome inv.listened
  | some .rejected => exact .inr rfl
  | some .resolved =>
    obtain ⟨-, started, host, guest⟩ := inv.resolved outcome
    have host : s.tar = some (some 0) := host.resolve_left (Option.isSome_iff_ne_none.mp tar)
    have guest : s.guestTar = some (some 0) :=
      guest.resolve_left (Option.isSome_iff_ne_none.mp (guestTar started))
    obtain ⟨archive, there, before⟩ := archived_iff.mp (inv.guestTar guest)
    exact .inl ⟨rfl, host, guest, archive, there, before.trans (inv.received_sent started), before⟩

end Push

end Machinen.Files
