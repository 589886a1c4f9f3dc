import Machinen.Files.Push
import Machinen.Files.Pull

/-! A transfer that succeeds is complete, in every run that meets the conditions of its steps. -/
namespace Machinen.Files

variable {whole : Bytes → Bool} {guestPath : Bytes}

theorem Push.Over.of_ended {s : Push} (tar : s.tar.isSome) (seen : s.tarExit.isSome)
    (toGuest : s.toGuest = false)
    (toHost : s.toHost = false) (agent : s.agent = .closed) (guestTar : s.guestTar.isSome)
    (closed : s.closed) (settled : s.settled.isSome) : s.Over whole guestPath := by
  obtain ⟨exit, tar⟩ := Option.isSome_iff_exists.mp tar
  obtain ⟨code, seen⟩ := Option.isSome_iff_exists.mp seen
  obtain ⟨guestExit, guestTar⟩ := Option.isSome_iff_exists.mp guestTar
  obtain ⟨outcome, settled⟩ := Option.isSome_iff_exists.mp settled
  intro a
  cases a <;> simp [Push.step, tar, seen, toGuest, toHost, agent, guestTar, closed, settled]

theorem Pull.Over.of_ended {s : Pull} (tar : s.tar.isSome) (seen : s.exitSeen) (toGuest : s.toGuest = false)
    (toHost : s.toHost = false) (agent : s.agent = .closed) (guestTar : s.guestTar.isSome)
    (input : s.inputEnded) (settled : s.settled.isSome) : s.Over whole guestPath := by
  obtain ⟨exit, tar⟩ := Option.isSome_iff_exists.mp tar
  obtain ⟨guestExit, guestTar⟩ := Option.isSome_iff_exists.mp guestTar
  obtain ⟨outcome, settled⟩ := Option.isSome_iff_exists.mp settled
  intro a
  cases a <;> simp [Pull.step, tar, seen, toGuest, toHost, agent, guestTar, input, settled]

/-- Every run of sound steps that has come to its end resolved a complete transfer, or rejected. -/
theorem transfer_complete (whole : Bytes → Bool) (guestPath : Bytes) :
    (newline ∉ guestPath → ∀ as s, Push.exec whole guestPath {} as = some s →
      Run.Meets (Push.step whole guestPath) Push.Sound {} as → s.Over whole guestPath →
      s.settled = some .resolved ∧ s.Complete whole ∨ s.settled = some .rejected) ∧
    ∀ as s, Pull.exec whole guestPath {} as = some s →
      Run.Meets (Pull.step whole guestPath) Pull.Sound {} as → s.Over whole guestPath →
      s.settled = some .resolved ∧ s.Complete whole ∨ s.settled = some .rejected :=
  ⟨fun single _ _ run met over_ => (Push.exec_ordered single met run).settles over_,
    fun _ _ run met over_ => (Pull.exec_ordered met run).settles over_⟩

def zeroEnds (stream : Bytes) : Bool := stream.getLast? == some 0 && !stream.dropLast.contains 0

def somePath : Bytes := [47, 97]

/-- A push whose guest `tar` ends as it likes. -/
def pushRun (exit : Exit) : List PushAction :=
  [.tarWrites [7, 7], .relay 100, .agentHeader false, .agentReads 2, .agentWrites 1, .tarWrites [0, 9],
    .tarEnds (some 0),
    .relay 100, .endStream, .agentWrites 1, .guestTarReads 2, .tarExit, .agentReads 2, .agentWrites 2,
    .agentReadsEnd, .guestTarReads 2, .guestTarEnds exit, .agentWaits, .sockClose]

/-- A pull whose guest `tar` ends as it likes. -/
def pullRun (exit : Exit) : List PullAction :=
  [.agentHeader false, .guestTarWrites [7, 7, 0], .agentReads 3, .agentWrites 3, .guestTarEnds exit,
    .agentReadsEnd, .agentWaits, .sockData 3, .tarReads 3, .sockEnd, .tarEnds (some 0), .tarExit]

theorem transfer_complete_runs : (∃ s, Push.exec zeroEnds somePath {} (pushRun (some 0)) = some s ∧
    s.Complete zeroEnds) ∧
    ∃ s, Pull.exec zeroEnds somePath {} (pullRun (some 0)) = some s ∧ s.Complete zeroEnds := by
  obtain ⟨push, pull⟩ := transfer_complete zeroEnds somePath
  constructor
  · obtain ⟨s, run, tar, seen, toGuest, toHost, agent, guestTar, closed, settled⟩ : ∃ s,
        Push.exec zeroEnds somePath {} (pushRun (some 0)) = some s ∧ s.tar.isSome ∧ s.tarExit.isSome ∧
          s.toGuest = false ∧
        s.toHost = false ∧ s.agent = .closed ∧ s.guestTar.isSome ∧ s.closed ∧
          s.settled = some .resolved := by decide +kernel
    have over_ : s.Over zeroEnds somePath :=
      .of_ended tar seen toGuest toHost agent guestTar closed (by rw [settled]; rfl)
    rcases push (by decide) _ s run (by decide +kernel) over_ with ⟨-, complete⟩ | rejected
    · exact ⟨s, run, complete⟩
    · exact nomatch settled.symm.trans rejected
  · obtain ⟨s, run, tar, seen, toGuest, toHost, agent, guestTar, input, settled⟩ : ∃ s,
        Pull.exec zeroEnds somePath {} (pullRun (some 0)) = some s ∧ s.tar.isSome ∧ s.exitSeen ∧
          s.toGuest = false ∧
        s.toHost = false ∧ s.agent = .closed ∧ s.guestTar.isSome ∧ s.inputEnded ∧
          s.settled = some .resolved := by decide +kernel
    have over_ : s.Over zeroEnds somePath :=
      .of_ended tar seen toGuest toHost agent guestTar input (by rw [settled]; rfl)
    rcases pull _ s run (by decide +kernel) over_ with ⟨-, complete⟩ | rejected
    · exact ⟨s, run, complete⟩
    · exact nomatch settled.symm.trans rejected

/-- The guest's `tar` fails, and both calls resolve. -/
theorem transfer_unseen_failure : (∃ s, Push.exec zeroEnds somePath {} (pushRun (some 2)) = some s ∧
    s.Over zeroEnds somePath ∧
      s.settled = some .resolved ∧ ¬ s.Complete zeroEnds) ∧
    ∃ s, Pull.exec zeroEnds somePath {} (pullRun (some 1)) = some s ∧ s.Over zeroEnds somePath ∧
      s.settled = some .resolved ∧ ¬ s.Complete zeroEnds := by
  constructor
  · obtain ⟨s, run, tar, seen, toGuest, toHost, agent, guestTar, closed, settled⟩ : ∃ s,
        Push.exec zeroEnds somePath {} (pushRun (some 2)) = some s ∧ s.tar.isSome ∧ s.tarExit.isSome ∧
          s.toGuest = false ∧
        s.toHost = false ∧ s.agent = .closed ∧ s.guestTar = some (some 2) ∧ s.closed ∧
          s.settled = some .resolved := by decide +kernel
    refine ⟨s, run, ?_, settled, fun complete => ?_⟩
    · exact .of_ended tar seen toGuest toHost agent (by rw [guestTar]; rfl) closed (by rw [settled]; rfl)
    · exact absurd (guestTar.symm.trans complete.guestTar) (by decide)
  · obtain ⟨s, run, tar, seen, toGuest, toHost, agent, guestTar, input, settled⟩ : ∃ s,
        Pull.exec zeroEnds somePath {} (pullRun (some 1)) = some s ∧ s.tar.isSome ∧ s.exitSeen ∧
          s.toGuest = false ∧
        s.toHost = false ∧ s.agent = .closed ∧ s.guestTar = some (some 1) ∧ s.inputEnded ∧
          s.settled = some .resolved := by decide +kernel
    refine ⟨s, run, ?_, settled, fun complete => ?_⟩
    · exact .of_ended tar seen toGuest toHost agent (by rw [guestTar]; rfl) input (by rw [settled]; rfl)
    · exact absurd (guestTar.symm.trans complete.guestTar) (by decide)

end Machinen.Files
