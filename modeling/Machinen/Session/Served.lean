import Machinen.Session.Upkeep

/-! Which sessions stay served. The invariant says what a worker that has come so far finds
in its row and at its path, and that no command is about to act on it. -/
namespace Machinen.Lifecycle

open Store

/-- The state of the row of a worker that has come so far. -/
def WorkerPc.expected : WorkerPc → Option SessionState
  | .created | .unlinked | .bound | .listening | .spawned => some .created
  | .ready | .looping => some .running
  | _ => none

/-- The path belongs to a live worker that has come so far. -/
def WorkerPc.holds : WorkerPc → Bool
  | .bound | .listening | .spawned | .ready | .looping => true
  | _ => false

theorem WorkerPc.live_expected {pc : WorkerPc} (live : pc.live = true) :
    ∃ state, pc.expected = some state ∧ (state = .created ∨ state = .running) := by
  cases pc <;> first | cases live; done | exact ⟨_, rfl, by decide⟩

theorem WorkerPc.live_of_expected {pc : WorkerPc} {state : SessionState}
    (expected : pc.expected = some state) : pc.live = true := by
  cases pc <;> first | cases expected; done | rfl

theorem WorkerPc.live_of_holds {pc : WorkerPc} (holds : pc.holds = true) : pc.live = true := by
  cases pc <;> first | cases holds; done | rfl

theorem WorkerPc.unfinished {pc : WorkerPc} (live : pc.live = true) : pc ≠ .done := by
  rintro rfl
  exact nomatch live

theorem WorkerPc.opened {pc : WorkerPc} (live : pc.live = true) (past : pc.opening = false) :
    pc.holds = true ∧ pc.listens = true := by
  cases pc <;> first | cases live; done | cases past; done | exact ⟨rfl, rfl⟩

structure Kept (s : State) (n : Nat) (w : Worker) : Prop where
  row : ∀ state, w.pc.expected = some state → s.rowState w.database w.id = some state
  socket : w.pc.holds = true → s.sockets w.id = some n
  spared : w.pc.live = true → ∀ c ∈ s.commands, c.condemns w.database w.id = false

structure Sound (s : State) : Prop where
  distinct : ∀ (m n : Nat) (v w : Worker), s.workers[m]? = some v → s.workers[n]? = some w →
    v.pc ≠ .done → w.pc ≠ .done →
    v.id = w.id → m = n
  kept : ∀ (n : Nat) (w : Worker), s.workers[n]? = some w → Kept s n w

theorem Sound.start : Sound {} :=
  ⟨fun _ _ _ _ found => (nomatch found), fun _ _ found => (nomatch found)⟩

theorem Sound.served {s : State} (sound : Sound s) : s.Served := by
  intro n w found looping
  have kept := sound.kept n w found
  exact ⟨kept.row _ (by rw [looping]; rfl), kept.socket (by rw [looping]; rfl)⟩

theorem Kept.unfinished {s : State} {n : Nat} {w : Worker} (kept : Kept s n w) (live : w.pc.live = true) :
    ∃ state, s.rowState w.database w.id = some state ∧ Record.finished ⟨w.id, state⟩ = false ∧
      Record.unfinished ⟨w.id, state⟩ = true := by
  obtain ⟨state, expected, early⟩ := WorkerPc.live_expected live
  refine ⟨state, kept.row _ expected, ?_, ?_⟩ <;> rcases early with rfl | rfl <;> rfl

variable {database : String} {faults : List (Option StoreError)}

theorem rowState_of_holding {s t : State} {id : String}
    (same : t.holding database id = s.holding database id) :
    t.rowState database id = s.rowState database id := by
  unfold State.rowState
  rw [same]

theorem Kept.frame {s t : State} {n : Nat} {w : Worker} (kept : Kept s n w)
    (row : w.pc.live = true → t.holding w.database w.id = s.holding w.database w.id)
    (socket : w.pc.live = true → s.sockets w.id = some n → t.sockets w.id = some n)
    (spared : w.pc.live = true → ∀ c ∈ t.commands, c ∈ s.commands ∨ c.condemns w.database w.id = false) :
    Kept t n w := by
  refine ⟨fun state expected => ?_, fun holds => ?_, fun live c listed => ?_⟩
  · rw [rowState_of_holding (row (WorkerPc.live_of_expected expected))]
    exact kept.row state expected
  · exact socket (WorkerPc.live_of_holds holds) (kept.socket holds)
  · exact (spared live c listed).elim (kept.spared live c) id

section Worker

variable {s t : State} {n : Nat} {w : Worker} {pc : WorkerPc} {a : Action}

/-- A step of a worker: nobody else has its id, so nobody else has its row or its path. -/
theorem Sound.advance (sound : Sound s) (found : s.workers[n]? = some w) (running : w.pc ≠ .done)
    (own : a.worker? = some n) (workers : t.workers = s.workers.set n { w with pc := pc })
    (commands : t.commands = s.commands)
    (rows : ∀ database id, ¬ (database = w.database ∧ id = w.id) →
      t.holding database id = s.holding database id)
    (sockets : ∀ id, id ≠ w.id → t.sockets id = s.sockets id)
    (kept : Kept t n { w with pc := pc })
    (exited : s.rowState w.database w.id = some .exited →
      t.rowState w.database w.id = some .exited ∨ t.rowState w.database w.id = none) :
    Sound t ∧ Harmless s a t := by
  have inside : n < s.workers.length := (List.getElem?_eq_some_iff.mp found).1
  have apart : ∀ m v, m ≠ n → s.workers[m]? = some v → v.pc ≠ .done → v.id ≠ w.id :=
    fun m v ne there unfinished same => ne (sound.distinct m n v w there found unfinished running same)
  have here : ∀ m v, t.workers[m]? = some v →
      m = n ∧ v = { w with pc := pc } ∨ m ≠ n ∧ s.workers[m]? = some v := by
    intro m v there
    rw [workers] at there
    by_cases same : m = n
    · subst same
      rw [List.getElem?_set_self inside] at there
      exact .inl ⟨rfl, (Option.some.inj there).symm⟩
    · rw [List.getElem?_set_ne (Ne.symm same)] at there
      exact .inr ⟨same, there⟩
  have others : ∀ m v, m ≠ n → s.workers[m]? = some v → v.pc.live = true →
      t.holding v.database v.id = s.holding v.database v.id ∧
      (s.sockets v.id = some m → t.sockets v.id = some m) := by
    intro m v ne there live
    have other := apart m v ne there (WorkerPc.unfinished live)
    refine ⟨rows _ _ fun same => other same.2, fun held => ?_⟩
    rw [sockets _ other]
    exact held
  refine ⟨⟨?_, ?_⟩, ⟨?_, ?_⟩⟩
  · intro m k v u there here' unfinished unfinished' same
    rcases here m v there with ⟨rfl, rfl⟩ | ⟨ne, there⟩
    · rcases here k u here' with ⟨rfl, -⟩ | ⟨ne', here'⟩
      · rfl
      · exact absurd same.symm (apart k u ne' here' unfinished')
    · rcases here k u here' with ⟨rfl, rfl⟩ | ⟨ne', here'⟩
      · exact absurd same (apart m v ne there unfinished)
      · exact sound.distinct m k v u there here' unfinished unfinished' same
  · intro m v there
    rcases here m v there with ⟨rfl, rfl⟩ | ⟨ne, there⟩
    · exact kept
    · exact (sound.kept m v there).frame (fun live => (others m v ne there live).1)
        (fun live => (others m v ne there live).2) fun _ c listed => .inl (commands ▸ listed)
  · intro m v there live other
    exact others m v (fun same => other (same ▸ own)) there live
  · intro database id was
    by_cases same : database = w.database ∧ id = w.id
    · obtain ⟨rfl, rfl⟩ := same
      exact exited was
    · exact .inl ((rowState_of_holding (rows database id same)).trans was)

theorem Sound.pass (sound : Sound s) (found : s.workers[n]? = some w) (running : w.pc ≠ .done)
    (own : a.worker? = some n) {sockets : String → Option Nat}
    (other : ∀ id, id ≠ w.id → sockets id = s.sockets id)
    (socket : pc.holds = true → sockets w.id = some n)
    (row : ∀ state, pc.expected = some state → w.pc.expected = some state) :
    Sound ({ s with sockets }.setWorker n w pc) ∧ Harmless s a ({ s with sockets }.setWorker n w pc) := by
  have kept := sound.kept n w found
  refine sound.advance found running own rfl rfl (fun _ _ _ => rfl) other
    ⟨fun state expected => kept.row state (row state expected), socket, fun live => ?_⟩ .inl
  obtain ⟨state, expected, -⟩ := WorkerPc.live_expected live
  exact kept.spared (WorkerPc.live_of_expected (row state expected))

theorem Sound.stored (sound : Sound s) (found : s.workers[n]? = some w) (running : w.pc ≠ .done)
    (own : a.worker? = some n) (only : Only w.database w.id s t)
    (row : ∀ state, pc.expected = some state → t.rowState w.database w.id = some state)
    (live : pc.live = true → w.pc.live = true) (holds : pc.holds = true → w.pc.holds = true)
    (exited : s.rowState w.database w.id = some .exited →
      t.rowState w.database w.id = some .exited ∨ t.rowState w.database w.id = none) :
    Sound (t.setWorker n w pc) ∧ Harmless s a (t.setWorker n w pc) := by
  have kept := sound.kept n w found
  refine sound.advance found running own ?_ only.commands only.others
    (fun id _ => congrFun only.sockets id) ⟨row, fun held => ?_, fun lives c listed => ?_⟩ exited
  · exact congrArg (·.set n { w with pc := pc }) only.workers
  · exact (congrFun only.sockets w.id).trans (kept.socket (holds held))
  · exact kept.spared (live lives) c (only.commands ▸ listed)

end Worker

section Command

variable {s t : State} {k : Nat} {c : Command} {pc : CommandPc} {a : Action}

theorem Sound.serve (sound : Sound s) (workers : t.workers = s.workers)
    (commands : t.commands = s.commands.set k { c with pc := pc })
    (rows : ∀ (n : Nat) (w : Worker), s.workers[n]? = some w → w.pc.live = true →
      t.holding w.database w.id = s.holding w.database w.id)
    (sockets : ∀ (n : Nat) (w : Worker), s.workers[n]? = some w → w.pc.live = true → s.sockets w.id = some n →
      t.sockets w.id = some n)
    (spared : ∀ (n : Nat) (w : Worker), s.workers[n]? = some w → w.pc.live = true →
      Command.condemns { c with pc := pc } w.database w.id = false)
    (exited : ∀ database id, s.rowState database id = some .exited →
      t.rowState database id = some .exited ∨ t.rowState database id = none) :
    Sound t ∧ Harmless s a t := by
  refine ⟨⟨fun m n v w there there' => ?_, fun n w there => ?_⟩, fun n w there live _ => ?_, exited⟩
  · rw [workers] at there there'
    exact sound.distinct m n v w there there'
  · rw [workers] at there
    refine (sound.kept n w there).frame (rows n w there) (sockets n w there) fun live other listed => ?_
    rw [commands] at listed
    rcases List.mem_or_eq_of_mem_set listed with old | rfl
    · exact .inl old
    · exact .inr (spared n w there live)
  · exact ⟨rows n w there live, sockets n w there live⟩

theorem Sound.look (sound : Sound s)
    (spared : ∀ (n : Nat) (w : Worker), s.workers[n]? = some w → w.pc.live = true →
      Command.condemns { c with pc := pc } w.database w.id = false) :
    Sound (s.setCommand k c pc) ∧ Harmless s a (s.setCommand k c pc) :=
  sound.serve rfl rfl (fun _ _ _ _ => rfl) (fun _ _ _ _ held => held) spared fun _ _ => .inl

theorem Sound.condemned (sound : Sound s) (found : s.commands[k]? = some c)
    {id : String} (only : Only database id s t) (condemns : c.condemns database id = true)
    (spared : ∀ (n : Nat) (w : Worker), s.workers[n]? = some w → w.pc.live = true →
      Command.condemns { c with pc := pc } w.database w.id = false)
    (exited : s.rowState database id = some .exited →
      t.rowState database id = some .exited ∨ t.rowState database id = none) :
    Sound (t.setCommand k c pc) ∧ Harmless s a (t.setCommand k c pc) := by
  refine sound.serve only.workers (congrArg (·.set k { c with pc := pc }) only.commands)
    (fun n w there live => ?_) (fun n w _ _ held => (congrFun only.sockets w.id).trans held) spared
    fun database' id' was => ?_
  · refine only.others _ _ fun same => ?_
    have safe := (sound.kept n w there).spared live c (List.mem_of_getElem? found)
    rw [same.1, same.2, condemns] at safe
    exact nomatch safe
  · by_cases same : database' = database ∧ id' = id
    · obtain ⟨rfl, rfl⟩ := same
      exact exited was
    · exact .inl ((rowState_of_holding (only.others database' id' same)).trans was)

end Command

section Steps

variable {s t : State} {a : Action}

theorem runWorker_sound (sound : Sound s) {n : Nat} {w : Worker} (found : s.workers[n]? = some w)
    (own : a.worker? = some n) {ok : Bool}
    (step : s.runWorker n w ok faults = some t) : Sound t ∧ Harmless s a t := by
  have kept := sound.kept n w found
  have same : ∀ id, id ≠ w.id → s.sockets id = s.sockets id := fun _ _ => rfl
  have other (owner : Option Nat) : ∀ id, id ≠ w.id →
      Function.update s.sockets w.id owner id = s.sockets id := fun id ne => Function.update_of_ne ne ..
  have running : w.pc ≠ .done := by
    intro done
    rw [State.runWorker, done] at step
    exact nomatch step
  unfold State.runWorker at step
  cases pc : w.pc with
  | created =>
    rw [pc] at step
    dsimp only at step
    split at step
    · cases step
      exact sound.pass found running own (other none) nofun (by rw [pc]; exact fun _ => id)
    · cases step
      exact sound.pass found running own same nofun nofun
  | unlinked =>
    rw [pc] at step
    dsimp only at step
    split at step
    · cases step
      exact sound.pass found running own (other (some n)) (fun _ => Function.update_self ..)
        (by rw [pc]; exact fun _ => id)
    · cases step
      exact sound.pass found running own same nofun nofun
  | bound | listening | ready =>
    rw [pc] at step
    cases step
    cases ok with
    | true =>
      exact sound.pass found running own same (fun _ => kept.socket (by rw [pc]; rfl))
        (by rw [pc]; exact fun _ => id)
    | false => exact sound.pass found running own same nofun nofun
  | spawned =>
    rw [pc] at step
    have created : s.rowState w.database w.id = some .created := kept.row _ (by rw [pc]; rfl)
    dsimp only at step
    cases step
    cases returned : (s.call w.database (.setRunning w.id w.pid) faults).2 with
    | true =>
      obtain ⟨only, row⟩ := State.setRunning_called returned
      refine sound.stored found running own only ?_ (by rw [pc]; exact id) (by rw [pc]; exact id) ?_
      · rintro state ⟨⟩
        exact row
      · intro exited
        exact nomatch created.symm.trans exited
    | false =>
      rcases State.call_cases s w.database (.setRunning w.id w.pid) faults with ⟨_, _, _, called⟩ | called
      · rw [called] at returned
        exact nomatch returned
      · rw [called]
        exact sound.pass found running own same nofun nofun
  | looping =>
    rw [pc] at step
    exact nomatch step
  | saving exitCode =>
    rw [pc] at step
    cases step
    exact sound.pass found running own same nofun nofun
  | exiting exitCode =>
    rw [pc] at step
    cases step
    obtain ⟨only, row⟩ := State.setExited_called s w.database w.id exitCode faults
    refine sound.stored found running own only nofun nofun nofun fun exited => .inl ?_
    exact row.elim id fun unchanged => unchanged.trans exited
  | closing failed =>
    rw [pc] at step
    cases step
    exact sound.pass found running own same nofun nofun
  | unlinking failed =>
    rw [pc] at step
    cases step
    cases ok <;> cases failed
    · exact sound.pass found running own same nofun nofun
    · exact sound.pass found running own same nofun nofun
    · exact sound.pass found running own (other none) nofun nofun
    · exact sound.pass found running own (other none) nofun nofun
  | deleting =>
    rw [pc] at step
    cases step
    obtain ⟨only, row⟩ := State.deleteSession_called s w.database w.id faults
    refine sound.stored found running own only nofun nofun nofun fun exited => ?_
    exact row.elim .inr fun unchanged => .inl (unchanged.trans exited)
  | done => exact absurd pc running

theorem saveCheckpoint_sound (sound : Sound s) {n : Nat} {w : Worker} (found : s.workers[n]? = some w)
    (own : a.worker? = some n) {sequence : UInt64} {formatVersion columns rows : UInt32} {payload : Bytes}
    (step : s.saveCheckpoint n w
      (.replaceRecoveryCheckpoint w.id sequence formatVersion payload columns rows) faults = some t) :
    Sound t ∧ Harmless s a t := by
  have kept := sound.kept n w found
  obtain ⟨only, row⟩ := State.replaceRecoveryCheckpoint_called s w.database w.id sequence formatVersion
    columns rows payload faults
  unfold State.saveCheckpoint at step
  cases pc : w.pc with
  | looping =>
    rw [pc] at step
    cases step
    refine sound.stored found (by rw [pc]; exact nofun) own only ?_ (by rw [pc]; exact id)
      (by rw [pc]; exact id) fun exited => .inl (row.trans exited)
    rintro state ⟨⟩
    exact row.trans (kept.row _ (by rw [pc]; rfl))
  | saving exitCode =>
    rw [pc] at step
    cases step
    exact sound.stored found (by rw [pc]; exact nofun) own only nofun nofun nofun
      fun exited => .inl (row.trans exited)
  | _ =>
    rw [pc] at step
    exact nomatch step

theorem Kept.finished {n : Nat} {w : Worker} (kept : Kept s n w) (live : w.pc.live = true)
    {records : List Record} (read : records.Perm (s.records w.database)) {record : Record}
    (listed : record ∈ records) (same : record.id = w.id) : record.finished = false := by
  obtain ⟨entry, there, rfl⟩ := List.mem_map.mp (read.mem_iff.mp listed)
  have found : (s.databases w.database).sessions.lookup w.id = some entry.2 :=
    AList.mem_lookup_iff.mpr (same ▸ there)
  obtain ⟨state, row, unfinished, -⟩ := kept.unfinished live
  unfold State.rowState State.holding at row
  rw [found, Option.map_some, Option.some.injEq] at row
  unfold Record.finished at unfinished ⊢
  rw [row]
  exact unfinished

theorem Kept.reachable {n : Nat} {w : Worker} (kept : Kept s n w) (found : s.workers[n]? = some w)
    (live : w.pc.live = true) (past : w.pc.opening = false) : s.workerReachable w.id = true := by
  obtain ⟨holds, listens⟩ := WorkerPc.opened live past
  unfold State.workerReachable
  rw [kept.socket holds]
  dsimp only
  rw [found]
  exact listens

theorem runCommand_sound (sound : Sound s) {k : Nat} {c : Command} (found : s.commands[k]? = some c)
    (careful : ∀ w ∈ s.workers, w.pc.opening = true → c.judges w.database w.id = false)
    {records : List Record} {old : Bool}
    (step : s.runCommand k c records old faults = some t) : Sound t ∧ Harmless s a t := by
  have mem : c ∈ s.commands := List.mem_of_getElem? found
  have spared : ∀ (n : Nat) (w : Worker), s.workers[n]? = some w → w.pc.live = true →
      c.condemns w.database w.id = false := fun n w there live => (sound.kept n w there).spared live c mem
  unfold State.runCommand at step
  split at step
  case h_1 pc =>
    cases step
    refine sound.look fun _ _ _ _ => ?_
    unfold State.afterReconcile
    split <;> rfl
  case h_2 record rest pc =>
    cases step
    refine sound.look fun n w there live => ?_
    split
    case isTrue judged =>
      refine decide_eq_false fun same => ?_
      cases opening : w.pc.opening with
      | true =>
        have kind := careful w (List.mem_of_getElem? there) opening
        rw [Command.judges, pc] at kind
        exact of_decide_eq_false kind ⟨judged.1, same⟩
      | false =>
        have reachable := (sound.kept n w there).reachable there live opening
        rw [← same, judged.2] at reachable
        exact nomatch reachable
    case isFalse => rfl
  case h_3 id rest pc =>
    dsimp only at step
    cases step
    obtain ⟨only, row⟩ := State.markOrphaned_called s c.database id faults
    refine sound.condemned found only ?_ (fun n w there live => ?_)
      fun exited => .inl (row exited)
    · rw [Command.condemns, pc]
      exact decide_eq_true rfl
    · split
      · have safe := spared n w there live
        rw [Command.condemns, pc] at safe
        exact safe
      · rfl
  case h_4 id rest pc =>
    cases step
    refine sound.serve rfl rfl (fun _ _ _ _ => rfl) (fun n w there live held => ?_)
      (fun _ _ _ _ => ?_) fun _ _ => .inl
    · have safe := spared n w there live
      rw [Command.condemns, pc] at safe
      exact (Function.update_of_ne (fun same => of_decide_eq_false safe same.symm) ..).trans held
    · rfl
  case h_5 pc =>
    split at step
    case isTrue read =>
      cases step
      refine sound.look fun n w there live => ?_
      split
      · rfl
      · refine decide_eq_false fun ⟨same, record, listed, named, finished⟩ => ?_
        have early := (sound.kept n w there).finished live (same ▸ read) listed named
        rw [finished] at early
        exact nomatch early
    case isFalse => exact nomatch step
  case h_6 pc =>
    cases step
    exact sound.look fun _ _ _ _ => rfl
  case h_7 record rest pc =>
    have later : ∀ (n : Nat) (w : Worker), s.workers[n]? = some w → w.pc.live = true →
        Command.condemns { c with pc := .sweeping rest } w.database w.id = false := by
      intro n w there live
      have safe := spared n w there live
      rw [Command.condemns, pc] at safe
      exact decide_eq_false fun ⟨same, other, listed, more⟩ =>
        of_decide_eq_false safe ⟨same, other, List.mem_cons_of_mem _ listed, more⟩
    split at step
    case isTrue old =>
      dsimp only at step
      cases step
      obtain ⟨only, row⟩ := State.deleteSession_called s c.database record.id faults
      refine sound.condemned found only ?_
        (fun n w there live => ?_) fun exited => row.elim .inr fun unchanged => .inl (unchanged.trans exited)
      · rw [Command.condemns, pc]
        exact decide_eq_true ⟨rfl, record, List.mem_cons_self, rfl, old.1⟩
      · split
        · exact later n w there live
        · rfl
    case isFalse =>
      cases step
      exact sound.look later
  case h_8 id pc =>
    cases step
    refine sound.look fun n w there live => ?_
    split
    case isTrue => rfl
    case isFalse unreachable =>
      refine decide_eq_false fun ⟨same, named⟩ => ?_
      cases opening : w.pc.opening with
      | true =>
        have kind := careful w (List.mem_of_getElem? there) opening
        rw [Command.judges, pc] at kind
        exact of_decide_eq_false kind ⟨same, named⟩
      | false => exact unreachable (named ▸ (sound.kept n w there).reachable there live opening)
  case h_9 id pc =>
    cases step
    obtain ⟨only, row⟩ := State.markOrphaned_called s c.database id faults
    refine sound.condemned found only ?_ (fun _ _ _ _ => rfl)
      fun exited => .inl (row exited)
    rw [Command.condemns, pc]
    exact decide_eq_true ⟨rfl, rfl⟩
  case h_10 id pc =>
    cases step
    obtain ⟨only, row⟩ := State.deleteSession_called s c.database id faults
    refine sound.condemned found only ?_ (fun _ _ _ _ => rfl)
      fun exited => row.elim .inr fun unchanged => .inl (unchanged.trans exited)
    rw [Command.condemns, pc]
    exact decide_eq_true ⟨rfl, rfl⟩
  case h_11 => exact nomatch step

theorem start_sound (sound : Sound s) {input : CreateSession} {pid : Int}
    (free : ∀ w ∈ s.workers, w.id = input.id → w.pc = .done)
    (spared : ∀ c ∈ s.commands, c.condemns database input.id = false)
    (returned : (s.call database (.createSession input) faults).2 = true) :
    let t := (s.call database (.createSession input) faults).1
    Sound { t with workers := t.workers ++ [{ database, id := input.id, pid }] } ∧
    Harmless s a { t with workers := t.workers ++ [{ database, id := input.id, pid }] } := by
  intro t
  obtain ⟨only, absent, created⟩ := State.createSession_called returned
  have here : ∀ (n : Nat) (w : Worker), (t.workers ++ [{ database, id := input.id, pid }])[n]? = some w →
      s.workers[n]? = some w ∨ n = s.workers.length ∧ w = { database, id := input.id, pid } := by
    intro n w there
    rw [only.workers] at there
    rcases Nat.lt_or_ge n s.workers.length with inside | past
    · exact .inl ((List.getElem?_append_left inside).symm.trans there)
    · rw [List.getElem?_append_right past, List.getElem?_singleton] at there
      split at there
      · exact .inr ⟨by omega, (Option.some.inj there).symm⟩
      · exact nomatch there
  have apart : ∀ w ∈ s.workers, w.pc ≠ .done → w.id ≠ input.id :=
    fun w listed running same => running (free w listed same)
  have others : ∀ (n : Nat) (w : Worker), s.workers[n]? = some w → w.pc.live = true →
      t.holding w.database w.id = s.holding w.database w.id := fun n w there live =>
    only.others _ _ fun same => apart w (List.mem_of_getElem? there) (WorkerPc.unfinished live) same.2
  have sockets : t.sockets = s.sockets := only.sockets
  refine ⟨⟨fun m n v w there there' running running' same => ?_, fun n w there => ?_⟩,
    ⟨fun n w there live _ => ⟨others n w there live, fun held => sockets ▸ held⟩, fun database' id' was => ?_⟩⟩
  · rcases here m v there with old | ⟨rfl, rfl⟩ <;> rcases here n w there' with old' | ⟨rfl, rfl⟩
    · exact sound.distinct m n v w old old' running running' same
    · exact absurd same (apart v (List.mem_of_getElem? old) running)
    · exact absurd same.symm (apart w (List.mem_of_getElem? old') running')
    · rfl
  · rcases here n w there with old | ⟨rfl, rfl⟩
    · exact (sound.kept n w old).frame (others n w old) (fun _ held => sockets ▸ held)
        fun _ c listed => .inl (only.commands ▸ listed)
    · refine ⟨?_, nofun, fun _ c listed => spared c (only.commands ▸ listed)⟩
      rintro state ⟨⟩
      exact created
  · by_cases same : database' = database ∧ id' = input.id
    · obtain ⟨rfl, rfl⟩ := same
      exact nomatch absent.symm.trans was
    · exact .inl ((rowState_of_holding (only.others database' id' same)).trans was)

theorem launch_sound (sound : Sound s) {task : Task} {records : List Record}
    {pc : CommandPc} (launched : s.launched database records task = some pc) :
    Sound { s with commands := s.commands ++ [{ database, task, pc }] } ∧
    Harmless s a { s with commands := s.commands ++ [{ database, task, pc }] } := by
  have fresh : ∀ (n : Nat) (w : Worker), s.workers[n]? = some w → w.pc.live = true →
      Command.condemns { database, task, pc } w.database w.id = false := by
    intro n w there live
    obtain ⟨state, row, -, unfinished⟩ := (sound.kept n w there).unfinished live
    unfold State.launched at launched
    cases task with
    | list | reconcile =>
      obtain ⟨-, rfl⟩ := Run.guarded launched
      rfl
    | gc dryRun =>
      dsimp only at launched
      split at launched
      · cases launched
        rfl
      · obtain ⟨-, rfl⟩ := Run.guarded launched
        rfl
    | attach id =>
      obtain ⟨found, -, same⟩ := Option.map_eq_some_iff.mp launched
      split at same <;> cases same <;> rfl
    | delete id =>
      obtain ⟨found, here, same⟩ := Option.map_eq_some_iff.mp launched
      split at same
      · cases same
        rfl
      · rename_i finished
        cases same
        refine decide_eq_false fun ⟨same, named⟩ => finished ?_
        have named : id = w.id := named
        have same : database = w.database := same
        rw [same, named, row] at here
        cases here
        exact unfinished
  refine ⟨⟨sound.distinct, fun n w there => ?_⟩, ⟨fun n w there live _ => ⟨rfl, id⟩, fun _ _ => .inl⟩⟩
  refine (sound.kept n w there).frame (fun _ => rfl) (fun _ => id) fun live c listed => ?_
  rcases List.mem_append.mp listed with old | new
  · exact .inl old
  · cases List.mem_singleton.mp new
    exact .inr (fresh n w there live)

theorem step_sound (sound : Sound s) (careful : Careful s a) (step : s.step a = some t) :
    Sound t ∧ Harmless s a t := by
  cases a with
  | start database input pid faults =>
    let called := s.call database (.createSession input) faults
    have made : (if called.2 = true
        then { called.1 with workers := called.1.workers ++ [{ database, id := input.id, pid }] }
        else called.1) = t := Option.some.inj step
    cases returned : called.2 with
    | true =>
      rw [returned, if_pos rfl] at made
      exact made ▸ start_sound sound careful.1 careful.2 returned
    | false =>
      rw [returned, if_neg nofun] at made
      have same : called.1 = s := by
        rcases State.call_cases s database (.createSession input) faults with ⟨_, _, _, ended⟩ | ended
        · exact nomatch (congrArg Prod.snd ended).symm.trans returned
        · exact congrArg Prod.fst ended
      rw [← made, same]
      exact ⟨sound, fun _ _ _ _ _ => ⟨rfl, id⟩, fun _ _ => .inl⟩
  | proceed n ok faults =>
    obtain ⟨w, found, step⟩ := Option.bind_eq_some_iff.mp step
    exact runWorker_sound sound found rfl step
  | journal n sequence formatVersion payload columns rows faults =>
    obtain ⟨w, found, step⟩ := Option.bind_eq_some_iff.mp step
    exact saveCheckpoint_sound sound found rfl step
  | exit n exitCode =>
    obtain ⟨w, found, step⟩ := Option.bind_eq_some_iff.mp step
    obtain ⟨looping, rfl⟩ := Run.guarded step
    exact sound.pass found (by rw [looping]; exact nofun) rfl (fun _ _ => rfl) nofun nofun
  | kill n =>
    obtain ⟨w, found, step⟩ := Option.bind_eq_some_iff.mp step
    obtain ⟨running, made⟩ := Option.ite_none_left_eq_some.mp step
    cases made
    exact sound.pass found running rfl (fun _ _ => rfl) nofun nofun
  | launch database task records =>
    obtain ⟨pc, launched, rfl⟩ := Option.map_eq_some_iff.mp step
    exact launch_sound sound launched
  | command k records old faults =>
    obtain ⟨c, found, step⟩ := Option.bind_eq_some_iff.mp step
    exact runCommand_sound sound found (careful c found) step
  | abandon k =>
    obtain ⟨c, found, rfl⟩ := Option.map_eq_some_iff.mp step
    exact sound.look fun _ _ _ _ => rfl

end Steps

/-- In a careful run every session with a running loop is served, and nobody does anything
to a session that another worker has under its hands. -/
theorem sessions_served (actions : List Action) (s : State) (careful : Run.Meets State.step Careful {} actions)
    (ran : State.exec {} actions = some s) :
    s.Served ∧ ∀ a t, Careful s a → s.step a = some t → Harmless s a t := by
  have sound : Sound s := Run.exec_guarded (fun _ _ _ sound careful step => (step_sound sound careful step).1)
    actions Sound.start careful ran
  exact ⟨sound.served, fun a t careful step => (step_sound sound careful step).2⟩

def shell : CreateSession :=
  { id := "term", workingDirectory := "/", argvJson := "[]", rows := 24, columns := 80 }

/-- A worker starts, and a list finds it listening. -/
def attended : List Action :=
  [.start "sessions.db" shell 7 [], .proceed 0 true [], .proceed 0 true [], .proceed 0 true [],
    .proceed 0 true [], .proceed 0 true [], .proceed 0 true [],
    .launch "sessions.db" .list [⟨"term", .running⟩], .command 0 [] false []]

theorem sessions_served_attended : ∃ s, State.exec {} attended = some s ∧
    (s.Served ∧ ∀ a t, Careful s a → s.step a = some t → Harmless s a t) ∧
    s.workers.map Worker.pc = [.looping] := by
  have ran : (State.exec {} attended).any fun s => s.workers.map Worker.pc = [.looping] := by decide +kernel
  obtain ⟨s, ran, looping⟩ := (Option.any_eq_true ..).mp ran
  exact ⟨s, ran, sessions_served attended s (by decide +kernel) ran, of_decide_eq_true looping⟩

/-- `reconcile` looks between the row's insertion and the call of `listen`: it marks the new
session and removes the socket that has been bound by then. -/
def hasty : List Action :=
  [.start "sessions.db" shell 7 [], .launch "sessions.db" .reconcile [⟨"term", .created⟩],
    .command 0 [] false [], .proceed 0 true [], .proceed 0 true [], .proceed 0 true [],
    .command 0 [] false [], .command 0 [] false [], .proceed 0 true [], .proceed 0 true [],
    .proceed 0 true []]

theorem session_orphaned : ∃ s, State.exec {} hasty = some s ∧ ¬ s.Served := by
  have ran : (State.exec {} hasty).any fun s =>
      s.workers[0]?.map Worker.pc = some .looping ∧ s.sockets "term" = none ∧
      s.workers[0]?.map Worker.id = some "term" := by decide +kernel
  obtain ⟨s, ran, shown⟩ := (Option.any_eq_true ..).mp ran
  obtain ⟨looping, gone, named⟩ := of_decide_eq_true shown
  obtain ⟨w, found, looping⟩ := Option.map_eq_some_iff.mp looping
  rw [found] at named
  refine ⟨s, ran, fun served => ?_⟩
  have bound := (served 0 w found looping).2
  rw [Option.some.inj named, gone] at bound
  exact nomatch bound

end Machinen.Lifecycle
