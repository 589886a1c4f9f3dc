import Machinen.Session.Lifecycle

/-! What the statements and the socket calls of workers and commands do to the sessions of
other workers. -/
namespace Machinen.Lifecycle

open Store Prog Connection

/-- Only one session of one database may have changed. -/
structure Only (database id : String) (s t : State) : Prop where
  others : ∀ database' id', ¬ (database' = database ∧ id' = id) →
    t.holding database' id' = s.holding database' id'
  workers : t.workers = s.workers
  commands : t.commands = s.commands
  sockets : t.sockets = s.sockets

theorem Only.refl (database id : String) (s : State) : Only database id s s :=
  ⟨fun _ _ _ => rfl, rfl, rfl, rfl⟩

namespace State

variable {s : State} {database id : String} {faults : List (Option StoreError)}

def putDatabase (s : State) (database : String) (db : Database) : State :=
  { s with databases := Function.update s.databases database db }

@[simp] theorem putDatabase_self (s : State) (database : String) (db : Database) :
    (s.putDatabase database db).databases database = db := Function.update_self ..

theorem putDatabase_only {db : Database}
    (spares : ∀ other, other ≠ id →
      db.sessions.lookup other = (s.databases database).sessions.lookup other ∧
      db.events other = (s.databases database).events other ∧
      db.checkpoints other = (s.databases database).checkpoints other) :
    Only database id s (s.putDatabase database db) := by
  refine ⟨fun database' id' other => ?_, rfl, rfl, rfl⟩
  unfold holding
  by_cases same : database' = database
  · subst same
    obtain ⟨row, events, checkpoints⟩ := spares id' fun eq => other ⟨rfl, eq⟩
    rw [putDatabase_self, row, events, checkpoints]
  · rw [show (s.putDatabase database db).databases database' = s.databases database' from
      Function.update_of_ne same ..]

theorem putDatabase_rowState (db : Database) :
    (s.putDatabase database db).rowState database id = (db.sessions.lookup id).map Session.state := by
  unfold rowState holding
  rw [putDatabase_self]

theorem call_cases (s : State) (database : String) (operation : Operation)
    (faults : List (Option StoreError)) :
    (∃ value store, operation.run { working := s.databases database, faults } = (.ok value, store) ∧
      s.call database operation faults = (s.putDatabase database store.working, true)) ∨
    s.call database operation faults = (s, false) := by
  unfold call
  match ran : operation.run { working := s.databases database, faults } with
  | (.ok value, store) => exact .inl ⟨value, store, rfl, rfl⟩
  | (.error e, store) =>
    have failed := run_atomic operation (s.databases database)
      { working := s.databases database, faults } ⟨rfl, rfl⟩
    rw [ran] at failed
    right
    dsimp only
    rw [failed.2, Function.update_eq_self]
    rfl

theorem createSession_called {input : CreateSession}
    (returned : (s.call database (.createSession input) faults).2 = true) :
    Only database input.id s (s.call database (.createSession input) faults).1 ∧
    s.rowState database input.id = none ∧
    (s.call database (.createSession input) faults).1.rowState database input.id = some .created := by
  rcases call_cases s database (.createSession input) faults with ⟨value, store, ran, called⟩ | called
  · rw [called]
    obtain ⟨_, ran, -⟩ := map_inv ran
    obtain ⟨-, ran⟩ := checked_inv ran
    obtain ⟨-, ran⟩ := checked_inv ran
    obtain ⟨-, ran⟩ := checked_inv ran
    obtain ⟨-, ran⟩ := checked_inv ran
    obtain ⟨_, m, asked, ran⟩ := bind_inv ran
    obtain ⟨-, same, -⟩ := query_ok asked
    obtain ⟨-, ran⟩ := checked_inv ran
    obtain ⟨-, ran⟩ := checked_inv ran
    have inserted := (execute_ok ran).1
    rw [same] at inserted
    have fresh : (s.databases database).sessions.lookup input.id = none := by
      obtain ⟨fresh, -⟩ := Touched.insertSession inserted
      exact AList.lookup_eq_none.mpr fresh
    obtain ⟨-, session, -, touched⟩ := Touched.insertSession inserted
    refine ⟨putDatabase_only touched.others, by rw [rowState, holding, fresh]; rfl, ?_⟩
    rw [putDatabase_rowState]
    unfold insertSession at inserted
    split at inserted
    · exact nomatch inserted
    · obtain ⟨-, made⟩ := Prod.mk.inj (Except.ok.inj inserted)
      rw [← made, AList.lookup_insert]
      rfl
  · rw [called] at returned
    exact nomatch returned

theorem updateSession_spares {set : Session → Session} {n : Nat} {db db' : Database}
    (ran : updateSession id set db = .ok (n, db')) :
    (∀ other, other ≠ id → db'.sessions.lookup other = db.sessions.lookup other ∧
      db'.events other = db.events other ∧ db'.checkpoints other = db.checkpoints other) ∧
    db'.sessions.lookup id = (db.sessions.lookup id).map set := by
  cases found : db.sessions.lookup id with
  | none =>
    unfold updateSession at ran
    rw [found] at ran
    cases ran
    exact ⟨fun _ _ => ⟨rfl, rfl, rfl⟩, found⟩
  | some session =>
    have touched := (Touched.start found).update ran
    exact ⟨touched.others, touched.session⟩

theorem setRunning_called {pid : Int}
    (returned : (s.call database (.setRunning id pid) faults).2 = true) :
    Only database id s (s.call database (.setRunning id pid) faults).1 ∧
    (s.call database (.setRunning id pid) faults).1.rowState database id = some .running := by
  rcases call_cases s database (.setRunning id pid) faults with ⟨value, store, ran, called⟩ | called
  · rw [called]
    obtain ⟨_, ran, -⟩ := map_inv ran
    obtain ⟨-, ran⟩ := checked_inv ran
    obtain ⟨n, changed, updated, -⟩ := changed_ok ran
    obtain ⟨session, -, touched⟩ := updateSession_ok updated changed
    refine ⟨putDatabase_only touched.others, ?_⟩
    rw [putDatabase_rowState, touched.session]
    rfl
  · rw [called] at returned
    exact nomatch returned

theorem setExited_called (s : State) (database id : String) (exitCode : Int)
    (faults : List (Option StoreError)) :
    Only database id s (s.call database (.setExited id exitCode) faults).1 ∧
    ((s.call database (.setExited id exitCode) faults).1.rowState database id = some .exited ∨
      (s.call database (.setExited id exitCode) faults).1.rowState database id =
        s.rowState database id) := by
  rcases call_cases s database (.setExited id exitCode) faults with ⟨value, store, ran, called⟩ | called
  · rw [called]
    obtain ⟨_, ran, -⟩ := map_inv ran
    obtain ⟨n, changed, updated, -⟩ := changed_ok ran
    obtain ⟨session, -, touched⟩ := updateSession_ok updated changed
    refine ⟨putDatabase_only touched.others, .inl ?_⟩
    rw [putDatabase_rowState, touched.session]
    rfl
  · rw [called]
    exact ⟨Only.refl .., .inr rfl⟩

/-- Only a row that says created or running is marked. -/
theorem markOrphaned_called (s : State) (database id : String) (faults : List (Option StoreError)) :
    Only database id s (s.call database (.markOrphaned id) faults).1 ∧
    (s.rowState database id = some .exited →
      (s.call database (.markOrphaned id) faults).1.rowState database id = some .exited) := by
  rcases call_cases s database (.markOrphaned id) faults with ⟨value, store, ran, called⟩ | called
  · rw [called]
    obtain ⟨_, ran, -⟩ := map_inv ran
    obtain ⟨n, m, updated, rest⟩ := bind_inv ran
    cases rest
    obtain ⟨spares, row⟩ := updateSession_spares (execute_ok updated).1
    refine ⟨putDatabase_only spares, fun exited => ?_⟩
    rw [putDatabase_rowState, row]
    obtain ⟨session, found, state⟩ := Option.map_eq_some_iff.mp exited
    have found : (s.databases database).sessions.lookup id = some session := found
    rw [found, Option.map_some, Option.map_some]
    simp [state]
  · rw [called]
    exact ⟨Only.refl .., fun exited => exited⟩

theorem deleteSession_called (s : State) (database id : String) (faults : List (Option StoreError)) :
    Only database id s (s.call database (.deleteSession id) faults).1 ∧
    ((s.call database (.deleteSession id) faults).1.rowState database id = none ∨
      (s.call database (.deleteSession id) faults).1.rowState database id = s.rowState database id) := by
  rcases call_cases s database (.deleteSession id) faults with ⟨value, store, ran, called⟩ | called
  · rw [called]
    obtain ⟨_, ran, -⟩ := map_inv ran
    obtain ⟨n, changed, deleted, -⟩ := changed_ok ran
    unfold deleteSessions at deleted
    split at deleted
    · obtain ⟨-, made⟩ := Prod.mk.inj (Except.ok.inj deleted)
      refine ⟨putDatabase_only fun other ne => ?_, .inl ?_⟩
      · rw [← made]
        exact ⟨AList.lookup_erase_ne ne, Function.update_of_ne ne .., Function.update_of_ne ne ..⟩
      · rw [putDatabase_rowState, ← made, AList.lookup_erase]
        rfl
    · obtain ⟨none_, -⟩ := Prod.mk.inj (Except.ok.inj deleted)
      exact absurd none_.symm changed
  · rw [called]
    exact ⟨Only.refl .., .inr rfl⟩

theorem replaceRecoveryCheckpoint_called (s : State) (database id : String) (sequence : UInt64)
    (formatVersion columns rows : UInt32) (payload : Bytes) (faults : List (Option StoreError)) :
    let t := (s.call database
      (.replaceRecoveryCheckpoint id sequence formatVersion payload columns rows) faults).1
    Only database id s t ∧ t.rowState database id = s.rowState database id := by
  rcases call_cases s database
    (.replaceRecoveryCheckpoint id sequence formatVersion payload columns rows) faults with
    ⟨value, store, ran, called⟩ | called
  · rw [called]
    obtain ⟨-, session, session', found, -, -, -, -, state, touched⟩ := replaceRecoveryCheckpoint_ok ran
    refine ⟨putDatabase_only touched.others, ?_⟩
    rw [putDatabase_rowState, touched.session, rowState, holding, found, Option.map_some, Option.map_some,
      state]
  · rw [called]
    exact ⟨Only.refl .., rfl⟩

end State

end Machinen.Lifecycle
