import Machinen.Session.Store

/-! What the store keeps is enough to rebuild every session: one checkpoint at most, and
behind it every event up to the last sequence. -/
namespace Machinen.Store

open Prog Connection

def after (sequence : Nat) (events : List Event) : List Event :=
  events.filter fun event => sequence < event.sequence

/-- The sequence that a recovery starts from. -/
def base (saved : Option Checkpoint) : Nat := (saved.map Checkpoint.sequence).getD 0

/-- The rows of one session beside its journal and its last checkpoint. -/
structure Rebuilds (session : Session) (events : List Event) (checkpoints : List Checkpoint)
    (journal : List Event) (saved : Option Checkpoint) : Prop where
  one : checkpoints = saved.toList
  covers : base saved ≤ session.lastSequence
  range : (after (base saved) events).map Event.sequence =
    List.range' (base saved + 1) (session.lastSequence - base saved)
  journaled : after (base saved) events = after (base saved) journal

theorem columnInt64_increment (value : Nat) :
    columnInt64 (increment value) =
      if columnInt64 value < largest then columnInt64 value + 1 else columnInt64 value := by
  unfold columnInt64 increment largest
  split <;> omega

theorem filter_range' (start count bound : Nat) (low : start ≤ bound + 1) :
    (List.range' start count).filter (fun n => bound < n) =
      List.range' (bound + 1) (start + count - (bound + 1)) := by
  induction count generalizing start with
  | zero => 
    rw [show start + 0 - (bound + 1) = 0 by omega]
    rfl
  | succ count ih =>
    rw [List.range'_succ, List.filter_cons]
    split
    · rename_i above
      have above : bound < start := of_decide_eq_true above
      have same : start = bound + 1 := by omega
      subst same
      rw [List.filter_eq_self.mpr, show bound + 1 + (count + 1) - (bound + 1) = count + 1 by omega,
        List.range'_succ]
      intro n listed
      have := List.mem_range'_1.mp listed
      exact decide_eq_true (by omega)
    · rename_i below
      have below : ¬ bound < start := fun above => below (decide_eq_true above)
      rw [ih (start + 1) (by omega), show start + 1 + count - (bound + 1) =
        start + (count + 1) - (bound + 1) by omega]

theorem after_after {low high : Nat} (le : low ≤ high) (events : List Event) :
    after high (after low events) = after high events := by
  unfold after
  rw [List.filter_filter]
  refine List.filter_congr fun event _ => ?_
  simp only [← Bool.decide_and, decide_eq_decide]
  omega

theorem after_append (sequence : Nat) (events more : List Event) :
    after sequence (events ++ more) = after sequence events ++ after sequence more := List.filter_append _ _

variable {sequence n : Nat} {event : Event} {set : Session → Session} {u : PUnit} {payload : Bytes}
  {e : StoreError}

theorem after_above (above : sequence < event.sequence) :
    after sequence [event] = [event] := List.filter_eq_self.mpr (by simpa using above)

theorem after_below (below : ¬ sequence < event.sequence) :
    after sequence [event] = [] := List.filter_eq_nil_iff.mpr (by simpa using below)

theorem map_after (sequence : Nat) (events : List Event) :
    (after sequence events).map Event.sequence = (events.map Event.sequence).filter fun n =>
    sequence < n := by
  rw [List.filter_map]
  rfl

theorem after_kept (sequence : Nat) (events : List Event) {bound : Nat} (low : bound ≤ sequence) :
    after sequence (events.filter fun row => ¬ row.sequence ≤ bound) = after sequence events := by
  rw [← after_after low events]
  unfold after
  simp only [Nat.not_le]

namespace Rebuilds

variable {session session' : Session} {events : List Event} {checkpoints : List Checkpoint}
  {journal : List Event} {saved : Option Checkpoint}

/-- Above a later sequence the journal is as complete as above the base. -/
theorem later (re : Rebuilds session events checkpoints journal saved) (above : base saved ≤ sequence) :
    (after sequence events).map Event.sequence =
      List.range' (sequence + 1) (session.lastSequence - sequence) ∧
    after sequence events = after sequence journal := by
  have covers := re.covers
  constructor
  · rw [← after_after above, map_after, re.range, filter_range' _ _ _ (by omega)]
    congr 1
    omega
  · rw [← after_after above, re.journaled, after_after above]

theorem update (re : Rebuilds session events checkpoints journal saved)
    (same : session'.storedSequence = session.storedSequence) :
    Rebuilds session' events checkpoints journal saved := by
  have last : session'.lastSequence = session.lastSequence := congrArg columnInt64 same
  exact ⟨re.one, last ▸ re.covers, last ▸ re.range, re.journaled⟩

theorem append (re : Rebuilds session events checkpoints journal saved)
    (stored : session'.storedSequence = increment session.storedSequence)
    (next : event.sequence = session'.lastSequence)
    (unused : event.sequence ∉ events.map Event.sequence) :
    Rebuilds session' (events ++ [event]) checkpoints (journal ++ [event]) saved := by
  have covers := re.covers
  have last : session'.lastSequence = columnInt64 (increment session.storedSequence) :=
    congrArg columnInt64 stored
  rw [columnInt64_increment] at last
  change session'.lastSequence = if session.lastSequence < largest then session.lastSequence + 1
    else session.lastSequence at last
  have journaled : after (base saved) (events ++ [event]) = after (base saved) (journal ++ [event]) := by
    rw [after_append, after_append, re.journaled]
  by_cases room : session.lastSequence < largest
  · rw [if_pos room] at last
    refine ⟨re.one, by omega, ?_, journaled⟩
    have above : base saved < event.sequence := by omega
    rw [after_append, after_above above, List.map_append, re.range,
      show session'.lastSequence - base saved = session.lastSequence - base saved + 1 by omega,
      List.range'_concat, List.map_cons, List.map_nil,
      show event.sequence = base saved + 1 + 1 * (session.lastSequence - base saved) by omega]
  · -- no larger sequence exists, and the last one is free only behind the checkpoint
    rw [if_neg room] at last
    have outside : ¬ base saved < event.sequence := by
      intro above
      have listed : event.sequence ∈ (after (base saved) events).map Event.sequence := by
        rw [re.range, List.mem_range'_1]
        omega
      obtain ⟨row, kept, same⟩ := List.mem_map.mp listed
      exact unused (same ▸ List.mem_map_of_mem (List.mem_filter.mp kept).1)
    refine ⟨re.one, by omega, ?_, journaled⟩
    rw [after_append, after_below outside, List.append_nil, last]
    exact re.range

theorem checkpoint (re : Rebuilds session events checkpoints journal saved) {new : Checkpoint}
    (above : base saved ≤ new.sequence) (last : new.sequence = session.lastSequence) :
    Rebuilds session events [new] journal (some new) := by
  obtain ⟨range, journaled⟩ := re.later above
  exact ⟨rfl, Nat.le_of_eq last, range, journaled⟩

theorem compact (re : Rebuilds session events checkpoints journal saved)
    (covered : sequence ≤ base saved) :
    Rebuilds session (events.filter fun row => ¬ row.sequence ≤ sequence) checkpoints journal saved := by
  have kept := after_kept (base saved) events covered
  exact ⟨re.one, re.covers, kept ▸ re.range, kept ▸ re.journaled⟩

/-- A checkpoint that is ahead of the journal stands for all of it. -/
theorem advance (re : Rebuilds session events checkpoints journal saved)
    (new : Checkpoint) (ahead : session.lastSequence ≤ new.sequence) (small : new.sequence ≤ largest)
    (stored : session'.storedSequence = new.sequence) :
    Rebuilds session' (events.filter fun row => ¬ row.sequence ≤ new.sequence) [new] journal
      (some new) := by
  have last : session'.lastSequence = new.sequence := by
    unfold Session.lastSequence
    rw [stored]
    exact Nat.min_eq_left small
  obtain ⟨range, journaled⟩ := re.later (Nat.le_trans re.covers ahead)
  have none_left : after new.sequence events = [] := by
    rw [← List.map_eq_nil_iff (f := Event.sequence), range, Nat.sub_eq_zero_of_le ahead]
    rfl
  have kept := after_kept new.sequence events (Nat.le_refl _)
  refine ⟨rfl, Nat.le_of_eq last.symm, ?_, ?_⟩
  · change (after new.sequence _).map _ = List.range' (new.sequence + 1) (_ - new.sequence)
    rw [kept, none_left, last, Nat.sub_self]
    rfl
  · change after new.sequence _ = after new.sequence _
    rw [kept, journaled]

end Rebuilds

theorem upsert_sole (saved : Option Checkpoint) {new : Checkpoint} (above : base saved ≤ new.sequence) :
    (upsert new saved.toList).filter (fun row => ¬ row.sequence < new.sequence) = [new] := by
  cases saved with
  | none => simp [upsert]
  | some old =>
    have le : old.sequence ≤ new.sequence := above
    by_cases same : new.sequence = old.sequence
    · simp [upsert, same]
    · have lt : old.sequence < new.sequence := by omega
      simp [upsert, same, lt]

/-- One session's rows are these, and no other session's rows have changed. -/
structure Touched (db : Database) (id : String) (session : Session) (events : List Event)
    (checkpoints : List Checkpoint) (db' : Database) : Prop where
  session : db'.sessions.lookup id = some session
  events : db'.events id = events
  checkpoints : db'.checkpoints id = checkpoints
  others : ∀ other, other ≠ id → db'.sessions.lookup other = db.sessions.lookup other ∧
    db'.events other = db.events other ∧ db'.checkpoints other = db.checkpoints other

namespace Touched

variable {db m m' : Database} {id : String} {session : Session} {events : List Event}
  {checkpoints : List Checkpoint}

theorem start (found : db.sessions.lookup id = some session) :
    Touched db id session (db.events id) (db.checkpoints id) db :=
  ⟨found, rfl, rfl, fun _ _ => ⟨rfl, rfl, rfl⟩⟩

theorem trans (touched : Touched db id session events checkpoints m) {session' : Session}
    {events' : List Event} {checkpoints' : List Checkpoint}
    (more : Touched m id session' events' checkpoints' m') :
    Touched db id session' events' checkpoints' m' := by
  refine ⟨more.session, more.events, more.checkpoints, fun other ne => ?_⟩
  obtain ⟨found, rows, rest⟩ := touched.others other ne
  obtain ⟨found', rows', rest'⟩ := more.others other ne
  exact ⟨found'.trans found, rows'.trans rows, rest'.trans rest⟩

theorem update (touched : Touched db id session events checkpoints m)
    (ran : updateSession id set m = .ok (n, m')) :
    Touched db id (set session) events checkpoints m' := by
  unfold updateSession at ran
  rw [touched.session] at ran
  cases ran
  refine ⟨AList.lookup_insert _, touched.events, touched.checkpoints, fun other ne => ?_⟩
  obtain ⟨found, rest⟩ := touched.others other ne
  exact ⟨(AList.lookup_insert_ne ne).trans found, rest⟩

theorem insertEvents (touched : Touched db id session events checkpoints m)
    (ran : insertEvents id event m = .ok (u, m')) :
    event.sequence ∉ events.map Event.sequence ∧
    Touched db id session (events ++ [event]) checkpoints m' := by
  unfold Store.insertEvents at ran
  rw [touched.events] at ran
  split at ran
  · cases ran
  · rename_i free
    cases ran
    refine ⟨fun used => free (.inr (.inr used)), touched.session, Function.update_self ..,
      touched.checkpoints,
      fun other ne => ?_⟩
    obtain ⟨found, rows, rest⟩ := touched.others other ne
    exact ⟨found, (Function.update_of_ne ne ..).trans rows, rest⟩

theorem upsertCheckpoint (touched : Touched db id session events checkpoints m) {new : Checkpoint}
    (ran : upsertCheckpoint id new m = .ok (u, m')) :
    Touched db id session events (upsert new checkpoints) m' := by
  unfold Store.upsertCheckpoint at ran
  rw [touched.checkpoints] at ran
  split at ran
  · cases ran
  · cases ran
    refine ⟨touched.session, touched.events, Function.update_self .., fun other ne => ?_⟩
    obtain ⟨found, rows, rest⟩ := touched.others other ne
    exact ⟨found, rows, (Function.update_of_ne ne ..).trans rest⟩

theorem deleteCheckpointsBefore (touched : Touched db id session events checkpoints m)
    (ran : deleteCheckpointsBefore id sequence m = .ok (u, m')) :
    Touched db id session events (checkpoints.filter fun row => ¬ row.sequence < sequence) m' := by
  cases ran
  refine ⟨touched.session, touched.events, ?_, fun other ne => ?_⟩
  · exact (Function.update_self ..).trans (congrArg _ touched.checkpoints)
  · obtain ⟨found, rows, rest⟩ := touched.others other ne
    exact ⟨found, rows, (Function.update_of_ne ne ..).trans rest⟩

theorem deleteEventsThrough (touched : Touched db id session events checkpoints m)
    (ran : deleteEventsThrough id sequence m = .ok (n, m')) :
    Touched db id session (events.filter fun row => ¬ row.sequence ≤ sequence) checkpoints m' := by
  cases ran
  refine ⟨touched.session, ?_, touched.checkpoints, fun other ne => ?_⟩
  · exact (Function.update_self ..).trans (congrArg _ touched.events)
  · obtain ⟨found, rows, rest⟩ := touched.others other ne
    exact ⟨found, (Function.update_of_ne ne ..).trans rows, rest⟩

theorem insertSession {input : CreateSession} (ran : insertSession input db = .ok (u, m)) :
    input.id ∉ db.sessions ∧ ∃ session, session.storedSequence = 0 ∧
      Touched db input.id session (db.events input.id) (db.checkpoints input.id) m := by
  unfold Store.insertSession at ran
  split at ran
  · cases ran
  · rename_i fresh
    cases ran
    refine ⟨fun here => fresh (.inl here), _, rfl, AList.lookup_insert _, rfl, rfl, fun other ne => ?_⟩
    exact ⟨AList.lookup_insert_ne ne, rfl, rfl⟩

end Touched

variable {c t : SessionStore} {id : String}

theorem currentSequence_ok (ran : currentSequence id c = (.ok sequence, t)) :
    ∃ session, c.working.sessions.lookup id = some session ∧ sequence = session.lastSequence ∧
      Touched c.working id session (c.working.events id) (c.working.checkpoints id) t.working := by
  obtain ⟨row, m, asked, needed⟩ := bind_inv ran
  obtain ⟨value, same, -⟩ := query_ok asked
  cases row with
  | none => exact nomatch congrArg Prod.fst needed
  | some last =>
    cases needed
    obtain ⟨session, found, rfl⟩ := Option.map_eq_some_iff.mp value.symm
    refine ⟨session, found, rfl, ?_⟩
    rw [same]
    exact Touched.start found

theorem updateSession_ok {m m' : Database}
    (ran : updateSession id set m = .ok (n, m')) (changes : n ≠ 0) :
    ∃ session, m.sessions.lookup id = some session ∧
      Touched m id (set session) (m.events id) (m.checkpoints id) m' := by
  cases found : m.sessions.lookup id with
  | none =>
    unfold updateSession at ran
    rw [found] at ran
    cases ran
    exact absurd rfl changes
  | some session => exact ⟨session, rfl, (Touched.start found).update ran⟩

theorem nextSequence_ok (ran : nextSequence id c = (.ok sequence, t)) :
    ∃ session session', c.working.sessions.lookup id = some session ∧
      session'.storedSequence = increment session.storedSequence ∧ sequence = session'.lastSequence ∧
      Touched c.working id session' (c.working.events id) (c.working.checkpoints id) t.working := by
  obtain ⟨changes, m, updated, more⟩ := bind_inv ran
  obtain ⟨changed, rest⟩ := checked_inv more
  obtain ⟨session, found, touched⟩ := updateSession_ok (execute_ok updated).1 changed
  obtain ⟨session', found', value, read⟩ := currentSequence_ok rest
  rw [touched.events, touched.checkpoints] at read
  cases touched.session.symm.trans found'
  exact ⟨session, _, found, rfl, value, touched.trans read⟩

theorem appendEvent_ok {kind : EventKind} (ran : appendEvent id kind payload c = (.ok sequence, t)) :
    t.saved = none ∧ ∃ session session', c.working.sessions.lookup id = some session ∧
      session'.storedSequence = increment session.storedSequence ∧ sequence = session'.lastSequence ∧
      sequence ∉ (c.working.events id).map Event.sequence ∧
      Touched c.working id session' (c.working.events id ++ [⟨sequence, kind, payload⟩])
        (c.working.checkpoints id) t.working := by
  obtain ⟨first, last, start, ran, done, outside⟩ := transaction_ok ran
  obtain ⟨_, m, numbered, more⟩ := bind_inv ran
  obtain ⟨_, m', inserted, rest⟩ := bind_inv more
  cases rest
  obtain ⟨session, session', found, stored, value, touched⟩ := nextSequence_ok numbered
  rw [start] at found touched
  obtain ⟨free, touched⟩ := touched.insertEvents (execute_ok inserted).1
  exact ⟨outside, session, session', found, stored, value, free, done ▸ touched⟩

theorem recordResize_ok {columns rows : UInt32}
    (ran : recordResize id columns rows c = (.ok sequence, t)) :
    t.saved = none ∧ ∃ session session', c.working.sessions.lookup id = some session ∧
      session'.storedSequence = increment session.storedSequence ∧ sequence = session'.lastSequence ∧
      sequence ∉ (c.working.events id).map Event.sequence ∧
      Touched c.working id session' (c.working.events id ++
        [⟨sequence, .resize, resizePayload columns rows⟩]) (c.working.checkpoints id) t.working := by
  obtain ⟨-, ran⟩ := checked_inv ran
  obtain ⟨first, last, start, ran, done, outside⟩ := transaction_ok ran
  obtain ⟨_, m, numbered, more⟩ := bind_inv ran
  obtain ⟨_, m', inserted, rest⟩ := bind_inv more
  obtain ⟨_, _, updated, rest⟩ := bind_inv rest
  cases rest
  obtain ⟨session, session', found, stored, value, touched⟩ := nextSequence_ok numbered
  rw [start] at found touched
  obtain ⟨free, touched⟩ := touched.insertEvents (execute_ok inserted).1
  have resized := touched.update (execute_ok updated).1
  rw [← done] at resized
  refine ⟨outside, session, _, found, ?_, ?_, free, resized⟩
  · exact stored
  · exact value

theorem saveCheckpoint_ok {formatVersion : UInt32}
    (ran : saveCheckpoint id formatVersion payload c = (.ok sequence, t)) :
    t.saved = none ∧ ∃ session, c.working.sessions.lookup id = some session ∧
      sequence = session.lastSequence ∧
      Touched c.working id session (c.working.events id)
        ((upsert ⟨sequence, formatVersion.toNat, payload⟩ (c.working.checkpoints id)).filter
          fun row => ¬ row.sequence < sequence) t.working := by
  obtain ⟨-, ran⟩ := checked_inv ran
  obtain ⟨-, ran⟩ := checked_inv ran
  obtain ⟨first, last, start, ran, done, outside⟩ := transaction_ok ran
  obtain ⟨_, m, numbered, more⟩ := bind_inv ran
  obtain ⟨_, m', upserted, rest⟩ := bind_inv more
  obtain ⟨_, _, deleted, rest⟩ := bind_inv rest
  cases rest
  obtain ⟨session, found, value, touched⟩ := currentSequence_ok numbered
  rw [start] at found touched
  have replaced := (touched.upsertCheckpoint (execute_ok upserted).1).deleteCheckpointsBefore
    (execute_ok deleted).1
  exact ⟨outside, session, found, value, done ▸ replaced⟩

theorem checkpointAndCompact_ok {formatVersion : UInt32} {removed : Nat}
    (ran : checkpointAndCompact id formatVersion payload c = (.ok (sequence, removed), t)) :
    t.saved = none ∧ ∃ session, c.working.sessions.lookup id = some session ∧
      sequence = session.lastSequence ∧
      Touched c.working id session ((c.working.events id).filter fun row => ¬ row.sequence ≤ sequence)
        ((upsert ⟨sequence, formatVersion.toNat, payload⟩ (c.working.checkpoints id)).filter
          fun row => ¬ row.sequence < sequence) t.working := by
  obtain ⟨-, ran⟩ := checked_inv ran
  obtain ⟨-, ran⟩ := checked_inv ran
  obtain ⟨first, last, start, ran, done, outside⟩ := transaction_ok ran
  obtain ⟨_, m, numbered, more⟩ := bind_inv ran
  obtain ⟨_, m', upserted, rest⟩ := bind_inv more
  obtain ⟨_, _, deleted, rest⟩ := bind_inv rest
  obtain ⟨_, _, compacted, rest⟩ := bind_inv rest
  cases rest
  obtain ⟨session, found, value, touched⟩ := currentSequence_ok numbered
  rw [start] at found touched
  have replaced := ((touched.upsertCheckpoint (execute_ok upserted).1).deleteCheckpointsBefore
    (execute_ok deleted).1).deleteEventsThrough (execute_ok compacted).1
  exact ⟨outside, session, found, value, done ▸ replaced⟩

theorem replaceRecoveryCheckpoint_ok {sequence : UInt64} {formatVersion columns rows : UInt32} {result : Nat}
    (ran : replaceRecoveryCheckpoint id sequence formatVersion payload columns rows c = (.ok result, t)) :
    t.saved = none ∧ ∃ session session', c.working.sessions.lookup id = some session ∧
      result = sequence.toNat ∧ session.lastSequence ≤ result ∧ result ≤ largest ∧
      session'.storedSequence = result ∧ session'.state = session.state ∧
      Touched c.working id session' ((c.working.events id).filter fun row => ¬ row.sequence ≤ result)
        ((upsert ⟨result, formatVersion.toNat, payload⟩ (c.working.checkpoints id)).filter
          fun row => ¬ row.sequence < result) t.working := by
  obtain ⟨-, ran⟩ := checked_inv ran
  obtain ⟨-, ran⟩ := checked_inv ran
  obtain ⟨-, ran⟩ := checked_inv ran
  obtain ⟨-, ran⟩ := checked_inv ran
  obtain ⟨first, last, start, ran, done, outside⟩ := transaction_ok ran
  obtain ⟨_, m, numbered, more⟩ := bind_inv ran
  obtain ⟨ahead, more⟩ := checked_inv more
  obtain ⟨small, more⟩ := checked_inv more
  obtain ⟨_, m', updated, more⟩ := bind_inv more
  obtain ⟨-, more⟩ := checked_inv more
  obtain ⟨_, _, upserted, rest⟩ := bind_inv more
  obtain ⟨_, _, deleted, rest⟩ := bind_inv rest
  obtain ⟨_, _, compacted, rest⟩ := bind_inv rest
  cases rest
  obtain ⟨session, found, rfl, touched⟩ := currentSequence_ok numbered
  rw [start] at found touched
  have replaced := (((touched.update (execute_ok updated).1).upsertCheckpoint (execute_ok upserted).1
    ).deleteCheckpointsBefore (execute_ok deleted).1).deleteEventsThrough (execute_ok compacted).1
  rw [← done] at replaced
  refine ⟨outside, session, _, found, rfl, Nat.not_lt.mp ahead, small, ?_, ?_, replaced⟩
  · rfl
  · rfl

theorem compactThroughCheckpoint_ok {sequence : UInt64} {removed : Nat}
    (ran : compactThroughCheckpoint id sequence c = (.ok removed, t)) :
    t.saved = none ∧ sequence.toNat ∈ (c.working.checkpoints id).map Checkpoint.sequence ∧
      ∀ session, c.working.sessions.lookup id = some session →
      Touched c.working id session
        ((c.working.events id).filter fun row => ¬ row.sequence ≤ sequence.toNat)
        (c.working.checkpoints id) t.working := by
  obtain ⟨first, last, start, ran, done, outside⟩ := transaction_ok ran
  obtain ⟨-, more⟩ := checked_inv ran
  obtain ⟨verified, m, asked, more⟩ := bind_inv more
  obtain ⟨holds, more⟩ := checked_inv more
  obtain ⟨value, same, -⟩ := query_ok asked
  rw [start] at value same
  refine ⟨outside, of_decide_eq_true (value ▸ holds), fun session found => ?_⟩
  have touched := Touched.start found
  rw [done]
  exact touched.deleteEventsThrough (same ▸ (execute_ok more).1)

def Atomic {A : Type} (method : Sql A) : Prop :=
  ∀ db, Triple (fun c => c.saved = none ∧ c.working = db) method
    (fun _ c => c.saved = none) (fun _ c => c.saved = none ∧ c.working = db)

namespace Atomic

variable {A B : Type}

theorem check {condition : Prop} [Decidable condition] {method : PUnit → Sql A}
    (rest : ∀ u, Atomic (method u)) : Atomic (ensure condition e >>= method) :=
  fun db => Triple.andThen (Keeps.check condition e) fun u => rest u db

theorem ask {select : Database → B} {method : B → Sql A} (rest : ∀ b, Atomic (method b)) :
    Atomic (query select >>= method) :=
  fun db => Triple.andThen (query_keeps fun _ _ outside => outside) fun b => rest b db

theorem value {method : Sql A} (f : A → B) (atomic : Atomic method) : Atomic (f <$> method) :=
  fun db => Triple.andThen (atomic db) fun _ => Triple.ret fun _ outside => outside

theorem inTransaction {body : Sql A} (stays : Stays body) : Atomic (inTransaction body) :=
  transaction_triple stays

theorem statement (run : Statement A) : Atomic (execute run) := by
  intro db c outside
  unfold execute
  cases c.faults.head?.join with
  | some e => exact outside
  | none =>
    cases run c.working with
    | ok done => exact outside.1
    | error e => exact outside

/-- A statement that changed no row has done nothing. -/
theorem changed {run : Statement Nat} (quiet : ∀ db db', run db = .ok (0, db') → db' = db) :
    Atomic (execute run >>= fun changes => ensure (changes ≠ 0) e) := by
  intro db
  have ran : Triple (fun c => c.saved = none ∧ c.working = db) (execute run)
      (fun changes c => c.saved = none ∧ (changes = 0 → c.working = db))
      (fun _ c => c.saved = none ∧ c.working = db) := by
    rintro c ⟨outside, rfl⟩
    unfold execute
    cases c.faults.head?.join with
    | some e => exact ⟨outside, rfl⟩
    | none =>
      cases answer : run c.working with
      | ok done =>
        refine ⟨outside, fun unchanged => ?_⟩
        exact quiet _ _ (answer.trans (unchanged ▸ rfl))
      | error e => exact ⟨outside, rfl⟩
  refine Triple.andThen ran fun changes => ?_
  exact Triple.check (fun _ _ after => after.1)
    fun unchanged _ after => ⟨after.1, after.2 (not_not.mp unchanged)⟩

theorem updated {id : String} :
    Atomic (execute (updateSession id set) >>= fun changes => ensure (changes ≠ 0) e) := by
  refine changed fun db db' ran => ?_
  unfold updateSession at ran
  cases found : db.sessions.lookup id with
  | none =>
    rw [found] at ran
    cases ran
    rfl
  | some session =>
    rw [found] at ran
    cases ran

end Atomic

theorem currentSequence_stays (id : String) : Stays (currentSequence id) :=
  (Stays.query _).andThen fun _ => Stays.found _ _

theorem nextSequence_stays (id : String) : Stays (nextSequence id) :=
  (Stays.execute _).andThen fun _ => (Stays.check _ _).andThen fun _ => currentSequence_stays id

theorem appendEvent_atomic (id : String) (kind : EventKind) (payload : Bytes) :
    Atomic (appendEvent id kind payload) :=
  Atomic.inTransaction <| (nextSequence_stays id).andThen fun _ => (Stays.execute _).andThen fun _ =>
    Stays.ret _

theorem run_atomic (operation : Operation) : Atomic operation.run := by
  cases operation with
  | createSession input =>
    exact Atomic.value _ <| Atomic.check fun _ => Atomic.check fun _ => Atomic.check fun _ =>
      Atomic.check fun _ => Atomic.ask fun _ => Atomic.check fun _ => Atomic.check fun _ =>
        Atomic.statement _
  | deleteSession id =>
    refine Atomic.value _ (Atomic.changed fun db db' ran => ?_)
    unfold deleteSessions at ran
    split at ran
    · cases ran
    · cases ran
      rfl
  | setRunning id workerPid => exact Atomic.value _ <| Atomic.check fun _ => Atomic.updated
  | setExited id exitCode => exact Atomic.value _ Atomic.updated
  | setState id state => exact Atomic.value _ Atomic.updated
  | markOrphaned id =>
    exact Atomic.value _ fun db => Triple.andThen (Atomic.statement _ db) fun _ =>
      Triple.ret fun _ outside => outside
  | appendOutput id output => exact Atomic.check fun _ => appendEvent_atomic id _ _
  | appendMarker id marker => exact Atomic.check fun _ => appendEvent_atomic id _ _
  | recordResize id columns rows =>
    exact Atomic.check fun _ => Atomic.inTransaction <| (nextSequence_stays id).andThen fun _ =>
      (Stays.execute _).andThen fun _ => (Stays.execute _).andThen fun _ => Stays.ret _
  | saveCheckpoint id formatVersion payload =>
    exact Atomic.check fun _ => Atomic.check fun _ => Atomic.inTransaction <|
      (currentSequence_stays id).andThen fun _ => (Stays.execute _).andThen fun _ =>
      (Stays.execute _).andThen fun _ => Stays.ret _
  | checkpointAndCompact id formatVersion payload =>
    exact Atomic.value _ <| Atomic.check fun _ => Atomic.check fun _ => Atomic.inTransaction <|
      (currentSequence_stays id).andThen fun _ => (Stays.execute _).andThen fun _ =>
      (Stays.execute _).andThen fun _ => (Stays.execute _).andThen fun _ => Stays.ret _
  | replaceRecoveryCheckpoint id sequence formatVersion payload columns rows =>
    exact Atomic.check fun _ => Atomic.check fun _ => Atomic.check fun _ => Atomic.check fun _ =>
      Atomic.inTransaction <| (currentSequence_stays id).andThen fun _ => (Stays.check _ _).andThen fun _ =>
      (Stays.check _ _).andThen fun _ => (Stays.execute _).andThen fun _ =>
        (Stays.check _ _).andThen fun _ =>
      (Stays.execute _).andThen fun _ => (Stays.execute _).andThen fun _ =>
        (Stays.execute _).andThen fun _ =>
      Stays.ret _
  | compactThroughCheckpoint id sequence =>
    exact Atomic.inTransaction <| (Stays.check _ _).andThen fun _ => (Stays.query _).andThen fun _ =>
      (Stays.check _ _).andThen fun _ => Stays.execute _

/-- The store, the events accepted for each session and the last checkpoint accepted. -/
structure Observed where
  store : SessionStore := { working := {} }
  journal : String → List Event := fun _ => []
  saved : String → Option Checkpoint := fun _ => none

def Observed.accept (o : Observed) (id : String) (event : Event) : Observed :=
  { o with journal := Function.update o.journal id (o.journal id ++ [event]) }

def Observed.cover (o : Observed) (id : String) (checkpoint : Checkpoint) : Observed :=
  { o with saved := Function.update o.saved id (some checkpoint) }

def Observed.forget (o : Observed) (id : String) : Observed :=
  { o with journal := Function.update o.journal id [], saved := Function.update o.saved id none }

def Observed.record (o : Observed) (sequence : Nat) : Operation → Observed
  | .createSession input => o.forget input.id
  | .deleteSession id => o.forget id
  | .appendOutput id output => o.accept id ⟨sequence, .output, output⟩
  | .appendMarker id marker => o.accept id ⟨sequence, .marker, marker⟩
  | .recordResize id columns rows => o.accept id ⟨sequence, .resize, resizePayload columns rows⟩
  | .saveCheckpoint id formatVersion payload => o.cover id ⟨sequence, formatVersion.toNat, payload⟩
  | .checkpointAndCompact id formatVersion payload => o.cover id ⟨sequence, formatVersion.toNat, payload⟩
  | .replaceRecoveryCheckpoint id _ formatVersion payload _ _ =>
    o.cover id ⟨sequence, formatVersion.toNat, payload⟩
  | _ => o

/-- One call, with the faults its statements meet. -/
def Observed.step (o : Observed) (call : Operation × List (Option StoreError)) : Observed :=
  let (answer, store) := call.1.run { o.store with faults := call.2 }
  match answer with
  | .ok sequence => { o with store }.record sequence call.1
  | .error _ => { o with store }

structure Intact (o : Observed) : Prop where
  outside : o.store.saved = none
  present : ∀ id session, o.store.working.sessions.lookup id = some session →
    Rebuilds session (o.store.working.events id) (o.store.working.checkpoints id) (o.journal id)
      (o.saved id)
  absent : ∀ id, o.store.working.sessions.lookup id = none →
    o.store.working.events id = [] ∧ o.store.working.checkpoints id = []

theorem Intact.touch {o p : Observed} (intact : Intact o) {id : String} {session : Session}
    {events : List Event} {checkpoints : List Checkpoint} (outside : p.store.saved = none)
    (touched : Touched o.store.working id session events checkpoints p.store.working)
    (rebuilds : Rebuilds session events checkpoints (p.journal id) (p.saved id))
    (journals : ∀ other, other ≠ id → p.journal other = o.journal other)
    (covers : ∀ other, other ≠ id → p.saved other = o.saved other) : Intact p := by
  refine ⟨outside, fun other found live => ?_, fun other gone => ?_⟩
  · by_cases same : other = id
    · subst same
      cases touched.session.symm.trans live
      rw [touched.events, touched.checkpoints]
      exact rebuilds
    · obtain ⟨lookup, rows, rest⟩ := touched.others other same
      rw [rows, rest, journals other same, covers other same]
      exact intact.present other found (lookup.symm.trans live)
  · have ne : other ≠ id := by
      rintro rfl
      exact nomatch touched.session.symm.trans gone
    obtain ⟨lookup, rows, rest⟩ := touched.others other ne
    rw [rows, rest]
    exact intact.absent other (lookup.symm.trans gone)

section Accepted

variable {o : Observed} {t : SessionStore} {session session' : Session}

theorem Intact.accept (intact : Intact o) (outside : t.saved = none)
    (found : o.store.working.sessions.lookup id = some session)
    (stored : session'.storedSequence = increment session.storedSequence)
    (next : event.sequence = session'.lastSequence)
    (unused : event.sequence ∉ (o.store.working.events id).map Event.sequence)
    (touched : Touched o.store.working id session' (o.store.working.events id ++ [event])
      (o.store.working.checkpoints id) t.working) :
    Intact ({ o with store := t }.accept id event) := by
  refine intact.touch outside touched ?_ (fun other ne => Function.update_of_ne ne ..) fun _ _ => rfl
  change Rebuilds _ _ _ (Function.update o.journal id _ id) _
  rw [Function.update_self]
  exact (intact.present id session found).append stored next unused

theorem Intact.cover (intact : Intact o) (outside : t.saved = none) {checkpoint : Checkpoint}
    {events : List Event} (found : o.store.working.sessions.lookup id = some session)
    (ahead : session.lastSequence ≤ checkpoint.sequence)
    (touched : Touched o.store.working id session' events
      ((upsert checkpoint (o.store.working.checkpoints id)).filter
        fun row => ¬ row.sequence < checkpoint.sequence) t.working)
    (rebuilds : Rebuilds session (o.store.working.events id) (o.store.working.checkpoints id) (o.journal id)
      (o.saved id) → Rebuilds session' events [checkpoint] (o.journal id) (some checkpoint)) :
    Intact ({ o with store := t }.cover id checkpoint) := by
  have re := intact.present id session found
  have sole := upsert_sole (o.saved id) (Nat.le_trans re.covers ahead)
  rw [← re.one] at sole
  rw [sole] at touched
  refine intact.touch outside touched ?_ (fun _ _ => rfl) fun other ne => Function.update_of_ne ne ..
  change Rebuilds _ _ _ _ (Function.update o.saved id _ id)
  rw [Function.update_self]
  exact rebuilds re

theorem Intact.updated (intact : Intact o) (outside : t.saved = none)
    (ran : updateSession id set o.store.working = .ok (n, t.working))
    (same : ∀ session, (set session).storedSequence = session.storedSequence) :
    Intact { o with store := t } := by
  cases found : o.store.working.sessions.lookup id with
  | none =>
    unfold updateSession at ran
    rw [found] at ran
    obtain ⟨-, unchanged⟩ := Prod.mk.inj (Except.ok.inj ran)
    refine ⟨outside, ?_, ?_⟩
    · rw [← unchanged]
      exact intact.present
    · rw [← unchanged]
      exact intact.absent
  | some session =>
    exact intact.touch outside ((Touched.start found).update ran)
      ((intact.present id session found).update (same session)) (fun _ _ => rfl) fun _ _ => rfl

end Accepted

theorem Intact.created {o : Observed} {t : SessionStore} (intact : Intact o) {input : CreateSession}
    (outside : t.saved = none) (ran : insertSession input o.store.working = .ok (u, t.working)) :
    Intact ({ o with store := t }.forget input.id) := by
  obtain ⟨fresh, session, zero, touched⟩ := Touched.insertSession ran
  obtain ⟨noEvents, noCheckpoints⟩ := intact.absent input.id (AList.lookup_eq_none.mpr fresh)
  rw [noEvents, noCheckpoints] at touched
  refine intact.touch outside touched ?_ (fun other ne => Function.update_of_ne ne ..)
    fun other ne => Function.update_of_ne ne ..
  change Rebuilds _ _ _ (Function.update o.journal input.id [] input.id)
    (Function.update o.saved input.id none input.id)
  rw [Function.update_self, Function.update_self]
  have last : session.lastSequence = 0 := congrArg columnInt64 zero
  refine ⟨rfl, Nat.zero_le _, ?_, rfl⟩
  rw [last]
  rfl

theorem Intact.deleted {o : Observed} {t : SessionStore} (intact : Intact o) {id : String}
    (outside : t.saved = none) (ran : deleteSessions id o.store.working = .ok (n, t.working))
    (changed : n ≠ 0) : Intact ({ o with store := t }.forget id) := by
  unfold deleteSessions at ran
  split at ran
  · obtain ⟨-, made⟩ := Prod.mk.inj (Except.ok.inj ran)
    refine ⟨outside, fun other session live => ?_, fun other gone => ?_⟩
    · change t.working.sessions.lookup other = some session at live
      change Rebuilds _ (t.working.events other) (t.working.checkpoints other)
        (Function.update o.journal id [] other) (Function.update o.saved id none other)
      rw [← made] at live ⊢
      have ne : other ≠ id := by
        rintro rfl
        exact nomatch (AList.lookup_erase ..).symm.trans live
      simp only [Function.update_of_ne ne]
      exact intact.present other session ((AList.lookup_erase_ne ne).symm.trans live)
    · change t.working.sessions.lookup other = none at gone
      change t.working.events other = [] ∧ t.working.checkpoints other = []
      rw [← made] at gone ⊢
      by_cases same : other = id
      · subst same
        exact ⟨Function.update_self .., Function.update_self ..⟩
      · simp only [Function.update_of_ne same]
        exact intact.absent other ((AList.lookup_erase_ne same).symm.trans gone)
  · obtain ⟨none_, -⟩ := Prod.mk.inj (Except.ok.inj ran)
    exact absurd none_.symm changed

theorem changed_ok {run : Statement Nat} {c t : SessionStore}
    (ran : (execute run >>= fun changes => ensure (changes ≠ 0) e) c = (.ok u, t)) :
    ∃ n, n ≠ 0 ∧ run c.working = .ok (n, t.working) ∧ t.saved = c.saved := by
  obtain ⟨n, m, done, checked⟩ := bind_inv ran
  obtain ⟨changed, rfl⟩ := ensure_inv checked
  exact ⟨n, changed, execute_ok done⟩

theorem step_intact (o : Observed) (call : Operation × List (Option StoreError)) (intact : Intact o) :
    Intact (o.step call) := by
  obtain ⟨operation, faults⟩ := call
  unfold Observed.step
  match ran : operation.run { o.store with faults } with
  | (.error e, t) =>
    have failed := run_atomic operation o.store.working { o.store with faults } ⟨intact.outside, rfl⟩
    rw [ran] at failed
    refine ⟨failed.1, ?_, ?_⟩
    · change ∀ id session, t.working.sessions.lookup id = some session →
        Rebuilds session (t.working.events id) (t.working.checkpoints id) (o.journal id) (o.saved id)
      rw [failed.2]
      exact intact.present
    · change ∀ id, t.working.sessions.lookup id = none → t.working.events id = [] ∧
        t.working.checkpoints id = []
      rw [failed.2]
      exact intact.absent
  | (.ok sequence, t) =>
    change Intact (Observed.record { o with store := t } sequence operation)
    cases operation with
    | createSession input =>
      obtain ⟨_, ran, -⟩ := map_inv ran
      obtain ⟨-, ran⟩ := checked_inv ran
      obtain ⟨-, ran⟩ := checked_inv ran
      obtain ⟨-, ran⟩ := checked_inv ran
      obtain ⟨-, ran⟩ := checked_inv ran
      obtain ⟨_, m, prepared, ran⟩ := bind_inv ran
      obtain ⟨-, ran⟩ := checked_inv ran
      obtain ⟨-, ran⟩ := checked_inv ran
      obtain ⟨inserted, saved⟩ := execute_ok ran
      obtain ⟨-, same, still⟩ := query_ok prepared
      rw [same] at inserted
      exact intact.created (saved.trans (still.trans intact.outside)) inserted
    | deleteSession id =>
      obtain ⟨_, ran, -⟩ := map_inv ran
      obtain ⟨n, changed, deleted, saved⟩ := changed_ok ran
      exact intact.deleted (saved.trans intact.outside) deleted changed
    | setRunning id workerPid =>
      obtain ⟨_, ran, -⟩ := map_inv ran
      obtain ⟨-, ran⟩ := checked_inv ran
      obtain ⟨n, -, updated, saved⟩ := changed_ok ran
      exact intact.updated (saved.trans intact.outside) updated fun _ => rfl
    | setExited id exitCode | setState id state =>
      obtain ⟨_, ran, -⟩ := map_inv ran
      obtain ⟨n, -, updated, saved⟩ := changed_ok ran
      exact intact.updated (saved.trans intact.outside) updated fun _ => rfl
    | markOrphaned id =>
      obtain ⟨_, ran, -⟩ := map_inv ran
      obtain ⟨n, m, ran, done⟩ := bind_inv ran
      cases done
      obtain ⟨updated, saved⟩ := execute_ok ran
      refine intact.updated (saved.trans intact.outside) updated fun session => ?_
      split <;> rfl
    | appendOutput id output | appendMarker id marker =>
      obtain ⟨-, ran⟩ := checked_inv ran
      obtain ⟨outside, session, session', found, stored, next, unused, touched⟩ := appendEvent_ok ran
      exact intact.accept outside found stored next unused touched
    | recordResize id columns rows =>
      obtain ⟨outside, session, session', found, stored, next, unused, touched⟩ := recordResize_ok ran
      exact intact.accept outside found stored next unused touched
    | saveCheckpoint id formatVersion payload =>
      obtain ⟨outside, session, found, last, touched⟩ := saveCheckpoint_ok ran
      exact intact.cover outside found (Nat.le_of_eq last.symm) touched
        fun re => re.checkpoint (last ▸ re.covers) last
    | checkpointAndCompact id formatVersion payload =>
      obtain ⟨⟨_, removed⟩, compacted, rfl⟩ := map_inv ran
      obtain ⟨outside, session, found, last, touched⟩ := checkpointAndCompact_ok compacted
      exact intact.cover outside found (Nat.le_of_eq last.symm) touched
        fun re => (re.checkpoint (last ▸ re.covers) last).compact (Nat.le_refl _)
    | replaceRecoveryCheckpoint id _ formatVersion payload columns rows =>
      obtain ⟨outside, session, session', found, -, ahead, small, stored, -, touched⟩ :=
        replaceRecoveryCheckpoint_ok ran
      exact intact.cover outside found ahead touched fun re => re.advance ⟨_, _, _⟩ ahead small stored
    | compactThroughCheckpoint id through =>
      obtain ⟨outside, listed, compacted⟩ := compactThroughCheckpoint_ok ran
      cases found : o.store.working.sessions.lookup id with
      | none =>
        change through.toNat ∈ (o.store.working.checkpoints id).map _ at listed
        rw [(intact.absent id found).2] at listed
        exact nomatch listed
      | some session =>
        have re := intact.present id session found
        refine intact.touch outside (compacted session found) (re.compact ?_) (fun _ _ => rfl) fun _ _ =>
          rfl
        change through.toNat ∈ (o.store.working.checkpoints id).map _ at listed
        obtain ⟨checkpoint, kept, same⟩ := List.mem_map.mp listed
        rw [re.one] at kept
        cases saved : o.saved id with
        | none =>
          rw [saved] at kept
          exact nomatch kept
        | some last =>
          rw [saved] at kept
          cases List.mem_singleton.mp kept
          exact Nat.le_of_eq same.symm

theorem eventsAfter_base {db : Database} {id : String} {session : Session} {journal : List Event}
    {saved : Option Checkpoint} (re : Rebuilds session (db.events id) (db.checkpoints id) journal saved) :
    db.eventsAfter id (base saved) = after (base saved) (db.events id) := by
  refine List.mergeSort_of_pairwise ?_
  change (after (base saved) (db.events id)).Pairwise _
  have sorted : ((after (base saved) (db.events id)).map Event.sequence).Pairwise (· < ·) := by
    rw [re.range]
    exact List.pairwise_lt_range'
  exact (List.pairwise_map.mp sorted).imp fun lt => decide_eq_true (Nat.le_of_lt lt)

theorem latestCheckpoint_saved {db : Database} {id : String} {session : Session} {journal : List Event}
    {saved : Option Checkpoint} (re : Rebuilds session (db.events id) (db.checkpoints id) journal saved) :
    db.latestCheckpoint id = saved := by
  unfold Database.latestCheckpoint
  rw [re.one]
  cases saved <;> simp

theorem run_intact (calls : List (Operation × List (Option StoreError))) {o : Observed}
    (intact : Intact o) : Intact (calls.foldl Observed.step o) := by
  induction calls generalizing o with
  | nil => exact intact
  | cons call rest ih => exact ih (step_intact o call intact)

/-- After any calls, each with any faults, a session has at most one checkpoint, the last one
accepted, and behind it every event accepted since, numbered up to the last sequence. -/
theorem store_rebuilds (calls : List (Operation × List (Option StoreError))) (id : String) :
    let o := calls.foldl Observed.step {}
    let db := o.store.working
    (db.checkpoints id).length ≤ 1 ∧ ∀ session, db.sessions.lookup id = some session →
      db.latestCheckpoint id = o.saved id ∧
      base (db.latestCheckpoint id) ≤ session.lastSequence ∧
      (db.eventsAfter id (base (db.latestCheckpoint id))).map Event.sequence =
        List.range' (base (db.latestCheckpoint id) + 1)
          (session.lastSequence - base (db.latestCheckpoint id)) ∧
      db.eventsAfter id (base (db.latestCheckpoint id)) =
        after (base (db.latestCheckpoint id)) (o.journal id) := by
  have intact : Intact (calls.foldl Observed.step {}) :=
    run_intact calls ⟨rfl, (fun _ _ live => nomatch live), fun _ _ => ⟨rfl, rfl⟩⟩
  generalize calls.foldl Observed.step {} = o at intact
  refine ⟨?_, fun session live => ?_⟩
  · cases found : o.store.working.sessions.lookup id with
    | none =>
      rw [(intact.absent id found).2]
      exact Nat.zero_le _
    | some session =>
      rw [(intact.present id session found).one]
      cases o.saved id <;> simp
  · have re := intact.present id session live
    rw [latestCheckpoint_saved re, eventsAfter_base re]
    exact ⟨rfl, re.covers, re.range, re.journaled⟩

/-- A write that the disk refuses leaves no trace: the call after it continues where the one
before it had stopped. -/
example :
    let calls := [(Operation.createSession ⟨"a", none, "/", "[]", 24, 80, 2⟩, []),
      (.appendOutput "a" [1], []),
      (.saveCheckpoint "a" 1 [9], []), (.appendOutput "a" [2], [none, none, none, some .sqliteFailure]),
      (.appendOutput "a" [3], [])]
    let o := calls.foldl Observed.step {}
    o.store.working.eventsAfter "a" 1 = [⟨2, .output, [3]⟩] := by decide +kernel

end Machinen.Store
