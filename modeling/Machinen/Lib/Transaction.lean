import Machinen.Lib.Program

/-! A connection to a database whose statements may fail. A statement that fails
changes nothing, and a transaction ends either with its work or with the image
it began from. -/
namespace Machinen

structure Connection (D E : Type) where
  working : D
  saved : Option D := none
  faults : List (Option E) := []

namespace Connection

open Prog

variable {D E A B : Type}

/-- One statement, which its own fault may stop before it has an effect. -/
def execute (statement : D → Except E (A × D)) : Prog (Connection D E) E A := fun c =>
  match c.faults.head?.join with
  | some e => (.error e, { c with faults := c.faults.tail })
  | none => match statement c.working with
    | .ok (a, d) => (.ok a, { c with working := d, faults := c.faults.tail })
    | .error e => (.error e, { c with faults := c.faults.tail })

def query (select : D → A) : Prog (Connection D E) E A := execute fun d => .ok (select d, d)

def begin_ (nested : E) : Prog (Connection D E) E PUnit := do
  query fun _ => PUnit.unit
  let c ← read
  ensure (c.saved.isNone = true) nested
  change fun c => { c with saved := some c.working }

def commit : Prog (Connection D E) E PUnit := do
  query fun _ => PUnit.unit
  change fun c => { c with saved := none }

def rollback (c : Connection D E) : Connection D E :=
  { c with working := c.saved.getD c.working, saved := none }

def transaction (nested : E) (body : Prog (Connection D E) E A) : Prog (Connection D E) E A := do
  begin_ nested
  onError (do
    let a ← body
    commit
    pure a) rollback

variable {c t : Connection D E} {a : A} {e nested : E}

theorem execute_ok {statement : D → Except E (A × D)} (ran : execute statement c = (.ok a, t)) :
    statement c.working = .ok (a, t.working) ∧ t.saved = c.saved := by
  unfold execute at ran
  cases fault : c.faults.head?.join with
  | some e =>
    rw [fault] at ran
    exact nomatch congrArg Prod.fst ran
  | none =>
    rw [fault] at ran
    match answer : statement c.working with
    | .ok (b, d) =>
      rw [answer] at ran
      obtain ⟨same, rfl⟩ := Prod.mk.inj ran
      cases same
      exact ⟨rfl, rfl⟩
    | .error e =>
      rw [answer] at ran
      exact nomatch congrArg Prod.fst ran

theorem query_ok {select : D → A} (ran : query select c = (.ok a, t)) :
    a = select c.working ∧ t.working = c.working ∧ t.saved = c.saved := by
  obtain ⟨answer, saved⟩ := execute_ok ran
  obtain ⟨value, same⟩ := Prod.mk.inj (Except.ok.inj answer)
  exact ⟨value.symm, same.symm, saved⟩

theorem query_keeps {select : D → A} {I : Connection D E → Prop}
    (only : ∀ c faults, I c → I { c with faults }) : Keeps I (query select) := by
  intro c inv
  unfold query execute
  cases c.faults.head?.join with
  | some e => exact only c _ inv
  | none => exact only c _ inv

/-- A program that stays inside the transaction it is run in. -/
def Stays (m : Prog (Connection D E) E A) : Prop := ∀ saved, Keeps (fun c => c.saved = saved) m

namespace Stays

theorem execute (statement : D → Except E (A × D)) : Stays (execute statement) := by
  intro saved c same
  unfold Connection.execute
  cases c.faults.head?.join with
  | some e => exact same
  | none =>
    match statement c.working with
    | .ok (a, d) => exact same
    | .error e => exact same

theorem query (select : D → A) : Stays (query (E := E) select) := execute _

theorem ret (a : A) : Stays (pure a : Prog (Connection D E) E A) := fun _ => Keeps.ret a

theorem andThen {m : Prog (Connection D E) E A} {f : A → Prog (Connection D E) E B} (first : Stays m)
    (rest : ∀ a, Stays (f a)) : Stays (m >>= f) :=
  fun saved => (first saved).andThen fun a => rest a saved

theorem check (condition : Prop) [Decidable condition] (e : E) :
    Stays (ensure condition e : Prog (Connection D E) E PUnit) := fun _ => Keeps.check condition e

theorem found (value : Option A) (e : E) :
    Stays (need value e : Prog (Connection D E) E A) := fun _ => Keeps.found value e

end Stays

theorem transaction_ok {body : Prog (Connection D E) E A} (ran : transaction nested body c = (.ok a, t)) :
    ∃ first last, first.working = c.working ∧ body first = (.ok a, last) ∧
      t.working = last.working ∧ t.saved = none := by
  obtain ⟨_, first, begun, rest⟩ := bind_inv ran
  obtain ⟨_, asked, answered, begun⟩ := bind_inv begun
  obtain ⟨_, _, seen, begun⟩ := bind_inv begun
  obtain ⟨_, _, checked, begun⟩ := bind_inv begun
  obtain ⟨-, same⟩ := ensure_inv checked
  obtain ⟨_, last, worked, rest⟩ := bind_inv (onError_ok rest)
  obtain ⟨_, ended, committed, rest⟩ := bind_inv rest
  obtain ⟨_, _, replied, committed⟩ := bind_inv committed
  cases rest
  cases committed
  cases begun
  cases seen
  subst same
  refine ⟨_, last, ?_, worked, (query_ok replied).2.1, rfl⟩
  exact (query_ok answered).2.1

/-- From an image `d` a transaction ends outside of itself, and in `d` when it fails. -/
theorem transaction_triple {body : Prog (Connection D E) E A} (stays : Stays body) (d : D) :
    Triple (fun c => c.saved = none ∧ c.working = d) (transaction nested body)
      (fun _ c => c.saved = none) (fun _ c => c.saved = none ∧ c.working = d) := by
  have began : Triple (fun c => c.saved = none ∧ c.working = d) (begin_ nested)
      (fun _ c => c.saved = some d) (fun _ c => c.saved = none ∧ c.working = d) :=
    Triple.andThen (query_keeps fun _ _ outside => outside) fun _ =>
      Triple.andThen (Keeps.get) fun _ => Triple.andThen (Keeps.check _ _) fun _ =>
      Triple.set _ fun _ outside => congrArg some outside.2
  have committed : Triple (fun c => c.saved = some d) (commit : Prog (Connection D E) E PUnit)
      (fun _ c => c.saved = none) (fun _ c => c.saved = some d) :=
    Triple.andThen (query_keeps fun _ _ inside => inside) fun _ => Triple.set _ fun _ _ => rfl
  refine began.andThen fun _ => Triple.onError (R := fun _ c => c.saved = some d) ?_ ?_
  · exact Triple.andThen (stays (some d)) fun _ => Triple.andThen committed fun _ =>
      Triple.ret fun _ done => done
  · intro _ c inside
    refine ⟨rfl, ?_⟩
    change c.saved.getD c.working = d
    rw [inside]
    rfl

end Connection
end Machinen
