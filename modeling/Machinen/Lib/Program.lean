import Mathlib

/-! Programs on a state that end with a value or leave early, and the rules for
what they establish. An early exit keeps the state it was taken in. -/
namespace Machinen

universe u

def Prog (S E A : Type u) : Type u := S → Except E A × S

namespace Prog

variable {S E A B : Type u}

instance : Monad (Prog S E) where
  pure a := fun s => (.ok a, s)
  bind m f := fun s => match m s with
    | (.ok a, t) => f a t
    | (.error e, t) => (.error e, t)

def leave (e : E) : Prog S E A := fun s => (.error e, s)

def read : Prog S E S := fun s => (.ok s, s)

def change (f : S → S) : Prog S E PUnit := fun s => (.ok ⟨⟩, f s)

def ensure (condition : Prop) [Decidable condition] (e : E) : Prog S E PUnit :=
  if condition then pure ⟨⟩ else leave e

def need (value : Option A) (e : E) : Prog S E A :=
  match value with
  | some a => pure a
  | none => leave e

/-- What an early exit undoes on its way out. -/
def onError (m : Prog S E A) (undo : S → S) : Prog S E A := fun s => match m s with
  | (.ok a, t) => (.ok a, t)
  | (.error e, t) => (.error e, undo t)

/-- What is done at the end whichever way the program ends, and an early exit of its own goes before. -/
def lastly (m : Prog S E A) (last : Prog S E PUnit) : Prog S E A := fun s => match m s with
  | (result, t) => match last t with
    | (.ok _, u) => (result, u)
    | (.error e, u) => (.error e, u)

def forEach (body : A → Prog S E PUnit) : List A → Prog S E PUnit
  | [] => pure ⟨⟩
  | a :: rest => do
    body a
    forEach body rest

theorem bind_ok {m : Prog S E A} {f : A → Prog S E B} {s t : S} {a : A} (ran : m s = (.ok a, t)) :
    (m >>= f) s = f a t := by
  change (match m s with
    | (.ok a, t) => f a t
    | (.error e, t) => (.error e, t)) = f a t
  rw [ran]

theorem bind_error {m : Prog S E A} {f : A → Prog S E B} {s t : S} {e : E}
    (ran : m s = (.error e, t)) : (m >>= f) s = (.error e, t) := by
  change (match m s with
    | (.ok a, t) => f a t
    | (.error e, t) => (.error e, t)) = (.error e, t)
  rw [ran]

theorem bind_inv {m : Prog S E A} {f : A → Prog S E B} {s u : S} {b : B}
    (ran : (m >>= f) s = (.ok b, u)) : ∃ a t, m s = (.ok a, t) ∧ f a t = (.ok b, u) := by
  match first : m s with
  | (.ok a, t) => exact ⟨a, t, rfl, (bind_ok first).symm.trans ran⟩
  | (.error e, t) => exact nomatch (congrArg Prod.fst ((bind_error first).symm.trans ran))

theorem map_inv {m : Prog S E A} {f : A → B} {s t : S} {b : B} (ran : (f <$> m) s = (.ok b, t)) :
    ∃ a, m s = (.ok a, t) ∧ f a = b := by
  obtain ⟨a, u, first, rest⟩ := bind_inv (show (m >>= fun a => pure (f a)) s = (.ok b, t) from ran)
  cases rest
  exact ⟨a, first, rfl⟩

theorem onError_ok {m : Prog S E A} {undo : S → S} {s t : S} {a : A}
    (ran : m.onError undo s = (.ok a, t)) : m s = (.ok a, t) := by
  unfold onError at ran
  match same : m s with
  | (.ok b, u) =>
    rw [same] at ran
    exact ran
  | (.error e, u) =>
    rw [same] at ran
    exact nomatch (congrArg Prod.fst ran)

theorem ensure_ok {condition : Prop} [Decidable condition] (holds : condition) (e : E) (s : S) :
    ensure condition e s = (.ok ⟨⟩, s) := by
  rw [ensure, if_pos holds]
  rfl

theorem ensure_error {condition : Prop} [Decidable condition] (fails : ¬ condition) (e : E) (s : S) :
    ensure condition e s = (.error e, s) := by
  rw [ensure, if_neg fails]
  rfl

theorem ensure_inv {condition : Prop} [Decidable condition] {e : E} {s t : S} {a : PUnit}
    (ran : ensure condition e s = (.ok a, t)) : condition ∧ t = s := by
  by_cases holds : condition
  · rw [ensure_ok holds] at ran
    exact ⟨holds, (Prod.mk.inj ran).2.symm⟩
  · rw [ensure_error holds] at ran
    exact nomatch (congrArg Prod.fst ran)

theorem checked_inv {condition : Prop} [Decidable condition] {e : E} {f : PUnit → Prog S E B} {s u : S}
    {b : B} (ran : (ensure condition e >>= f) s = (.ok b, u)) : condition ∧ f ⟨⟩ s = (.ok b, u) := by
  obtain ⟨_, t, checked, rest⟩ := bind_inv ran
  obtain ⟨holds, same⟩ := ensure_inv checked
  exact ⟨holds, same ▸ rest⟩

/-- From `P` the program ends in `Q` with its value, or leaves in `R`. -/
def Triple (P : S → Prop) (m : Prog S E A) (Q : A → S → Prop) (R : E → S → Prop) : Prop :=
  ∀ s, P s → match m s with
    | (.ok a, t) => Q a t
    | (.error e, t) => R e t

namespace Triple

variable {P P' : S → Prop} {Q Q' : A → S → Prop} {R R' : E → S → Prop}

theorem ret {a : A} (now : ∀ s, P s → Q a s) : Triple P (pure a) Q R := now

theorem exit {e : E} (now : ∀ s, P s → R e s) : Triple P (leave e : Prog S E A) Q R := now

theorem andThen {m : Prog S E A} {f : A → Prog S E B} {Q : B → S → Prop} {M : A → S → Prop}
    (first : Triple P m M R) (rest : ∀ a, Triple (M a) (f a) Q R) : Triple P (m >>= f) Q R := by
  intro s before
  have middle := first s before
  match ran : m s with
  | (.ok a, t) =>
    rw [ran] at middle
    rw [bind_ok ran]
    exact rest a t middle
  | (.error e, t) =>
    rw [ran] at middle
    rw [bind_error ran]
    exact middle

/-- What the first program tells about its value is a fact for the rest. -/
theorem learn {m : Prog S E A} {f : A → Prog S E B} {Q : B → S → Prop} {F : A → Prop} {M : S → Prop}
    (first : Triple P m (fun a s => F a ∧ M s) R) (rest : ∀ a, F a → Triple M (f a) Q R) :
    Triple P (m >>= f) Q R :=
  first.andThen fun a s before => rest a before.1 s before.2

theorem weaken {m : Prog S E A} (triple : Triple P m Q R) (pre : ∀ s, P' s → P s)
    (post : ∀ a s, Q a s → Q' a s) (early : ∀ e s, R e s → R' e s) : Triple P' m Q' R' := by
  intro s before
  have after := triple s (pre s before)
  match ran : m s with
  | (.ok a, t) =>
    rw [ran] at after
    exact post a t after
  | (.error e, t) =>
    rw [ran] at after
    exact early e t after

theorem pre {m : Prog S E A} (triple : Triple P m Q R) (stronger : ∀ s, P' s → P s) :
    Triple P' m Q R := fun s before => triple s (stronger s before)

theorem post {m : Prog S E A} (triple : Triple P m Q R) (weaker : ∀ a s, Q a s → Q' a s) :
    Triple P m Q' R := triple.weaken (fun _ before => before) weaker (fun _ _ early => early)

theorem get {Q : S → S → Prop} (now : ∀ s, P s → Q s s) : Triple P (read : Prog S E S) Q R := now

theorem set {Q : PUnit → S → Prop} (f : S → S) (now : ∀ s, P s → Q ⟨⟩ (f s)) :
    Triple P (change f : Prog S E PUnit) Q R := now

theorem check {condition : Prop} [Decidable condition] {e : E} {Q : PUnit → S → Prop}
    (holds : condition → ∀ s, P s → Q ⟨⟩ s) (fails : ¬ condition → ∀ s, P s → R e s) :
    Triple P (ensure condition e) Q R := by
  unfold ensure
  split
  · exact ret (holds ‹_›)
  · exact exit (fails ‹_›)

theorem found {value : Option A} {e : E} (present : ∀ a, value = some a → ∀ s, P s → Q a s)
    (absent : value = none → ∀ s, P s → R e s) : Triple P (need value e) Q R := by
  cases value with
  | some a => exact ret (present a rfl)
  | none => exact exit (absent rfl)

theorem given {fact : Prop} {m : Prog S E A} (known : fact → Triple P m Q R) :
    Triple (fun s => fact ∧ P s) m Q R := fun s before => known before.1 s before.2

theorem branch {condition : Prop} [Decidable condition] {m n : Prog S E A}
    (yes : condition → Triple P m Q R) (no : ¬ condition → Triple P n Q R) :
    Triple P (if condition then m else n) Q R := by
  split
  · exact yes ‹_›
  · exact no ‹_›

theorem onError {m : Prog S E A} {R : E → S → Prop} {undo : S → S} (triple : Triple P m Q R)
    (undone : ∀ e s, R e s → R' e (undo s)) : Triple P (m.onError undo) Q R' := by
  intro s before
  have after := triple s before
  unfold Prog.onError
  match ran : m s with
  | (.ok a, t) =>
    rw [ran] at after
    exact after
  | (.error e, t) =>
    rw [ran] at after
    exact undone e t after

theorem lastly {m : Prog S E A} {last : Prog S E PUnit} {M : A → S → Prop} {N : E → S → Prop}
    (first : Triple P m M N) (ended : ∀ a, Triple (M a) last (fun _ => Q a) R)
    (left : ∀ e, Triple (N e) last (fun _ => R e) R) : Triple P (m.lastly last) Q R := by
  intro s before
  have middle := first s before
  unfold Prog.lastly
  rcases ran : m s with ⟨e | a, t⟩
  · rw [ran] at middle
    have ends := left e t middle
    rcases done : last t with ⟨f | _, u⟩ <;> simpa [done] using ends
  · rw [ran] at middle
    have ends := ended a t middle
    rcases done : last t with ⟨f | _, u⟩ <;> simpa [done] using ends

theorem loop {body : A → Prog S E PUnit} {I : S → Prop} {R : E → S → Prop}
    (each : ∀ a, Triple I (body a) (fun _ => I) R) (as : List A) :
    Triple I (forEach body as) (fun _ => I) R := by
  induction as with
  | nil => exact ret fun _ inv => inv
  | cons a rest ih => exact (each a).andThen fun _ => ih

/-- What holds however the program ends. -/
theorem final {m : Prog S E A} {I : S → Prop} (triple : Triple P m (fun _ => I) (fun _ => I)) {s : S}
    (before : P s) : I (m s).2 := by
  have after := triple s before
  match ran : m s with
  | (.ok a, t) => rwa [ran] at after
  | (.error e, t) => rwa [ran] at after

end Triple

/-- A property of the state that the program keeps, however it ends. -/
def Keeps (I : S → Prop) (m : Prog S E A) : Prop := Triple I m (fun _ => I) (fun _ => I)

namespace Keeps

variable {I : S → Prop}

theorem ret (a : A) : Keeps I (pure a : Prog S E A) := Triple.ret fun _ inv => inv

theorem exit (e : E) : Keeps I (leave e : Prog S E A) := Triple.exit fun _ inv => inv

theorem get : Keeps I (read : Prog S E S) := Triple.get fun _ inv => inv

theorem andThen {m : Prog S E A} {f : A → Prog S E B} (first : Keeps I m)
    (rest : ∀ a, Keeps I (f a)) : Keeps I (m >>= f) := Triple.andThen first rest

theorem set (f : S → S) (now : ∀ s, I s → I (f s)) : Keeps I (change f : Prog S E PUnit) :=
  Triple.set f now

theorem check (condition : Prop) [Decidable condition] (e : E) :
    Keeps I (ensure condition e : Prog S E PUnit) :=
  Triple.check (fun _ _ inv => inv) fun _ _ inv => inv

theorem found (value : Option A) (e : E) : Keeps I (need value e : Prog S E A) :=
  Triple.found (fun _ _ _ inv => inv) fun _ _ inv => inv

theorem loop {body : A → Prog S E PUnit} (each : ∀ a, Keeps I (body a)) (as : List A) :
    Keeps I (forEach body as) := Triple.loop each as

theorem result {m : Prog S E A} (keeps : Keeps I m) {s : S} (before : I s) : I (m s).2 :=
  Triple.final keeps before

end Keeps

end Prog
end Machinen
