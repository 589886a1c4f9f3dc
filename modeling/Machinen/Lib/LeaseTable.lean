import Mathlib

/-! Leases kept twice: in one record for each kind of lease, which names the
descriptor that holds it, and as marks on the holders themselves. A refresh
recomputes the marks holder by holder; between two of its turns, and within one,
holders may disappear. -/
namespace Machinen.LeaseTable

set_option linter.unusedSectionVars false

variable {I F D : Type}

structure Holder (F D : Type) where
  fd : Option D
  eligible : Bool
  requested : F → Bool
  granted : F → Bool
  beat : Nat
  present : eligible = true → fd.isSome = true

structure Lease (D : Type) where
  fd : Option D
  expiresMs : Nat
deriving DecidableEq, Repr

structure Table (I F D : Type) where
  holders : I → Holder F D
  leases : F → Lease D

def vacant : Holder F D where
  fd := none
  eligible := false
  requested := fun _ => false
  granted := fun _ => false
  beat := 0
  present := fun impossible => absurd impossible Bool.false_ne_true

variable {i j : I} {f g : F}

variable [DecidableEq I] [DecidableEq F] [DecidableEq D]

namespace Table

def close (t : Table I F D) (i : I) : Table I F D where
  holders := Function.update t.holders i vacant
  leases := fun f =>
    if (t.leases f).fd = (t.holders i).fd then { t.leases f with fd := none } else t.leases f

def expire (t : Table I F D) (now : Nat) : Table I F D :=
  { t with leases := fun f =>
      if (t.leases f).fd.isSome ∧ (t.leases f).expiresMs ≤ now then { t.leases f with fd := none }
      else t.leases f }

def put (t : Table I F D) (i : I) (holder : Holder F D) : Table I F D :=
  { t with holders := Function.update t.holders i holder }

def grantable (duration now : Nat) (t : Table I F D) (i : I) (f : F) : Prop :=
  (t.holders i).eligible = true ∧ now - (t.holders i).beat < duration ∧
    (t.holders i).requested f = true ∧
    ((t.leases f).fd = none ∨ (t.leases f).fd = (t.holders i).fd)

instance (duration now : Nat) (t : Table I F D) (i : I) (f : F) :
    Decidable (grantable duration now t i f) := by
  unfold grantable
  infer_instance

def grant (duration now : Nat) (t : Table I F D) (i : I) (f : F) : Table I F D :=
  if grantable duration now t i f then
    { holders := Function.update t.holders i
        { t.holders i with granted := Function.update (t.holders i).granted f true }
      leases := Function.update t.leases f ⟨(t.holders i).fd, (t.holders i).beat + duration⟩ }
  else t

def clear (t : Table I F D) (i : I) : Table I F D :=
  t.put i { t.holders i with granted := fun _ => false }

def regrant (duration now : Nat) (flags : List F) (t : Table I F D) (i : I) : Table I F D :=
  flags.foldl (fun t f => t.grant duration now i f) (t.clear i)

/-- Descriptors are not shared, and a lease names none or that of a holder. -/
structure Base (t : Table I F D) : Prop where
  distinct : ∀ i j d, (t.holders i).fd = some d → (t.holders j).fd = some d → i = j
  held : ∀ f d, (t.leases f).fd = some d →
    ∃ i, (t.holders i).fd = some d ∧ (t.holders i).eligible = true

/-- The marks of one holder agree with the lease records. -/
def Sound (duration : Nat) (t : Table I F D) (i : I) : Prop :=
  ∀ f, (t.holders i).granted f = true →
    (t.holders i).eligible = true ∧ (t.leases f).fd = (t.holders i).fd ∧
      (t.holders i).requested f = true ∧ (t.leases f).expiresMs = (t.holders i).beat + duration

structure Inv (duration : Nat) (t : Table I F D) : Prop extends Base t where
  sound : ∀ i, Sound duration t i

variable {duration now : Nat} {t : Table I F D}

theorem Base.others (base : Base t) (apart : i ≠ j)
    (present : (t.holders i).fd.isSome = true) : (t.holders i).fd ≠ (t.holders j).fd := by
  intro same
  obtain ⟨d, own⟩ := Option.isSome_iff_exists.mp present
  exact apart (base.distinct i j d own (same ▸ own))

theorem Inv.exclusive (inv : Inv duration t) (f : F)
    (first : (t.holders i).granted f = true) (second : (t.holders j).granted f = true) : i = j := by
  obtain ⟨eligible, named, -, -⟩ := inv.sound i f first
  obtain ⟨-, other, -, -⟩ := inv.sound j f second
  by_contra apart
  exact inv.toBase.others apart ((t.holders i).present eligible) (named.symm.trans other)

/-- Nothing about one holder's marks depends on the others. -/
theorem Sound.frame {t' : Table I F D} (sound : Sound duration t i) (same : t'.holders i = t.holders i)
    (leases : ∀ f, (t.holders i).granted f = true → t'.leases f = t.leases f) :
    Sound duration t' i := by
  intro f marked
  rw [same] at marked ⊢
  rw [leases f marked]
  exact sound f marked

theorem close_base (base : Base t) (i : I) : Base (t.close i) := by
  have survives : ∀ j d, ((t.close i).holders j).fd = some d → j ≠ i ∧ (t.holders j).fd = some d := by
    intro j d own
    by_cases here : j = i
    · subst here
      simp [close, vacant] at own
    · exact ⟨here, by simpa [close, Function.update_of_ne here] using own⟩
  constructor
  · intro j k d first second
    exact base.distinct j k d (survives j d first).2 (survives k d second).2
  · intro f d named
    simp only [close] at named
    split at named
    · exact absurd named (by simp)
    · rename_i other
      obtain ⟨j, own, eligible⟩ := base.held f d named
      have elsewhere : j ≠ i := by
        intro here
        exact other (named.trans (here ▸ own).symm)
      exact ⟨j, by simpa [close, Function.update_of_ne elsewhere] using ⟨own, eligible⟩⟩

theorem close_leases (base : Base t) (apart : j ≠ i) (named : (t.leases f).fd = (t.holders j).fd)
    (present : (t.holders j).fd.isSome = true) : (t.close i).leases f = t.leases f := by
  have other : (t.leases f).fd ≠ (t.holders i).fd := named ▸ base.others apart present
  simp only [close, if_neg other]

theorem close_holders (t : Table I F D) (apart : j ≠ i) :
    (t.close i).holders j = t.holders j := Function.update_of_ne apart _ _

theorem close_sound_self (t : Table I F D) (i : I) : Sound duration (t.close i) i := by
  intro f marked
  simp [close, vacant] at marked

theorem close_sound (base : Base t) (i : I) (sound : Sound duration t j) :
    Sound duration (t.close i) j := by
  by_cases here : j = i
  · subst here
    exact close_sound_self t j
  · apply sound.frame (close_holders t here)
    intro f marked
    obtain ⟨eligible, named, -, -⟩ := sound f marked
    exact close_leases base here named ((t.holders j).present eligible)

theorem Inv.close (inv : Inv duration t) (i : I) : Inv duration (t.close i) where
  toBase := close_base inv.toBase i
  sound := fun j => close_sound inv.toBase i (inv.sound j)

theorem expire_base (base : Base t) (now : Nat) : Base (t.expire now) where
  distinct := base.distinct
  held := by
    intro f d named
    simp only [expire] at named
    split at named
    · exact absurd named (by simp)
    · exact base.held f d named

theorem grant_holders_fd (duration now : Nat) (t : Table I F D) (i j : I) (f : F) :
    ((t.grant duration now i f).holders j).fd = (t.holders j).fd ∧
      ((t.grant duration now i f).holders j).eligible = (t.holders j).eligible ∧
      ((t.grant duration now i f).holders j).requested = (t.holders j).requested ∧
      ((t.grant duration now i f).holders j).beat = (t.holders j).beat := by
  unfold grant
  split
  · by_cases here : j = i
    · subst here
      simp
    · simp [Function.update_of_ne here]
  · simp

theorem grant_holders (t : Table I F D) (apart : j ≠ i) (f : F) :
    (t.grant duration now i f).holders j = t.holders j := by
  unfold grant
  split
  · exact Function.update_of_ne apart _ _
  · rfl

theorem grant_base (base : Base t) (i : I) (f : F) : Base (t.grant duration now i f) := by
  constructor
  · intro j k d first second
    rw [(grant_holders_fd _ _ t i j f).1] at first
    rw [(grant_holders_fd _ _ t i k f).1] at second
    exact base.distinct j k d first second
  · intro g d named
    have found : ∃ j, (t.holders j).fd = some d ∧ (t.holders j).eligible = true := by
      unfold grant at named
      split at named
      · rename_i may
        by_cases same : g = f
        · subst same
          exact ⟨i, by simpa using named, may.1⟩
        · exact base.held g d (by simpa [Function.update_of_ne same] using named)
      · exact base.held g d named
    obtain ⟨j, own, eligible⟩ := found
    exact ⟨j, (grant_holders_fd _ _ t i j f).1.trans own, (grant_holders_fd _ _ t i j f).2.1.trans eligible⟩

/-- A lease that another holder has is not granted away. -/
theorem grant_leases (base : Base t) (apart : j ≠ i) (f : F)
    (named : (t.leases g).fd = (t.holders j).fd) (present : (t.holders j).fd.isSome = true) :
    (t.grant duration now i f).leases g = t.leases g := by
  unfold grant
  split
  · rename_i may
    by_cases same : g = f
    · subst same
      rcases may.2.2.2 with free | own
      · rw [← named, free] at present
        exact absurd present (by simp)
      · exact absurd (named.symm.trans own) (base.others apart present)
    · exact Function.update_of_ne same _ _
  · rfl

theorem grant_sound_self (sound : Sound duration t i) (f : F) :
    Sound duration (t.grant duration now i f) i := by
  unfold grant
  split
  · rename_i may
    intro g marked
    by_cases same : g = f
    · subst same
      simp [may.1, may.2.2.1]
    · have before : (t.holders i).granted g = true := by
        simpa [Function.update_of_ne same] using marked
      simpa [Function.update_of_ne same] using sound g before
  · exact sound

theorem clear_holders (t : Table I F D) (apart : j ≠ i) :
    (t.clear i).holders j = t.holders j := Function.update_of_ne apart _ _

theorem clear_fields (t : Table I F D) (i j : I) :
    ((t.clear i).holders j).fd = (t.holders j).fd ∧
      ((t.clear i).holders j).eligible = (t.holders j).eligible ∧
      ((t.clear i).holders j).requested = (t.holders j).requested ∧
      ((t.clear i).holders j).beat = (t.holders j).beat := by
  by_cases here : j = i
  · subst here
    simp [clear, put]
  · simp [clear_holders t here]

theorem clear_base (base : Base t) (i : I) : Base (t.clear i) := by
  constructor
  · intro j k d first second
    rw [(clear_fields t i j).1] at first
    rw [(clear_fields t i k).1] at second
    exact base.distinct j k d first second
  · intro f d named
    obtain ⟨j, own, eligible⟩ := base.held f d named
    exact ⟨j, (clear_fields t i j).1.trans own, (clear_fields t i j).2.1.trans eligible⟩

section Regrant
variable (flags : List F)

theorem regrant_holders (t : Table I F D) (apart : j ≠ i) :
    (t.regrant duration now flags i).holders j = t.holders j := by
  have step : ∀ t' : Table I F D, t'.holders j = t.holders j →
      (flags.foldl (fun t f => t.grant duration now i f) t').holders j = t.holders j := by
    induction flags with
    | nil => exact fun t' same => same
    | cons f rest ih => exact fun t' same => ih _ ((grant_holders t' apart f).trans same)
  exact step _ (clear_holders t apart)

theorem regrant_base (base : Base t) (i : I) : Base (t.regrant duration now flags i) := by
  have step : ∀ t' : Table I F D, Base t' →
      Base (flags.foldl (fun t f => t.grant duration now i f) t') := by
    induction flags with
    | nil => exact fun t' base' => base'
    | cons f rest ih => exact fun t' base' => ih _ (grant_base base' i f)
  exact step _ (clear_base base i)

theorem regrant_leases (base : Base t) (apart : j ≠ i)
    (named : (t.leases g).fd = (t.holders j).fd) (present : (t.holders j).fd.isSome = true) :
    (t.regrant duration now flags i).leases g = t.leases g := by
  have step : ∀ t' : Table I F D, Base t' → t'.holders j = t.holders j → t'.leases g = t.leases g →
      (flags.foldl (fun t f => t.grant duration now i f) t').leases g = t.leases g := by
    induction flags with
    | nil => exact fun t' _ _ same => same
    | cons f rest ih =>
      intro t' base' same lease
      apply ih _ (grant_base base' i f) ((grant_holders t' apart f).trans same)
      rw [grant_leases base' apart f (by rw [lease, same, named]) (by rw [same, present]), lease]
  exact step _ (clear_base base i) (clear_holders t apart) rfl

theorem regrant_sound_self (t : Table I F D) (i : I) :
    Sound duration (t.regrant duration now flags i) i := by
  have step : ∀ t' : Table I F D, Sound duration t' i →
      Sound duration (flags.foldl (fun t f => t.grant duration now i f) t') i := by
    induction flags with
    | nil => exact fun t' sound => sound
    | cons f rest ih => exact fun t' sound => ih _ (grant_sound_self sound f)
  apply step
  intro f marked
  simp [clear, put] at marked

theorem regrant_sound (base : Base t) (apart : j ≠ i) (sound : Sound duration t j) :
    Sound duration (t.regrant duration now flags i) j := by
  apply sound.frame (regrant_holders flags t apart)
  intro f marked
  obtain ⟨eligible, named, -, -⟩ := sound f marked
  exact regrant_leases flags base apart named ((t.holders j).present eligible)

end Regrant

/-- The holders in `done` have had their turn of the refresh. -/
structure Refreshed (duration : Nat) (done : I → Prop) (t : Table I F D) : Prop extends Base t where
  sound : ∀ i, done i → Sound duration t i

theorem Refreshed.regrant {done : I → Prop} (refreshed : Refreshed duration done t) (flags : List F)
    (i : I) : Refreshed duration (fun j => done j ∨ j = i) (t.regrant duration now flags i) where
  toBase := regrant_base flags refreshed.toBase i
  sound := by
    intro j turn
    by_cases here : j = i
    · subst here
      exact regrant_sound_self flags t j
    · exact regrant_sound flags refreshed.toBase here (refreshed.sound j (turn.resolve_right here))

theorem Refreshed.close {done : I → Prop} (refreshed : Refreshed duration done t) (i : I) :
    Refreshed duration done (t.close i) where
  toBase := close_base refreshed.toBase i
  sound := fun j turn => close_sound refreshed.toBase i (refreshed.sound j turn)

theorem Refreshed.inv {done : I → Prop} (refreshed : Refreshed duration done t)
    (all : ∀ i, done i) : Inv duration t where
  toBase := refreshed.toBase
  sound := fun i => refreshed.sound i (all i)

/-- Base looks at descriptors and eligibility only. -/
theorem Base.frame {t' : Table I F D} (base : Base t)
    (fd : ∀ i, (t'.holders i).fd = (t.holders i).fd)
    (eligible : ∀ i, (t.holders i).eligible = true → (t'.holders i).eligible = true)
    (leases : ∀ f d, (t'.leases f).fd = some d →
      ∃ i, (t.holders i).fd = some d ∧ (t.holders i).eligible = true) : Base t' where
  distinct := by
    intro i j d first second
    exact base.distinct i j d (fd i ▸ first) (fd j ▸ second)
  held := by
    intro f d named
    obtain ⟨i, own, may⟩ := leases f d named
    exact ⟨i, (fd i).trans own, eligible i may⟩

/-- A holder that has nothing yet, under a descriptor that nobody has. -/
theorem Inv.enter (inv : Inv duration t) (i : I) (holder : Holder F D)
    (absent : (t.holders i).fd = none) (unmarked : ∀ f, holder.granted f = false)
    (fresh : ∀ j d, holder.fd = some d → (t.holders j).fd ≠ some d) :
    Inv duration (t.put i holder) := by
  have elsewhere : ∀ j, j ≠ i → (t.put i holder).holders j = t.holders j :=
    fun j apart => Function.update_of_ne apart _ _
  have here : (t.put i holder).holders i = holder := Function.update_self _ _ _
  refine ⟨⟨?_, ?_⟩, ?_⟩
  · intro j k d first second
    by_cases atJ : j = i <;> by_cases atK : k = i
    · exact atJ.trans atK.symm
    · rw [atJ, here] at first
      rw [elsewhere k atK] at second
      exact absurd second (fresh k d first)
    · rw [elsewhere j atJ] at first
      rw [atK, here] at second
      exact absurd first (fresh j d second)
    · rw [elsewhere j atJ] at first
      rw [elsewhere k atK] at second
      exact inv.distinct j k d first second
  · intro f d named
    obtain ⟨j, own, eligible⟩ := inv.held f d named
    have apart : j ≠ i := fun same => by simp [same, absent] at own
    exact ⟨j, by rw [elsewhere j apart]; exact ⟨own, eligible⟩⟩
  · intro j
    by_cases atJ : j = i
    · subst atJ
      intro f marked
      rw [here, unmarked f] at marked
      exact absurd marked Bool.false_ne_true
    · exact (inv.sound j).frame (elsewhere j atJ) fun _ _ => rfl

theorem Base.refreshed (base : Base t) : Refreshed duration (fun _ => False) t :=
  ⟨base, fun _ none => none.elim⟩

/-- A holder whose lease is its own, whose heartbeat is recent and who asked for
the lease is marked in its own turn. -/
theorem grant_marks (may : grantable duration now t i f) :
    ((t.grant duration now i f).holders i).granted f = true := by
  simp [grant, may]

theorem grant_granted (t : Table I F D) (i : I) (f : F) (marked : (t.holders j).granted g = true) :
    ((t.grant duration now i f).holders j).granted g = true := by
  unfold grant
  split
  · by_cases here : j = i
    · subst here
      by_cases same : g = f
      · subst same
        simp
      · simpa [Function.update_of_ne same] using marked
    · simpa [Function.update_of_ne here] using marked
  · exact marked

theorem grantable_other (apart : g ≠ f) (may : grantable duration now t i g) :
    grantable duration now (t.grant duration now i f) i g := by
  obtain ⟨fd, eligible, requested, beat⟩ := grant_holders_fd duration now t i i f
  have lease : (t.grant duration now i f).leases g = t.leases g := by
    unfold grant
    split
    · exact Function.update_of_ne apart _ _
    · rfl
  unfold grantable
  rw [fd, eligible, requested, beat, lease]
  exact may

theorem regrant_marks {flags : List F} (listed : f ∈ flags) (may : grantable duration now t i f) :
    ((t.regrant duration now flags i).holders i).granted f = true := by
  have marked : ∀ (rest : List F) (t' : Table I F D), (t'.holders i).granted f = true →
      ((rest.foldl (fun t g => t.grant duration now i g) t').holders i).granted f = true := by
    intro rest
    induction rest with
    | nil => exact fun t' done => done
    | cons g rest ih => exact fun t' done => ih _ (grant_granted t' i g done)
  have step : ∀ t' : Table I F D, grantable duration now t' i f →
      ((flags.foldl (fun t g => t.grant duration now i g) t').holders i).granted f = true := by
    induction flags with
    | nil => exact absurd listed List.not_mem_nil
    | cons g rest ih =>
      intro t' may'
      by_cases same : f = g
      · subst same
        exact marked rest _ (grant_marks may')
      · have later : f ∈ rest := (List.mem_cons.mp listed).resolve_left same
        exact ih later _ (grantable_other same may')
  apply step
  obtain ⟨fd, eligible, requested, beat⟩ := clear_fields t i i
  unfold grantable
  rw [fd, eligible, requested, beat]
  exact may

end Table
end Machinen.LeaseTable
