import Machinen.Console.Noise
import Machinen.Lib.Utf8Encode

/-! What a text can be read as when its bytes arrive in pieces: the characters of one byte stay as they
are, and between them stands whatever the pieces make of the other bytes. -/
namespace Machinen.Console

open Utf8
open Runtime.Multiplex (isSpace trimStart trimEnd trim)

/-- Each byte that is no character of its own is taken for a piece of its own. -/
def maskByte (b : UInt8) : Char := if b.toNat < 0x80 then Char.ofNat b.toNat else replacement

def mask (bytes : Bytes) : Text := bytes.map maskByte

/-- The second text reads as the first one does, up to how many characters make up a run without
characters of one byte. The flag says that such a run has begun. -/
inductive Sim : Bool → Text → Text → Prop
  | nil (run : Bool) : Sim run [] []
  | same {run : Bool} {c : Char} {m t : Text} : c.toNat < 0x80 → Sim false m t → Sim run (c :: m) (c :: t)
  | other {run : Bool} {d : Char} {m t : Text} : 0x80 ≤ d.toNat → Sim true m t →
      Sim run (replacement :: m) (d :: t)
  | more {m t : Text} : Sim true m t → Sim true (replacement :: m) t
  | less {d : Char} {m t : Text} : 0x80 ≤ d.toNat → Sim true m t → Sim true m (d :: t)

theorem replacement_wide : ¬ replacement.toNat < 0x80 := by decide

namespace Sim

variable {run : Bool} {m t : Text}

theorem weaken (sim : Sim false m t) : Sim run m t := by
  cases sim with
  | nil => exact .nil run
  | same ascii rest => exact .same ascii rest
  | other wide rest => exact .other wide rest

theorem append {m' t' : Text} (sim : Sim run m t) (sim' : Sim false m' t') : Sim run (m ++ m') (t ++ t') := by
  induction sim with
  | nil run => exact sim'.weaken
  | same ascii _ ih => exact .same ascii ih
  | other wide _ ih => exact .other wide ih
  | more _ ih => exact .more ih
  | less wide _ ih => exact .less wide ih

theorem cut {c : Char} (ascii : c.toNat < 0x80) {m₁ m₂ : Text} (sim : Sim run (m₁ ++ c :: m₂) t) :
    ∃ t₁ t₂, t = t₁ ++ c :: t₂ ∧ Sim run m₁ t₁ ∧ Sim false m₂ t₂ := by
  generalize whole : m₁ ++ c :: m₂ = m at sim
  induction sim generalizing m₁ with
  | nil run => simp at whole
  | @same run d m t small rest ih =>
    cases m₁ with
    | nil =>
      obtain ⟨rfl, rfl⟩ := List.cons.inj whole
      exact ⟨[], t, rfl, .nil run, rest⟩
    | cons e m₁ =>
      obtain ⟨rfl, rfl⟩ := List.cons.inj whole
      obtain ⟨t₁, t₂, rfl, left, right⟩ := ih rfl
      exact ⟨e :: t₁, t₂, rfl, .same small left, right⟩
  | @other run d m t wide rest ih =>
    cases m₁ with
    | nil =>
      obtain ⟨rfl, rfl⟩ := List.cons.inj whole
      exact absurd ascii replacement_wide
    | cons e m₁ =>
      obtain ⟨rfl, rfl⟩ := List.cons.inj whole
      obtain ⟨t₁, t₂, rfl, left, right⟩ := ih rfl
      exact ⟨d :: t₁, t₂, rfl, .other wide left, right⟩
  | @more m t rest ih =>
    cases m₁ with
    | nil =>
      obtain ⟨rfl, rfl⟩ := List.cons.inj whole
      exact absurd ascii replacement_wide
    | cons e m₁ =>
      obtain ⟨rfl, rfl⟩ := List.cons.inj whole
      obtain ⟨t₁, t₂, rfl, left, right⟩ := ih rfl
      exact ⟨t₁, t₂, rfl, .more left, right⟩
  | @less d m t wide rest ih =>
    obtain ⟨t₁, t₂, rfl, left, right⟩ := ih whole
    exact ⟨d :: t₁, t₂, rfl, .less wide left, right⟩

theorem cut_right {c : Char} (ascii : c.toNat < 0x80) {t₁ t₂ : Text} (sim : Sim run m (t₁ ++ c :: t₂)) :
    ∃ m₁ m₂, m = m₁ ++ c :: m₂ ∧ Sim run m₁ t₁ ∧ Sim false m₂ t₂ := by
  generalize whole : t₁ ++ c :: t₂ = t at sim
  induction sim generalizing t₁ with
  | nil run => simp at whole
  | @same run d m t small rest ih =>
    cases t₁ with
    | nil =>
      obtain ⟨rfl, rfl⟩ := List.cons.inj whole
      exact ⟨[], m, rfl, .nil run, rest⟩
    | cons e t₁ =>
      obtain ⟨rfl, rfl⟩ := List.cons.inj whole
      obtain ⟨m₁, m₂, rfl, left, right⟩ := ih rfl
      exact ⟨e :: m₁, m₂, rfl, .same small left, right⟩
  | @other run d m t wide rest ih =>
    cases t₁ with
    | nil =>
      obtain ⟨rfl, rfl⟩ := List.cons.inj whole
      omega
    | cons e t₁ =>
      obtain ⟨rfl, rfl⟩ := List.cons.inj whole
      obtain ⟨m₁, m₂, rfl, left, right⟩ := ih rfl
      exact ⟨replacement :: m₁, m₂, rfl, .other wide left, right⟩
  | @more m t rest ih =>
    obtain ⟨m₁, m₂, rfl, left, right⟩ := ih whole
    exact ⟨replacement :: m₁, m₂, rfl, .more left, right⟩
  | @less d m t wide rest ih =>
    cases t₁ with
    | nil =>
      obtain ⟨rfl, rfl⟩ := List.cons.inj whole
      omega
    | cons e t₁ =>
      obtain ⟨rfl, rfl⟩ := List.cons.inj whole
      obtain ⟨m₁, m₂, rfl, left, right⟩ := ih rfl
      exact ⟨m₁, m₂, rfl, .less wide left, right⟩

theorem mem_iff (sim : Sim run m t) {c : Char} (ascii : c.toNat < 0x80) : c ∈ m ↔ c ∈ t := by
  constructor
  · intro mem
    obtain ⟨m₁, m₂, rfl⟩ := List.append_of_mem mem
    obtain ⟨t₁, t₂, rfl, -, -⟩ := sim.cut ascii
    simp
  · intro mem
    obtain ⟨t₁, t₂, rfl⟩ := List.append_of_mem mem
    obtain ⟨m₁, m₂, rfl, -, -⟩ := sim.cut_right ascii
    simp

/-- A text of characters of one byte is read in one way only. -/
theorem eq_of_ascii (ascii : ∀ c ∈ m, c.toNat < 0x80) (sim : Sim false m t) : t = m := by
  generalize no : false = run at sim
  induction sim with
  | nil => rfl
  | same _ _ ih => rw [ih (fun c mem => ascii c (List.mem_cons_of_mem _ mem)) rfl]
  | other => exact absurd (ascii _ List.mem_cons_self) replacement_wide
  | more => cases no
  | less => cases no

end Sim

theorem mask_append (u v : Bytes) : mask (u ++ v) = mask u ++ mask v := List.map_append

theorem maskByte_ascii {b : UInt8} (ascii : b.toNat < 0x80) : maskByte b = Char.ofNat b.toNat := if_pos ascii

theorem maskByte_wide {b : UInt8} (wide : 0x80 ≤ b.toNat) : maskByte b = replacement := if_neg (by omega)

theorem Sim.fill {m t : Text} {own : Bytes} (wide : ∀ b ∈ own, 0x80 ≤ b.toNat) (sim : Sim true m t) :
    Sim true (mask own ++ m) t := by
  induction own with
  | nil => exact sim
  | cons b own ih =>
    have rest := ih fun c mem => wide c (List.mem_cons_of_mem b mem)
    unfold mask at rest ⊢
    rw [List.map_cons, maskByte_wide (wide b List.mem_cons_self)]
    exact .more rest

theorem decode_sim (bytes : Bytes) : Sim false (mask bytes) (decode bytes) := by
  induction length : bytes.length using Nat.strongRecOn generalizing bytes with
  | ind n ih =>
    cases bytes with
    | nil => exact .nil false
    | cons b bs =>
      have rest := ih (bs.drop (first b bs).2).length
        (by rw [List.length_drop, ← length, List.length_cons]; omega) _ rfl
      rw [decode_cons]
      by_cases ascii : b.toNat < 0x80
      · have alone : first b bs = (Char.ofNat b.toNat, 0) := by
          unfold first
          rw [lead_ascii ascii]
          cases bs <;> rfl
        rw [alone] at rest ⊢
        have small : (Char.ofNat b.toNat).toNat < 0x80 := by rwa [ofNat_toNat ascii]
        unfold mask at rest ⊢
        rw [List.map_cons, maskByte_ascii ascii]
        exact .same small rest
      · have wide : 0x80 ≤ b.toNat := Nat.le_of_not_lt ascii
        have filled := Sim.fill (first_own b bs) rest.weaken
        rw [← mask_append, List.take_append_drop] at filled
        unfold mask at filled ⊢
        rw [List.map_cons, maskByte_wide wide]
        exact .other (first_wide wide) filled

theorem decode_one (b : UInt8) : decode [b] = [maskByte b] := by
  by_cases ascii : b.toNat < 0x80
  · rw [maskByte_ascii ascii]
    exact decode_ascii ascii [] []
  · rw [maskByte_wide (Nat.le_of_not_lt ascii)]
    have none : (first b []).1 = replacement := by
      unfold first
      cases leads : lead b with
      | none => rfl
      | some found =>
        obtain ⟨acc, bounds⟩ := found
        cases bounds with
        | cons bound bounds => rfl
        | nil =>
          unfold lead continuation at leads
          dsimp only at leads
          repeat' split at leads
          all_goals simp_all
    rw [decode_cons, none, List.drop_nil]
    rfl

namespace Sim

variable {run : Bool} {m t : Text}

/-- Of characters of one byte the same ones are taken from the front. -/
theorem span {p : Char → Bool} (narrow : ∀ c, p c = true → c.toNat < 0x80) (sim : Sim false m t) :
    m.takeWhile p = t.takeWhile p ∧ Sim false (m.dropWhile p) (t.dropWhile p) := by
  generalize no : false = run at sim
  induction sim with
  | nil run => exact ⟨rfl, .nil _⟩
  | @same run c m t small rest ih =>
    subst no
    obtain ⟨taken, dropped⟩ := ih rfl
    cases here : p c with
    | true => simpa [here, taken] using dropped
    | false => simpa [here] using (Sim.same small rest : Sim false (c :: m) (c :: t))
  | @other run d m t wide rest =>
    have stops : p replacement = false := by
      by_contra goes
      exact replacement_wide (narrow _ (by simpa using goes))
    have stops' : p d = false := by
      by_contra goes
      have small := narrow d (by simpa using goes)
      omega
    subst no
    simpa [stops, stops'] using (Sim.other wide rest : Sim false (replacement :: m) (d :: t))
  | more => cases no
  | less => cases no

theorem head_iff (sim : Sim false m t) {c : Char} (ascii : c.toNat < 0x80) :
    m.head? = some c ↔ t.head? = some c := by
  cases sim with
  | nil => rfl
  | same => simp
  | other wide =>
    have apart : replacement ≠ c := by
      rintro rfl
      exact replacement_wide ascii
    have apart' : ∀ d : Char, 0x80 ≤ d.toNat → d ≠ c := by
      rintro d high rfl
      omega
    simp [apart, apart' _ wide]

end Sim

theorem narrow_parameter (c : Char) (is : isParameter c = true) : c.toNat < 0x80 := by
  simp only [isParameter, Bool.and_eq_true, decide_eq_true_eq] at is
  exact Nat.lt_of_le_of_lt is.2 (by decide)

theorem narrow_intermediate (c : Char) (is : isIntermediate c = true) : c.toNat < 0x80 := by
  simp only [isIntermediate, Bool.and_eq_true, decide_eq_true_eq] at is
  exact Nat.lt_of_le_of_lt is.2 (by decide)

theorem narrow_final (c : Char) (is : isFinal c = true) : c.toNat < 0x80 := by
  simp only [isFinal, Bool.and_eq_true, decide_eq_true_eq] at is
  exact Nat.lt_of_le_of_lt is.2 (by decide)

theorem narrow_digit (c : Char) (is : isDigit c = true) : c.toNat < 0x80 := by
  simp only [isDigit, Bool.and_eq_true, decide_eq_true_eq] at is
  exact Nat.lt_of_le_of_lt is.2 (by decide)

theorem csiLength_some {text : Text} {n : Nat} (is : csiLength text = some n) :
    ∃ own rest, text = own ++ rest ∧ own.length = n ∧ ∀ c ∈ own, c.toNat < 0x80 := by
  unfold csiLength at is
  split at is
  · rename_i text
    dsimp only at is
    split at is
    · rename_i c rest found
      split at is
      · rename_i final
        refine ⟨'[' :: (text.takeWhile isParameter ++
          ((text.dropWhile isParameter).takeWhile isIntermediate ++ [c])), rest, ?_, ?_, ?_⟩
        · have inner := List.takeWhile_append_dropWhile (p := isIntermediate) (l := text.dropWhile isParameter)
          rw [found] at inner
          have outer := List.takeWhile_append_dropWhile (p := isParameter) (l := text)
          rw [← inner] at outer
          simpa using outer.symm
        · cases is
          simp
          omega
        · intro d mem
          simp only [List.mem_cons, List.mem_append, List.not_mem_nil, or_false] at mem
          rcases mem with rfl | mem | mem | rfl
          · decide
          · exact narrow_parameter d (List.mem_takeWhile_imp mem)
          · exact narrow_intermediate d (List.mem_takeWhile_imp mem)
          · exact narrow_final d final
      · cases is
    · cases is
  · cases is

theorem csiLength_other {c : Char} (not : c ≠ '[') (text : Text) : csiLength (c :: text) = none := by
  unfold csiLength
  split
  · rename_i same
    exact absurd (List.cons.inj same).1 not
  · rfl

theorem wide_ne {c d : Char} (ascii : c.toNat < 0x80) (wide : 0x80 ≤ d.toNat) : d ≠ c := by
  rintro rfl
  omega

namespace Sim

variable {run : Bool} {m t : Text}

theorem csiLength_eq (sim : Sim false m t) : csiLength m = csiLength t := by
  have bracket : ('[').toNat < 0x80 := by decide
  cases sim with
  | nil => rfl
  | @same _ c m t small rest =>
    by_cases is : c = '['
    · subst is
      obtain ⟨first, rest⟩ := rest.span narrow_parameter
      obtain ⟨second, rest⟩ := rest.span narrow_intermediate
      simp only [csiLength, first, second]
      generalize (m.dropWhile isParameter).dropWhile isIntermediate = m' at rest
      generalize (t.dropWhile isParameter).dropWhile isIntermediate = t' at rest
      cases rest with
      | nil => rfl
      | same => rfl
      | @other _ d _ _ wide =>
        have not : isFinal replacement = false := by decide
        have not' : isFinal d = false := by
          by_contra is
          have small := narrow_final d (by simpa using is)
          omega
        simp [not, not']
    · rw [csiLength_other is, csiLength_other is]
  | other wide => rw [csiLength_other (by decide), csiLength_other (wide_ne bracket wide)]

theorem drop_ascii {own rest : Text} (ascii : ∀ c ∈ own, c.toNat < 0x80) (sim : Sim false (own ++ rest) t) :
    ∃ t', t = own ++ t' ∧ Sim false rest t' := by
  induction own generalizing t with
  | nil => exact ⟨t, rfl, sim⟩
  | cons c own ih =>
    cases sim with
    | same _ sim =>
      obtain ⟨t', rfl, sim'⟩ := ih (fun d mem => ascii d (List.mem_cons_of_mem c mem)) sim
      exact ⟨t', rfl, sim'⟩
    | other => exact absurd (ascii _ List.mem_cons_self) replacement_wide

end Sim

theorem stripCsiFrom_eq (skip : Nat) (text : Text) : stripCsiFrom skip text = stripCsiFrom 0 (text.drop skip) := by
  induction text generalizing skip with
  | nil => cases skip <;> simp [stripCsiFrom]
  | cons c text ih =>
    cases skip with
    | zero => rfl
    | succ skip => exact ih skip

theorem stripCsi_cons (c : Char) (text : Text) : stripCsiFrom 0 (c :: text) =
    match if c = ESC then csiLength text else none with
    | some taken => stripCsiFrom 0 (text.drop taken)
    | none => c :: stripCsiFrom 0 text := by
  rw [stripCsiFrom]
  cases if c = ESC then csiLength text else none with
  | none => rfl
  | some taken => exact stripCsiFrom_eq taken text

theorem stripCsi_wide {c : Char} (not : c ≠ ESC) (text : Text) :
    stripCsiFrom 0 (c :: text) = c :: stripCsiFrom 0 text := by
  rw [stripCsi_cons, if_neg not]

namespace Sim

variable {run : Bool} {m t : Text}

theorem stripCsi (sim : Sim run m t) : Sim run (stripCsiFrom 0 m) (stripCsiFrom 0 t) := by
  have escape : ESC.toNat < 0x80 := by decide
  induction length : m.length + t.length using Nat.strongRecOn generalizing run m t with
  | ind n ih =>
    subst length
    cases sim with
    | nil => exact .nil run
    | @same _ c m t small rest =>
      rw [stripCsi_cons, stripCsi_cons]
      by_cases is : c = ESC
      · rw [if_pos is, if_pos is, ← rest.csiLength_eq]
        cases found : csiLength m with
        | none => exact .same small (ih _ (by simp; omega) rest rfl)
        | some taken =>
          obtain ⟨own, later, rfl, rfl, ascii⟩ := csiLength_some found
          obtain ⟨t', rfl, sim⟩ := rest.drop_ascii ascii
          simp only [List.drop_left]
          exact (ih _ (by simp; omega) sim rfl).weaken
      · rw [if_neg is, if_neg is]
        exact .same small (ih _ (by simp; omega) rest rfl)
    | other wide rest =>
      rw [stripCsi_wide (by decide), stripCsi_wide (wide_ne escape wide)]
      exact .other wide (ih _ (by simp; omega) rest rfl)
    | more rest =>
      rw [stripCsi_wide (by decide)]
      exact .more (ih _ (by simp) rest rfl)
    | less wide rest =>
      rw [stripCsi_wide (wide_ne escape wide)]
      exact .less wide (ih _ (by simp) rest rfl)

theorem strip (sim : Sim run m t) : Sim run (stripAnsiControl m) (stripAnsiControl t) := by
  have carriage : CR.toNat < 0x80 := by decide
  unfold stripAnsiControl
  replace sim := sim.stripCsi
  generalize stripCsiFrom 0 m = m at sim
  generalize stripCsiFrom 0 t = t at sim
  induction sim with
  | nil run => exact .nil run
  | @same run c m t small rest ih =>
    by_cases is : c = CR
    · simpa [is] using ih.weaken
    · simpa [is] using (Sim.same small ih : Sim run _ _)
  | @other run d m t wide rest ih =>
    have kept : replacement ≠ CR := by decide
    simpa [kept, wide_ne carriage wide] using (Sim.other wide ih : Sim run _ _)
  | more rest ih =>
    have kept : replacement ≠ CR := by decide
    simpa [kept] using Sim.more ih
  | less wide rest ih => simpa [wide_ne carriage wide] using Sim.less wide ih

/-- Behind the spaces in front, where a character of one byte stands there. -/
theorem trimmed {c : Char} {m' : Text} (ascii : c.toNat < 0x80) (sim : Sim false m t)
    (front : m.dropWhile isSpace = c :: m') :
    ∃ t', t.dropWhile isSpace = c :: t' ∧ Sim false m' t' := by
  generalize no : false = run at sim
  induction sim with
  | nil => simp at front
  | @same run d m t small rest ih =>
    subst no
    cases space : isSpace d with
    | true =>
      simp only [List.dropWhile_cons, space, if_true] at front ⊢
      exact ih front rfl
    | false =>
      simp only [List.dropWhile_cons, space, Bool.false_eq_true, if_false] at front ⊢
      obtain ⟨rfl, rfl⟩ := List.cons.inj front
      exact ⟨t, rfl, rest⟩
  | other wide rest =>
    have stays : isSpace replacement = false := by decide
    simp only [List.dropWhile_cons, stays, Bool.false_eq_true, if_false] at front
    exact absurd ((List.cons.inj front).1 ▸ ascii) replacement_wide
  | more => cases no
  | less => cases no

end Sim

namespace Sim

variable {run : Bool} {m t : Text}

theorem prefix_iff {own : Text} (ascii : ∀ c ∈ own, c.toNat < 0x80) (sim : Sim false m t) :
    own <+: m ↔ own <+: t := by
  induction own generalizing m t with
  | nil => simp
  | cons c own ih =>
    have small := ascii c List.mem_cons_self
    cases sim with
    | nil => rfl
    | @same _ d m t _ rest =>
      simp only [List.cons_prefix_cons, ih (fun e mem => ascii e (List.mem_cons_of_mem c mem)) rest]
    | @other _ d m t wide =>
      have apart : c ≠ replacement := by
        rintro rfl
        exact replacement_wide small
      simp [List.cons_prefix_cons, apart, (wide_ne small wide).symm]

theorem infix_iff {c : Char} {own : Text} (ascii : ∀ d ∈ c :: own, d.toNat < 0x80) (sim : Sim run m t) :
    c :: own <:+: m ↔ c :: own <:+: t := by
  have small := ascii c List.mem_cons_self
  have rest : ∀ d ∈ own, d.toNat < 0x80 := fun d mem => ascii d (List.mem_cons_of_mem c mem)
  constructor
  · rintro ⟨a, b, rfl⟩
    rw [List.append_assoc, List.cons_append] at sim
    obtain ⟨t₁, t₂, rfl, -, right⟩ := sim.cut small
    obtain ⟨b', rfl⟩ := (right.prefix_iff rest).mp ⟨b, rfl⟩
    exact ⟨t₁, b', by simp⟩
  · rintro ⟨a, b, rfl⟩
    rw [List.append_assoc, List.cons_append] at sim
    obtain ⟨m₁, m₂, rfl, -, right⟩ := sim.cut_right small
    obtain ⟨b', rfl⟩ := (right.prefix_iff rest).mpr ⟨b, rfl⟩
    exact ⟨m₁, b', by simp⟩

theorem hypervisor (sim : Sim false m t) (is : hypervisorTail m = true) : hypervisorTail t = true := by
  have colon : (':').toNat < 0x80 := by decide
  cases sim with
  | nil => cases is
  | @same _ c m t small rest =>
    unfold hypervisorTail at is
    split at is
    · rename_i same
      obtain ⟨rfl, -⟩ := List.cons.inj same
      rfl
    · rename_i d text same
      obtain ⟨rfl, rfl⟩ := List.cons.inj same
      simp only [Bool.and_eq_true, bne_iff_ne, ne_eq, List.contains_eq_mem, decide_eq_true_eq] at is
      cases rest with
      | @same _ _ _ t _ rest =>
        simpa [hypervisorTail, is.1] using (rest.mem_iff colon).mp is.2
      | @other _ e _ t wide rest =>
        simpa [hypervisorTail, wide_ne colon wide] using (rest.mem_iff colon).mp is.2
    · cases is
  | other => simp [hypervisorTail, show replacement ≠ ':' by decide, show replacement ≠ ' ' by decide] at is

theorem printk (sim : Sim false m t) (is : kernelPrintk m = true) : kernelPrintk t = true := by
  unfold kernelPrintk at is
  split at is
  · rename_i text
    dsimp only at is
    split at is
    · rename_i fraction found
      simp only [Bool.and_eq_true, Bool.not_eq_true', List.isEmpty_eq_false_iff, beq_iff_eq] at is
      obtain ⟨⟨whole, part⟩, closed⟩ := is
      cases sim with
      | @same _ _ _ t _ rest =>
        cases front : text.dropWhile isSpace with
        | nil => simp [front] at whole
        | cons d digits =>
          have digit : isDigit d = true := by
            by_contra other
            simp [front, other] at whole
          obtain ⟨digits', front', later⟩ := rest.trimmed (narrow_digit d digit) front
          have spaced : Sim false (d :: digits) (d :: digits') := .same (narrow_digit d digit) later
          rw [← front, ← front'] at spaced
          obtain ⟨wholes, after⟩ := spaced.span narrow_digit
          rw [found] at after
          generalize point : (t.dropWhile isSpace).dropWhile isDigit = behind at after
          cases after with
          | same _ fractions =>
            obtain ⟨parts, rest⟩ := fractions.span narrow_digit
            have close := (rest.head_iff (by decide)).mp closed
            simp only [kernelPrintk, point, ← wholes, ← parts, close]
            simp [whole, part]
    · cases is
  · cases is

theorem noise_prefix (sim : Sim false m t) (is : noisePrefix m = true) : noisePrefix t = true := by
  have literal : ∀ own ∈ literalPrefixes, ∀ c ∈ own, c.toNat < 0x80 := by
    simp [literalPrefixes]
  have named : ∀ own ∈ ["hvf".toList, "kvm".toList], own.length = 3 ∧ ∀ c ∈ own, c.toNat < 0x80 := by
    simp
  unfold noisePrefix at is ⊢
  simp only [Bool.or_eq_true, List.any_eq_true, Bool.and_eq_true, List.isPrefixOf_iff_prefix] at is ⊢
  rcases is with (is | ⟨own, listed, front⟩) | ⟨own, listed, front, tail⟩
  · exact .inl (.inl (sim.printk is))
  · exact .inl (.inr ⟨own, listed, (sim.prefix_iff (literal own listed)).mp front⟩)
  · obtain ⟨three, ascii⟩ := named own listed
    obtain ⟨rest, rfl⟩ := front
    obtain ⟨t', rfl, sim'⟩ := sim.drop_ascii ascii
    rw [← three, List.drop_left] at tail ⊢
    exact .inr ⟨own, listed, ⟨t', rfl⟩, sim'.hypervisor tail⟩

/-- Noise begins with a character of one byte. -/
theorem noise_front (is : noisePrefix m = true) : ∃ c m', m = c :: m' ∧ c.toNat < 0x80 := by
  have heads : ∀ own ∈ literalPrefixes ++ ["hvf".toList, "kvm".toList],
      (own.head?.any fun c => decide (c.toNat < 0x80)) = true := by
    decide +kernel
  have literal : ∀ own ∈ literalPrefixes ++ ["hvf".toList, "kvm".toList],
      ∃ c rest, own = c :: rest ∧ c.toNat < 0x80 := by
    intro own listed
    have head := heads own listed
    cases own with
    | nil => cases head
    | cons c rest => exact ⟨c, rest, rfl, by simpa using head⟩
  unfold noisePrefix at is
  simp only [Bool.or_eq_true, List.any_eq_true, Bool.and_eq_true, List.isPrefixOf_iff_prefix] at is
  rcases is with (is | ⟨own, listed, front⟩) | ⟨own, listed, front, -⟩
  · unfold kernelPrintk at is
    split at is
    · exact ⟨_, _, rfl, by decide⟩
    · cases is
  · obtain ⟨c, rest, rfl, small⟩ := literal own (List.mem_append_left _ listed)
    obtain ⟨later, rfl⟩ := front
    exact ⟨c, rest ++ later, rfl, small⟩
  · obtain ⟨c, rest, rfl, small⟩ := literal own (List.mem_append_right _ listed)
    obtain ⟨later, rfl⟩ := front
    exact ⟨c, rest ++ later, rfl, small⟩

theorem noise (sim : Sim false m t) (is : isBootNoiseLine m = true) : isBootNoiseLine t = true := by
  unfold isBootNoiseLine at is ⊢
  dsimp only at is ⊢
  split at is
  · cases is
  · rename_i shown
    obtain ⟨c, rest, front, small⟩ := noise_front is
    obtain ⟨t', front', sim'⟩ := sim.strip.trimmed small front
    have seen : Sim false (trimStart (stripAnsiControl m)) (trimStart (stripAnsiControl t)) := by
      unfold trimStart at front ⊢
      rw [front, front']
      exact .same small sim'
    rw [if_neg]
    · exact seen.noise_prefix is
    · simp only [decide_eq_true_eq] at shown ⊢
      have ascii : ∀ c ∈ "reboot: Power down".toList, c.toNat < 0x80 := by
        simp
      exact fun inside => shown ((seen.infix_iff ascii).mpr inside)

theorem ascii_or (sim : Sim run m t) : ∀ c ∈ m, c.toNat < 0x80 ∨ c = replacement := by
  induction sim with
  | nil => simp
  | same small _ ih => exact List.forall_mem_cons.mpr ⟨.inl small, ih⟩
  | other _ _ ih => exact List.forall_mem_cons.mpr ⟨.inr rfl, ih⟩
  | more _ ih => exact List.forall_mem_cons.mpr ⟨.inr rfl, ih⟩
  | less _ _ ih => exact ih

theorem isBlank_iff (text : Text) : isBlank text = true ↔ ∀ c ∈ stripAnsiControl text, isSpace c = true := by
  unfold isBlank trim trimEnd trimStart
  generalize stripAnsiControl text = seen
  simp only [List.isEmpty_iff, List.reverse_eq_nil_iff, List.dropWhile_eq_nil_iff, List.mem_reverse]
  constructor
  · intro spaces c mem
    by_contra other
    rw [← List.takeWhile_append_dropWhile (p := isSpace) (l := seen)] at mem
    rcases List.mem_append.mp mem with front | kept
    · exact other (List.mem_takeWhile_imp front)
    · exact other (spaces c kept)
  · exact fun spaces c mem => spaces c (List.dropWhile_subset _ mem)

theorem blank (sim : Sim false m t) (is : isBlank m = true) : isBlank t = true := by
  rw [isBlank_iff] at is ⊢
  have narrow : ∀ c ∈ stripAnsiControl m, c.toNat < 0x80 := by
    intro c mem
    refine (sim.strip.ascii_or c mem).resolve_right ?_
    rintro rfl
    exact Bool.false_ne_true (is replacement mem)
  rw [sim.strip.eq_of_ascii narrow]
  exact is

theorem left_nil (sim : Sim false m []) : m = [] := by
  cases sim
  rfl

theorem right_nil (sim : Sim false [] t) : t = [] := by
  cases sim
  rfl

/-- What holds of the characters of one byte in a reading, and of the replacement, holds of the masked text. -/
theorem forall_of {P : Char → Prop} (sim : Sim run m t) (replaced : P replacement) (all : ∀ c ∈ t, P c) :
    ∀ c ∈ m, P c := by
  intro c mem
  rcases sim.ascii_or c mem with small | rfl
  · exact all c ((sim.mem_iff small).mp mem)
  · exact replaced

end Sim

theorem promptTail_iff (text : Text) : promptTail text = true ↔ ∃ body sign rest,
    text = body ++ sign :: rest ∧ (rest = [] ∨ rest = [' ']) ∧ (sign = '#' ∨ sign = '$') ∧
      ∀ c ∈ body, c ≠ '\n' ∧ c ≠ '\r' := by
  unfold promptTail
  constructor
  · intro is
    have parts : ∃ seen rest, text = seen ++ rest ∧ (rest = [] ∨ rest = [' ']) ∧
        (seen.getLast?.any fun c => c == '#' || c == '$') = true ∧
        (seen.dropLast.all fun c => c != '\n' && c != '\r') = true := by
      simp only [Bool.and_eq_true] at is
      split at is
      · rename_i space
        exact ⟨text.dropLast, [' '], (List.dropLast_append_getLast? _ space).symm, .inr rfl, is⟩
      · exact ⟨text, [], by simp, .inl rfl, is⟩
    obtain ⟨seen, rest, rfl, ends, last, body⟩ := parts
    obtain ⟨sign, found, known⟩ := Option.any_eq_true _ _ |>.mp last
    refine ⟨seen.dropLast, sign, rest, ?_, ends, by simpa using known, by simpa using body⟩
    rw [← List.singleton_append, ← List.append_assoc, List.dropLast_append_getLast? _ found]
  · rintro ⟨body, sign, rest, rfl, rfl | rfl, known, fine⟩
    · have apart : sign ≠ ' ' := by rcases known with rfl | rfl <;> decide
      simpa [apart] using ⟨known, fine⟩
    · have last : (body ++ [sign, ' ']).getLast? = some ' ' := by simp
      have front : (body ++ [sign, ' ']).dropLast = body ++ [sign] := by simp
      simpa [last, front] using ⟨known, fine⟩

/-- A prompt's parts: who, where, and the rest up to the sign. -/
theorem prompt_iff (text : Text) : isLikelyInteractivePrompt text = true ↔ ∃ user host tail,
    stripAnsiControl text = user ++ '@' :: (host ++ ':' :: tail) ∧ user ≠ [] ∧ host ≠ [] ∧
      (∀ c ∈ user, isSpace c = false ∧ c ≠ '@') ∧ (∀ c ∈ host, isSpace c = false ∧ c ≠ ':') ∧
      promptTail tail = true := by
  unfold isLikelyInteractivePrompt
  generalize stripAnsiControl text = seen
  dsimp only
  constructor
  · intro is
    split at is
    · rename_i rest at_
      split at is
      · rename_i tail colon
        simp only [Bool.and_eq_true, Bool.not_eq_true', List.isEmpty_eq_false_iff] at is
        refine ⟨_, _, tail, ?_, is.1.1, is.1.2, fun c mem => ?_, fun c mem => ?_, is.2⟩
        · rw [← colon, List.takeWhile_append_dropWhile, ← at_, List.takeWhile_append_dropWhile]
        · simpa using List.mem_takeWhile_imp mem
        · simpa using List.mem_takeWhile_imp mem
      · cases is
    · cases is
  · rintro ⟨user, host, tail, rfl, named, placed, userOk, hostOk, is⟩
    have users : ∀ c ∈ user, (!isSpace c && c != '@') = true := fun c mem => by simpa using userOk c mem
    have hosts : ∀ c ∈ host, (!isSpace c && c != ':') = true := fun c mem => by simpa using hostOk c mem
    simp [List.takeWhile_append_of_pos users, List.dropWhile_append_of_pos users,
      List.takeWhile_append_of_pos hosts, List.dropWhile_append_of_pos hosts, named, placed, is]

/-- A reading that looks like a prompt is masked as one. -/
theorem Sim.prompt {m t : Text} (sim : Sim false m t) (is : isLikelyInteractivePrompt t = true) :
    isLikelyInteractivePrompt m = true := by
  obtain ⟨user, host, tail, whole, named, placed, userOk, hostOk, tailOk⟩ := (prompt_iff t).mp is
  obtain ⟨body, sign, rest, rfl, ends, known, fine⟩ := (promptTail_iff tail).mp tailOk
  have seen := sim.strip
  rw [whole] at seen
  obtain ⟨user', later, front, users, seen⟩ := seen.cut_right (by decide)
  obtain ⟨host', tail', rfl, hosts, seen⟩ := seen.cut_right (by decide)
  have small : sign.toNat < 0x80 := by rcases known with rfl | rfl <;> decide
  obtain ⟨body', rest', rfl, bodies, last⟩ := seen.cut_right small
  refine (prompt_iff m).mpr ⟨user', host', _, front, ?_, ?_, users.forall_of (by decide) userOk,
    hosts.forall_of (by decide) hostOk, (promptTail_iff _).mpr ⟨body', sign, rest', rfl, ?_, known,
    bodies.forall_of (by decide) fine⟩⟩
  · rintro rfl
    exact named users.right_nil
  · rintro rfl
    exact placed hosts.right_nil
  · rcases ends with rfl | rfl
    · exact .inl last.left_nil
    · cases last with
      | same _ last => exact .inr (by rw [last.left_nil])
      | other wide => exact absurd wide (by decide)

end Machinen.Console
