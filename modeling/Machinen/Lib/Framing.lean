import Machinen.Lib.Bytes

/-! Readers that go over a buffer by offsets, and the frames they take. A frame is a value together
with what its bytes hold besides; a reader is exact if it never leaves the buffer and accepts the frames
and nothing else. -/
namespace Machinen.Framing

open Bytes

variable {ε α β φ ψ : Type}

/-- Reads a value from an offset on and tells where it ends; `none` where it leaves the buffer or fails
an assertion. -/
abbrev Reader (ε α : Type) := Bytes → Nat → Option (Except ε (α × Nat))

def andThen : Option (Except ε α) → (α → Option (Except ε β)) → Option (Except ε β)
  | none, _ => none
  | some (.error e), _ => some (.error e)
  | some (.ok a), next => next a

theorem andThen_ok (a : α) (next : α → Option (Except ε β)) : andThen (some (.ok a)) next = next a := rfl

theorem of_andThen {first : Option (Except ε α)} {next : α → Option (Except ε β)} {b : β}
    (read : andThen first next = some (.ok b)) : ∃ a, first = some (.ok a) ∧ next a = some (.ok b) := by
  match first, read with
  | some (.ok a), read => exact ⟨a, rfl, read⟩

theorem andThen_total {first : Option (Except ε α)} {next : α → Option (Except ε β)}
    (total : ∃ result, first = some result)
    (goesOn : ∀ a, first = some (.ok a) → ∃ result, next a = some result) :
    ∃ result, andThen first next = some result := by
  obtain ⟨result, rfl⟩ := total
  cases result with
  | error e => exact ⟨_, rfl⟩
  | ok a => exact goesOn a rfl

structure Exact (read : Reader ε α) (Frame : φ → Prop) (value : φ → α) (bytes : φ → Bytes) : Prop where
  total : ∀ front rest, ∃ result, read (front ++ rest) front.length = some result
  sound : ∀ front rest a stop, read (front ++ rest) front.length = some (.ok (a, stop)) →
    ∃ f more, Frame f ∧ value f = a ∧ rest = bytes f ++ more ∧ stop = (front ++ bytes f).length
  complete : ∀ f front more, Frame f →
    read (front ++ (bytes f ++ more)) front.length = some (.ok (value f, (front ++ bytes f).length))

/-- The loop that reads `count` values. -/
def many (read : Reader ε α) : Nat → Reader ε (List α)
  | 0, _, off => some (.ok ([], off))
  | count + 1, xs, off =>
    andThen (read xs off) fun (a, next) =>
      andThen (many read count xs next) fun (as, stop) => some (.ok (a :: as, stop))

section

variable {read : Reader ε α} {Frame : φ → Prop} {value : φ → α} {bytes : φ → Bytes}

theorem Exact.many (exact : Exact read Frame value bytes) (count : Nat) :
    Exact (many read count) (fun fs => fs.length = count ∧ ∀ f ∈ fs, Frame f) (List.map value)
      (List.flatMap bytes) := by
  induction count with
  | zero =>
    refine ⟨fun front rest => ⟨_, rfl⟩, ?_, ?_⟩
    · intro front rest as stop done
      cases done
      exact ⟨[], rest, ⟨rfl, nofun⟩, rfl, rfl, congrArg List.length (List.append_nil front).symm⟩
    · intro fs front more framed
      obtain rfl := List.eq_nil_of_length_eq_zero framed.1
      rw [List.flatMap_nil, List.append_nil]
      rfl
  | succ count ih =>
    refine ⟨?_, ?_, ?_⟩
    · intro front rest
      refine andThen_total (exact.total front rest) ?_
      rintro ⟨a, next⟩ done
      obtain ⟨f, more, -, -, rfl, rfl⟩ := exact.sound front rest a next done
      rw [← List.append_assoc]
      exact andThen_total (ih.total _ more) fun _ _ => ⟨_, rfl⟩
    · intro front rest as stop done
      obtain ⟨⟨a, next⟩, first, done⟩ := of_andThen done
      obtain ⟨f, more, framed, rfl, rfl, rfl⟩ := exact.sound front rest a next first
      obtain ⟨⟨others, stop'⟩, second, last⟩ := of_andThen done
      rw [← List.append_assoc] at second
      obtain ⟨fs, more', ⟨counted, all⟩, rfl, rfl, rfl⟩ := ih.sound _ more others stop' second
      cases last
      refine ⟨f :: fs, more', ⟨congrArg (· + 1) counted, List.forall_mem_cons.mpr ⟨framed, all⟩⟩, rfl,
        ?_, ?_⟩
      · rw [List.flatMap_cons, List.append_assoc]
      · rw [List.flatMap_cons, List.append_assoc]
    · intro fs front more framed
      obtain ⟨f, fs, rfl⟩ := List.exists_cons_of_length_eq_add_one framed.1
      obtain ⟨mine, others⟩ := List.forall_mem_cons.mp framed.2
      unfold Framing.many
      rw [List.flatMap_cons, List.append_assoc, exact.complete f front _ mine, andThen_ok]
      dsimp only
      rw [← List.append_assoc, ih.complete fs _ more ⟨Nat.succ.inj framed.1, others⟩, andThen_ok]
      rw [List.map_cons, List.append_assoc]

theorem Exact.stops (exact : Exact read Frame value bytes) {xs : Bytes} {off : Nat} {a : α} {stop : Nat}
    (within : off ≤ xs.length) (done : read xs off = some (.ok (a, stop))) :
    off ≤ stop ∧ stop ≤ xs.length := by
  obtain ⟨front, rest, rfl, rfl⟩ : ∃ front rest, xs = front ++ rest ∧ off = front.length :=
    ⟨xs.take off, xs.drop off, (List.take_append_drop ..).symm, (List.length_take_of_le within).symm⟩
  obtain ⟨f, more, -, -, rfl, rfl⟩ := exact.sound front rest a stop done
  simp only [List.length_append]
  omega

def both (first : Reader ε α) (second : Reader ε β) : Reader ε (α × β) := fun xs off =>
  andThen (first xs off) fun (a, off) =>
    andThen (second xs off) fun (b, off) => some (.ok ((a, b), off))

theorem Exact.both {second : Reader ε β} {Frame' : ψ → Prop} {value' : ψ → β} {bytes' : ψ → Bytes}
    (exact : Exact read Frame value bytes) (exact' : Exact second Frame' value' bytes') :
    Exact (both read second) (fun f => Frame f.1 ∧ Frame' f.2) (Prod.map value value')
      (fun f => bytes f.1 ++ bytes' f.2) where
  total front rest := by
    refine andThen_total (exact.total front rest) ?_
    rintro ⟨a, next⟩ done
    obtain ⟨f, more, -, -, rfl, rfl⟩ := exact.sound front rest a next done
    rw [← List.append_assoc]
    exact andThen_total (exact'.total _ more) fun _ _ => ⟨_, rfl⟩
  sound front rest pair stop done := by
    obtain ⟨⟨a, next⟩, first, done⟩ := of_andThen done
    obtain ⟨f, more, framed, rfl, rfl, rfl⟩ := exact.sound front rest a next first
    obtain ⟨⟨b, stop'⟩, last, done⟩ := of_andThen done
    rw [← List.append_assoc] at last
    obtain ⟨g, more', framed', rfl, rfl, rfl⟩ := exact'.sound _ more b stop' last
    cases done
    refine ⟨(f, g), more', ⟨framed, framed'⟩, rfl, ?_, ?_⟩
    · rw [List.append_assoc]
    · rw [List.append_assoc]
  complete f front more framed := by
    unfold Framing.both
    rw [List.append_assoc, exact.complete f.1 front _ framed.1, andThen_ok]
    dsimp only
    rw [← List.append_assoc, exact'.complete f.2 _ more framed.2, andThen_ok, List.append_assoc]
    rfl

theorem Exact.prefix_free (exact : Exact read Frame value bytes) {f g : φ} (framed : Frame f)
    (framed' : Frame g) {more more' : Bytes} (same : bytes f ++ more = bytes g ++ more') :
    bytes f = bytes g ∧ value f = value g := by
  have first := exact.complete f [] more framed
  have second := exact.complete g [] more' framed'
  rw [same, second] at first
  simp only [Option.some.injEq, Except.ok.injEq, Prod.mk.injEq, List.nil_append] at first
  exact ⟨(List.append_inj same first.2.symm).1, first.1.symm⟩

end

theorem run_room {bytes : φ → Bytes} {least : Nat} {fs : List φ}
    (room : ∀ f ∈ fs, least ≤ (bytes f).length) : fs.length * least ≤ (fs.flatMap bytes).length := by
  induction fs with
  | nil => exact Nat.le_of_eq (Nat.zero_mul least)
  | cons f fs ih =>
    obtain ⟨mine, others⟩ := List.forall_mem_cons.mp room
    rw [List.length_cons, Nat.succ_mul, List.flatMap_cons, List.length_append, Nat.add_comm]
    exact Nat.add_le_add mine (ih others)

end Machinen.Framing
