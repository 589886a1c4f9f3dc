import Machinen.Lib.Bytes

/-! A stream of sections: a tag, an identifier, the length of a payload and the payload, one after
another. Readers differ in how they test that a payload is inside the bytes they have; each of
them that tests exactly this reads the sections that the bytes begin with. -/
namespace Machinen.SectionStream

open Bytes

universe u

structure Section where
  tag : UInt32
  id : UInt32
  payload : Bytes
deriving DecidableEq, Repr

def SECTION_HEADER_SIZE : Nat := 16

def Section.bytes (s : Section) : Bytes :=
  le 4 s.tag.toNat ++ (le 4 s.id.toNat ++ (le 8 s.payload.length ++ s.payload))

def encodeSections (sections : List Section) : Bytes := sections.flatMap Section.bytes

/-- The length of a payload is a 64-bit word. -/
def Sized (sections : List Section) : Prop := ∀ s ∈ sections, s.payload.length < 2 ^ 64

/-- `check off len size` is the complaint about a payload of `len` bytes at `off`. -/
structure Reader (ε : Type u) where
  truncated : ε
  check : Nat → Nat → Nat → Option ε

def sectionAt (bytes : Bytes) (off len : Nat) : Section where
  tag := UInt32.ofNat (toNat (slice bytes off 4))
  id := UInt32.ofNat (toNat (slice bytes (off + 4) 4))
  payload := slice bytes (off + SECTION_HEADER_SIZE) len

/-- The loop over a number of sections from an offset on. -/
def readSections {ε : Type u} (reader : Reader ε) (bytes : Bytes) : Nat → Nat → Except ε (List Section)
  | 0, _ => .ok []
  | count + 1, off =>
    if bytes.length < off + SECTION_HEADER_SIZE then .error reader.truncated
    else
      let len := toNat (slice bytes (off + 8) 8)
      match reader.check (off + SECTION_HEADER_SIZE) len bytes.length with
      | some complaint => .error complaint
      | none => (readSections reader bytes count (off + SECTION_HEADER_SIZE + len)).map
          (sectionAt bytes off len :: ·)

/-- The bytes from an offset on begin with some sections. -/
def HoldsAt (bytes : Bytes) (off : Nat) (sections : List Section) : Prop :=
  Sized sections ∧ ∃ rest, bytes.drop off = encodeSections sections ++ rest

def Reader.Exact {ε : Type u} (reader : Reader ε) (size : Nat) : Prop :=
  ∀ off len, off ≤ size → len < 2 ^ 64 → (reader.check off len size = none ↔ off + len ≤ size)

theorem Section.bytes_length (s : Section) : s.bytes.length = SECTION_HEADER_SIZE + s.payload.length := by
  simp only [Section.bytes, List.length_append, le_length, SECTION_HEADER_SIZE]
  omega

theorem encodeSections_cons (s : Section) (sections : List Section) :
    encodeSections (s :: sections) = s.bytes ++ encodeSections sections := rfl

theorem drop_slice (xs : Bytes) (off len : Nat) :
    xs.drop off = slice xs off len ++ xs.drop (off + len) := by
  unfold slice
  rw [← List.drop_drop, List.take_append_drop]

theorem except_map_ok {ε : Type u} {α β : Type} {f : α → β} {e : Except ε α} {b : β}
    (mapped : e.map f = .ok b) : ∃ a, e = .ok a ∧ f a = b := by
  cases e with
  | error _ => cases mapped
  | ok a => exact ⟨a, rfl, Except.ok.inj mapped⟩

theorem slice_drop (xs : Bytes) (off i len : Nat) : slice (xs.drop off) i len = slice xs (off + i) len := by
  unfold slice
  rw [List.drop_drop]

variable {bytes : Bytes} {off : Nat}

theorem sectionAt_bytes {rest : Bytes} {s : Section} (sized : s.payload.length < 2 ^ 64)
    (held : bytes.drop off = s.bytes ++ rest) :
    toNat (slice bytes (off + 8) 8) = s.payload.length ∧ sectionAt bytes off s.payload.length = s := by
  have tag : slice bytes off 4 = le 4 s.tag.toNat := by
    rw [show off = off + 0 from rfl, ← slice_drop, held]
    rfl
  have id_ : slice bytes (off + 4) 4 = le 4 s.id.toNat := by
    rw [← slice_drop, held]
    rfl
  have length : slice bytes (off + 8) 8 = le 8 s.payload.length := by
    rw [← slice_drop, held]
    rfl
  have payload : slice bytes (off + SECTION_HEADER_SIZE) s.payload.length = s.payload := by
    rw [← slice_drop, held, show s.bytes ++ rest = _ from rfl]
    exact List.take_left
  refine ⟨?_, ?_⟩
  · rw [length, toNat_le 8 _ sized]
  · unfold sectionAt
    rw [tag, id_, payload, toNat_le 4 _ s.tag.toNat_lt, toNat_le 4 _ s.id.toNat_lt, UInt32.ofNat_toNat,
      UInt32.ofNat_toNat]

theorem le_slice {width : Nat} (inside : off + width ≤ bytes.length) (n : Nat)
    (read : toNat (slice bytes off width) = n) : le width n = slice bytes off width := by
  subst read
  have length := slice_length bytes off width inside
  calc le width (toNat (slice bytes off width))
      = le (slice bytes off width).length (toNat (slice bytes off width)) := by rw [length]
    _ = slice bytes off width := le_toNat _

theorem word_lt : toNat (slice bytes off 8) < 2 ^ 64 :=
  Nat.lt_of_lt_of_eq (slice_lt bytes off 8) (by decide)

theorem tag_lt : toNat (slice bytes off 4) < 2 ^ 32 :=
  Nat.lt_of_lt_of_eq (slice_lt bytes off 4) (by decide)

theorem sectionAt_held {len : Nat} (read : toNat (slice bytes (off + 8) 8) = len)
    (inside : off + SECTION_HEADER_SIZE + len ≤ bytes.length) :
    bytes.drop off = (sectionAt bytes off len).bytes ++ bytes.drop (off + SECTION_HEADER_SIZE + len) ∧
      (sectionAt bytes off len).payload.length = len := by
  unfold SECTION_HEADER_SIZE at inside ⊢
  have payload : (sectionAt bytes off len).payload.length = len := slice_length _ _ _ inside
  refine ⟨?_, payload⟩
  have tag : le 4 (toNat (slice bytes off 4)) = slice bytes off 4 := le_slice (by omega) _ rfl
  have id_ : le 4 (toNat (slice bytes (off + 4) 4)) = slice bytes (off + 4) 4 := le_slice (by omega) _ rfl
  have length : le 8 len = slice bytes (off + 8) 8 := le_slice (by omega) _ read
  unfold Section.bytes
  rw [payload, length]
  unfold sectionAt
  rw [UInt32.toNat_ofNat_of_lt' tag_lt, UInt32.toNat_ofNat_of_lt' tag_lt, tag, id_]
  calc bytes.drop off
      = slice bytes off 4 ++ bytes.drop (off + 4) := drop_slice ..
    _ = slice bytes off 4 ++ (slice bytes (off + 4) 4 ++ bytes.drop (off + 8)) := by
      rw [drop_slice bytes (off + 4) 4]
    _ = slice bytes off 4 ++ (slice bytes (off + 4) 4 ++
      (slice bytes (off + 8) 8 ++ bytes.drop (off + 16))) := by
      rw [drop_slice bytes (off + 8) 8]
    _ = _ := by
      rw [drop_slice bytes (off + 16) len]
      simp only [List.append_assoc, SECTION_HEADER_SIZE]

variable {ε : Type u} {reader : Reader ε}

theorem readSections_iff (exact_ : reader.Exact bytes.length) (count : Nat)
    (inside : off ≤ bytes.length) (sections : List Section) :
    readSections reader bytes count off = .ok sections ↔ sections.length = count ∧
      HoldsAt bytes off sections := by
  induction count generalizing off sections with
  | zero =>
    constructor
    · intro read
      cases read
      exact ⟨rfl, nofun, _, rfl⟩
    · rintro ⟨empty, -⟩
      rw [List.length_eq_zero_iff.mp empty]
      rfl
  | succ count ih =>
    unfold readSections
    constructor
    · intro read
      dsimp only at read
      split at read
      · cases read
      · rename_i header
        split at read
        · cases read
        · rename_i accepted
          obtain ⟨more, rest, rfl⟩ := except_map_ok read
          have fits := (exact_ _ _ (by omega) word_lt).mp accepted
          obtain ⟨length, sized, tail, held⟩ := (ih (by omega) more).mp rest
          obtain ⟨first, payload⟩ := sectionAt_held rfl fits
          refine ⟨by rw [List.length_cons, length], ?_, tail, ?_⟩
          · intro s listed
            rcases List.mem_cons.mp listed with rfl | later
            · rw [payload]
              exact word_lt
            · exact sized s later
          · rw [first, held, encodeSections_cons, List.append_assoc]
    · rintro ⟨length, sized, tail, held⟩
      cases sections with
      | nil => cases length
      | cons s sections =>
        rw [encodeSections_cons, List.append_assoc] at held
        obtain ⟨len, same⟩ := sectionAt_bytes (sized s List.mem_cons_self) held
        have room : off + (SECTION_HEADER_SIZE + s.payload.length) ≤ bytes.length := by
          have all := congrArg List.length held
          rw [List.length_drop, List.length_append, Section.bytes_length] at all
          unfold SECTION_HEADER_SIZE at all ⊢
          omega
        have accepted : reader.check (off + SECTION_HEADER_SIZE) s.payload.length bytes.length = none :=
          (exact_ _ _ (by omega) (sized s List.mem_cons_self)).mpr (by omega)
        have after : bytes.drop (off + SECTION_HEADER_SIZE + s.payload.length) =
          encodeSections sections ++ tail := by
          rw [Nat.add_assoc, ← Section.bytes_length, ← List.drop_drop, held, List.drop_left]
        have inside : off + SECTION_HEADER_SIZE + s.payload.length ≤ bytes.length := by omega
        have rest := (ih inside sections).mpr
          ⟨Nat.succ.inj length, fun t later => sized t (List.mem_cons_of_mem _ later), tail, after⟩
        dsimp only
        rw [if_neg (by omega), len, accepted]
        dsimp only
        rw [rest, same]
        rfl

theorem holdsAt_length {sections : List Section} (held : HoldsAt bytes off sections)
    (inside : off ≤ bytes.length) : off + (encodeSections sections).length ≤ bytes.length := by
  obtain ⟨-, rest, same⟩ := held
  have all := congrArg List.length same
  rw [List.length_drop, List.length_append] at all
  omega

theorem holdsAt_append {sections : List Section} (held : HoldsAt bytes off sections)
    (inside : off ≤ bytes.length) (more : Bytes) : HoldsAt (bytes ++ more) off sections := by
  obtain ⟨sized, rest, same⟩ := held
  refine ⟨sized, rest ++ more, ?_⟩
  rw [List.drop_append_of_le_length inside, same, List.append_assoc]

end Machinen.SectionStream
