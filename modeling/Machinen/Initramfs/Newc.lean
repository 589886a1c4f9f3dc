import Machinen.Lib.Radix

/-! The archive format of the initramfs: how the packer writes an entry, and how its grammar reads one at
a place of an archive. -/
namespace Machinen.Initramfs

open Radix

structure NewcOptions where
  uid : Nat := 0
  gid : Nat := 0
  nlink : Nat := 1
  mtime : Nat := 0
  rmajor : Nat := 0
  rminor : Nat := 0
  data : Bytes := []
  deriving DecidableEq

structure Entry where
  name : Bytes
  mode : Nat
  opts : NewcOptions := {}
  deriving DecidableEq

def magic : Bytes := [0x30, 0x37, 0x30, 0x37, 0x30, 0x31]

def headerFields (e : Entry) : List Nat :=
  [0, e.mode, e.opts.uid, e.opts.gid, e.opts.nlink, e.opts.mtime, e.opts.data.length, 0, 0, e.opts.rmajor,
    e.opts.rminor, e.name.length + 1, 0]

def headerText (e : Entry) : Bytes := magic ++ (headerFields e).flatMap (padded 16 8)

def appendPadding (len : Nat) : Bytes := List.replicate ((4 - len % 4) % 4) 0

/-- What an entry adds to an archive: nothing where its header does not fit the buffer, or its name is empty. -/
def appendNewc (e : Entry) : Option Bytes :=
  let header := headerText e
  if e.name = [] ∨ 110 < header.length then none
  else some (header ++ e.name ++ [0] ++ appendPadding (header.length + (e.name.length + 1)) ++ e.opts.data ++
    appendPadding e.opts.data.length)

def appendAll : List Entry → Option Bytes
  | [] => some []
  | e :: es => do
    let first ← appendNewc e
    let rest ← appendAll es
    some (first ++ rest)

def aligned (n : Nat) : Nat := n + (4 - n % 4) % 4

/-- So many bytes from a place on, if there are as many. -/
def taken (archive : Bytes) (pos len : Nat) : Option Bytes :=
  if pos + len ≤ archive.length then some ((archive.drop pos).take len) else none

/-- The fields of a header, eight digits each. -/
def readFields : Nat → Bytes → Option (List Nat)
  | 0, _ => some []
  | count + 1, text => do
    let n ← value 16 (text.take 8)
    let ns ← readFields count (text.drop 8)
    some (n :: ns)

def readEntry (archive : Bytes) (pos : Nat) : Option (Entry × Nat) := do
  let header ← taken archive pos 110
  if header.take 6 ≠ magic then none
  match ← readFields 13 (header.drop 6) with
  | [_, mode, uid, gid, nlink, mtime, size, _, _, rmajor, rminor, nameSize, _] =>
    if nameSize = 0 then none
    let name ← taken archive (pos + 110) (nameSize - 1)
    let nul ← taken archive (pos + 110 + (nameSize - 1)) 1
    if nul ≠ [0] then none
    let start := aligned (pos + 110 + nameSize)
    let data ← taken archive start size
    some ({ name, mode, opts := { uid, gid, nlink, mtime, rmajor, rminor, data } }, aligned (start + size))
  | _ => none

def trailerName : Bytes := [0x54, 0x52, 0x41, 0x49, 0x4c, 0x45, 0x52, 0x21, 0x21, 0x21]

/-- The entries from a place on, up to the one that ends the archive. -/
def readFrom : Nat → Bytes → Nat → Option (List Entry)
  | 0, _, _ => none
  | turns + 1, archive, pos => do
    let (e, next) ← readEntry archive pos
    if e.name = trailerName then some [] else (readFrom turns archive next).map (e :: ·)

def readArchive (archive : Bytes) : Option (List Entry) := readFrom archive.length archive 0

def trailer : Entry := { name := trailerName, mode := 0 }

/-- Every field has room for its digits. -/
def Entry.Fits (e : Entry) : Prop := e.name ≠ [] ∧ ∀ n ∈ headerFields e, n < 16 ^ 8

instance (e : Entry) : Decidable e.Fits := inferInstanceAs (Decidable (_ ∧ _))

def entryBytes (e : Entry) : Bytes :=
  headerText e ++ e.name ++ [0] ++ appendPadding ((headerText e).length + (e.name.length + 1)) ++ e.opts.data ++
    appendPadding e.opts.data.length

theorem fields_length_ge (ns : List Nat) : 8 * ns.length ≤ (ns.flatMap (padded 16 8)).length := by
  induction ns with
  | nil => exact Nat.le_refl _
  | cons n ns ih =>
    have wide := padded_length 16 8 n
    rw [List.flatMap_cons, List.length_append, List.length_cons]
    omega

theorem fields_length_le_iff (ns : List Nat) :
    (ns.flatMap (padded 16 8)).length ≤ 8 * ns.length ↔ ∀ n ∈ ns, n < 16 ^ 8 := by
  induction ns with
  | nil => simp
  | cons n ns ih =>
    have least := fields_length_ge ns
    have wide := padded_length 16 8 n
    have digits : (encode 16 n).length ≤ 8 ↔ n < 16 ^ 8 := encode_length_le_iff (by decide) (by decide) n
    rw [List.forall_mem_cons, ← ih, ← digits, List.flatMap_cons, List.length_append, List.length_cons]
    omega

theorem header_length_ge (e : Entry) : 110 ≤ (headerText e).length := by
  have least := fields_length_ge (headerFields e)
  rw [headerText, List.length_append]
  exact Nat.add_le_add_left least 6

theorem header_fits_iff (e : Entry) : (headerText e).length ≤ 110 ↔ ∀ n ∈ headerFields e, n < 16 ^ 8 := by
  have parts : (headerText e).length = 6 + ((headerFields e).flatMap (padded 16 8)).length := List.length_append
  have count : (headerFields e).length = 13 := rfl
  rw [← fields_length_le_iff, parts, count]
  omega

variable {e : Entry} {front : Bytes} {es : List Entry}

theorem Entry.Fits.header (fits : e.Fits) : (headerText e).length = 110 :=
  Nat.le_antisymm ((header_fits_iff e).mpr fits.2) (header_length_ge e)

theorem appendNewc_eq (e : Entry) : appendNewc e = if e.Fits then some (entryBytes e) else none := by
  have refused : (e.name = [] ∨ 110 < (headerText e).length) ↔ ¬ e.Fits := by
    rw [Entry.Fits, ← header_fits_iff]
    by_cases empty : e.name = [] <;> simp [empty]
  by_cases fits : e.Fits
  · rw [appendNewc, if_pos fits, if_neg (fun either => refused.mp either fits)]
    rfl
  · rw [appendNewc, if_neg fits, if_pos (refused.mpr fits)]

theorem taken_append (front ys rest : Bytes) : taken (front ++ (ys ++ rest)) front.length ys.length = some ys := by
  rw [taken, if_pos (by simp), List.drop_left, List.take_left]

theorem taken_at {ys rest : Bytes} {pos len : Nat} (place : pos = front.length) (size : len = ys.length) :
    taken (front ++ (ys ++ rest)) pos len = some ys := by
  rw [place, size, taken_append]

theorem readFields_fields {ns : List Nat} (small : ∀ n ∈ ns, n < 16 ^ 8) (rest : Bytes) :
    readFields ns.length (ns.flatMap (padded 16 8) ++ rest) = some ns := by
  induction ns with
  | nil => rfl
  | cons n ns ih =>
    rw [List.forall_mem_cons] at small
    have digits : (encode 16 n).length ≤ 8 := (encode_length_le_iff (by decide) (by decide) n).mpr small.1
    have wide : (padded 16 8 n).length = 8 := by
      rw [padded_length]
      omega
    rw [List.length_cons, readFields, List.flatMap_cons, List.append_assoc, List.take_left' wide,
      List.drop_left' wide,
      value_padded (by decide) (by decide), ih small.2]
    rfl

theorem readFields_header (e : Entry) (fits : e.Fits) :
    readFields 13 ((headerText e).drop 6) = some (headerFields e) := by
  have fields := readFields_fields fits.2 []
  rw [List.append_nil] at fields
  exact fields

theorem aligned_padding (place : front.length % 4 = 0) (len : Nat) :
    aligned (front.length + len) = front.length + len + (appendPadding len).length := by
  rw [aligned, appendPadding, List.length_replicate]
  omega

theorem appendPadding_aligned (len : Nat) : (len + (appendPadding len).length) % 4 = 0 := by
  rw [appendPadding, List.length_replicate]
  omega

/-- At a place that is aligned the grammar reads the entry that was written, and ends where it ends. -/
theorem readEntry_entry (fits : e.Fits) (place : front.length % 4 = 0) (rest : Bytes) :
    readEntry (front ++ (entryBytes e ++ rest)) front.length = some (e, (front ++ entryBytes e).length) := by
  have whole : entryBytes e = headerText e ++ (e.name ++ ([0] ++ (appendPadding (110 + (e.name.length + 1)) ++
      (e.opts.data ++ appendPadding e.opts.data.length)))) := by
    rw [entryBytes, fits.header]
    simp only [List.append_assoc]
  generalize named : appendPadding (110 + (e.name.length + 1)) = gap at whole
  generalize ended : appendPadding e.opts.data.length = last at whole
  have header : taken (front ++ (entryBytes e ++ rest)) front.length 110 = some (headerText e) := by
    rw [whole, List.append_assoc]
    exact taken_at rfl fits.header.symm
  have start : (headerText e).take 6 = magic := List.take_left' rfl
  have name : taken (front ++ (entryBytes e ++ rest)) (front.length + 110) e.name.length = some e.name := by
    have place : front.length + 110 = (front ++ headerText e).length := by rw [List.length_append, fits.header]
    rw [place, whole]
    simpa only [List.append_assoc] using taken_append (front ++ headerText e) e.name
      ([0] ++ (gap ++ (e.opts.data ++ (last ++ rest))))
  have nul : taken (front ++ (entryBytes e ++ rest)) (front.length + 110 + e.name.length) 1 = some [0] := by
    have place : front.length + 110 + e.name.length = (front ++ headerText e ++ e.name).length := by
      rw [List.length_append, List.length_append, fits.header]
    rw [place, whole]
    simpa only [List.append_assoc, List.length_singleton] using
      taken_append (front ++ headerText e ++ e.name) [0] (gap ++ (e.opts.data ++ (last ++ rest)))
  have begins : aligned (front.length + 110 + (e.name.length + 1)) =
      (front ++ headerText e ++ e.name ++ ([0] : Bytes) ++ gap).length := by
    have padded := aligned_padding place (110 + (e.name.length + 1))
    rw [named] at padded
    rw [Nat.add_assoc, padded]
    simp only [List.length_append, fits.header, List.length_singleton]
    omega
  have data : taken (front ++ (entryBytes e ++ rest)) (aligned (front.length + 110 + (e.name.length + 1)))
      e.opts.data.length = some e.opts.data := by
    rw [begins, whole]
    simpa only [List.append_assoc] using
      taken_append (front ++ headerText e ++ e.name ++ ([0] : Bytes) ++ gap) e.opts.data (last ++ rest)
  have ends : aligned (aligned (front.length + 110 + (e.name.length + 1)) + e.opts.data.length) =
      (front ++ entryBytes e).length := by
    have square : (front ++ headerText e ++ e.name ++ ([0] : Bytes) ++ gap).length % 4 = 0 := by
      have gaps := appendPadding_aligned (110 + (e.name.length + 1))
      rw [named] at gaps
      simp only [List.length_append, fits.header, List.length_singleton]
      omega
    rw [begins, aligned_padding square, ended, whole]
    simp only [List.length_append]
    omega
  rw [readEntry]
  simp [header, start, readFields_header e fits, headerFields, name, nul, data, ends]

theorem entryBytes_aligned (fits : e.Fits) : (entryBytes e).length % 4 = 0 := by
  have name := appendPadding_aligned (110 + (e.name.length + 1))
  have data := appendPadding_aligned e.opts.data.length
  rw [entryBytes, fits.header]
  simp only [List.length_append, fits.header, List.length_singleton]
  omega

/-- From an aligned place on, entries that were written one after another are read up to the first that has
the name of the trailer. -/
theorem readFrom_entries (fits : ∀ e ∈ es, e.Fits) (ended : ∃ e ∈ es, e.name = trailerName)
    (place : front.length % 4 = 0) (rest : Bytes) {turns : Nat} (enough : es.length ≤ turns) :
    readFrom turns (front ++ (es.flatMap entryBytes ++ rest)) front.length =
      some (es.takeWhile fun e => decide (e.name ≠ trailerName)) := by
  induction es generalizing front turns with
  | nil => exact absurd ended (by simp)
  | cons e es ih =>
    obtain ⟨turns, rfl⟩ : ∃ t, turns = t + 1 := ⟨turns - 1, by rw [List.length_cons] at enough; omega⟩
    rw [List.forall_mem_cons] at fits
    rw [List.flatMap_cons, List.append_assoc, readFrom, readEntry_entry fits.1 place]
    simp only [Option.bind_eq_bind, Option.bind_some]
    by_cases last : e.name = trailerName
    · simp [last]
    · have later : ∃ e ∈ es, e.name = trailerName := by
        obtain ⟨f, listed, named⟩ := ended
        rcases List.mem_cons.mp listed with rfl | listed
        · exact absurd named last
        · exact ⟨f, listed, named⟩
      have square : (front ++ entryBytes e).length % 4 = 0 := by
        rw [List.length_append, Nat.add_mod, place, entryBytes_aligned fits.1]
      have fewer : es.length ≤ turns := Nat.le_of_succ_le_succ enough
      have more := ih fits.2 later square fewer
      rw [List.append_assoc] at more
      rw [if_neg last, more]
      simp [last]

theorem appendAll_eq (es : List Entry) :
    appendAll es = if ∀ e ∈ es, e.Fits then some (es.flatMap entryBytes) else none := by
  induction es with
  | nil => rfl
  | cons e es ih =>
    rw [appendAll, appendNewc_eq, ih]
    by_cases first : e.Fits
    · by_cases rest : ∀ e ∈ es, e.Fits
      · rw [if_pos first, if_pos rest, if_pos (List.forall_mem_cons.mpr ⟨first, rest⟩)]
        rfl
      · rw [if_pos first, if_neg rest, if_neg (fun all => rest (List.forall_mem_cons.mp all).2)]
        rfl
    · rw [if_neg first, if_neg (fun all => first (List.forall_mem_cons.mp all).1)]
      rfl

theorem appendAll_fits {archive : Bytes} (written : appendAll es = some archive) :
    ∀ e ∈ es, e.Fits := by
  rw [appendAll_eq] at written
  split at written
  · assumption
  · cases written

theorem appendAll_concat {out last : Bytes} (front : appendAll es = some out)
    (ended : appendNewc e = some last) : appendAll (es ++ [e]) = some (out ++ last) := by
  induction es generalizing out with
  | nil =>
    obtain rfl := Option.some.inj front
    simp [appendAll, ended]
  | cons first es ih =>
    simp only [appendAll, Option.bind_eq_bind, Option.bind_eq_some_iff] at front
    obtain ⟨own, done, rest, more, same⟩ := front
    obtain rfl := Option.some.inj same
    simp [appendAll, done, ih more]

theorem trailer_length {last : Bytes} (ended : appendNewc trailer = some last) : last.length = 124 := by
  have fits : trailer.Fits := by decide
  rw [appendNewc_eq, if_pos fits] at ended
  obtain rfl := Option.some.inj ended
  rw [entryBytes, fits.header]
  simp only [List.length_append, fits.header]
  rfl

theorem entries_length (fits : ∀ e ∈ es, e.Fits) : es.length ≤ (es.flatMap entryBytes).length := by
  induction es with
  | nil => exact Nat.le_refl _
  | cons e es ih =>
    rw [List.forall_mem_cons] at fits
    have more := ih fits.2
    have some_ : 0 < (entryBytes e).length := by
      rw [entryBytes, fits.1.header]
      simp only [List.length_append, fits.1.header]
      omega
    rw [List.flatMap_cons, List.length_append, List.length_cons]
    omega

/-- An archive that could be written is read up to its first entry of the trailer's name. -/
theorem readArchive_appendAll {archive : Bytes} (written : appendAll es = some archive)
    (ended : ∃ e ∈ es, e.name = trailerName) :
    readArchive archive = some (es.takeWhile fun e => decide (e.name ≠ trailerName)) := by
  have fits := appendAll_fits written
  rw [appendAll_eq, if_pos fits] at written
  obtain rfl := Option.some.inj written
  have start : ([] : Bytes).length % 4 = 0 := rfl
  have whole := readFrom_entries fits ended start [] (entries_length fits)
  rw [List.append_nil, List.nil_append] at whole
  exact whole

end Machinen.Initramfs
