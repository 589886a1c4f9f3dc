import Machinen.Lib.PrefixCode
import Machinen.Lib.Utf8Encode
import Machinen.Runtime.TreeManifest

/-! Which trees have the same manifest. -/
namespace Machinen.Runtime.TreeManifest

open DirTree

/-- No sequence runs on over the end of a text, some of whose bytes are passed over. -/
def completeFrom : Nat → Bytes → Bool
  | _, [] => true
  | skip + 1, _ :: rest => completeFrom skip rest
  | 0, first :: rest =>
    decide (sequenceLength first ≤ rest.length + 1) && completeFrom (sequenceLength first - 1) rest

def complete (bytes : Bytes) : Bool := completeFrom 0 bytes

theorem units_positive (first : UInt8) (rest : Bytes) : 0 < unitsFrom 0 (first :: rest) := by
  rw [unitsFrom]
  split
  · exact Nat.one_pos
  · split <;> omega

theorem units_end {skip : Nat} {a b : Bytes} (inside : skip ≤ a.length) (within : skip ≤ b.length)
    (whole : completeFrom skip a = true) (full : completeFrom skip b = true)
    (units : unitsFrom skip a = unitsFrom skip b) {x y : Bytes} (same : a ++ x = b ++ y) : a = b := by
  induction a generalizing skip b with
  | nil =>
    obtain rfl := Nat.le_zero.mp inside
    cases b with
    | nil => rfl
    | cons first rest => exact absurd units (Nat.ne_of_lt (units_positive first rest))
  | cons first a ih =>
    cases b with
    | nil =>
      obtain rfl := Nat.le_zero.mp within
      exact absurd units.symm (Nat.ne_of_lt (units_positive first a))
    | cons other b =>
      obtain ⟨rfl, tail⟩ := List.cons.inj same
      rw [List.length_cons] at inside within
      cases skip with
      | succ skip => rw [ih (Nat.le_of_succ_le_succ inside) (Nat.le_of_succ_le_succ within) whole full units tail]
      | zero =>
        rw [completeFrom, Bool.and_eq_true, decide_eq_true_eq] at whole full
        rw [unitsFrom, unitsFrom, if_neg (Nat.not_lt.mpr whole.1), if_neg (Nat.not_lt.mpr full.1)] at units
        rw [ih (by omega) (by omega) whole.2 full.2 (Nat.add_left_cancel units) tail]

theorem digit_injective : ∀ d < 16, ∀ e < 16, Radix.digit d = Radix.digit e → d = e := by decide +kernel

theorem hex_injective {a b : Bytes} (same : hexDigest a = hexDigest b) : a = b := by
  have one : PrefixCode (fun _ : UInt8 => True)
      fun byte => [Radix.digit (byte.toNat / 16), Radix.digit (byte.toNat % 16)] := by
    intro a b _ _ x y same
    simp only [List.cons_append, List.nil_append, List.cons.injEq] at same
    have wide := a.toNat_lt
    have other := b.toNat_lt
    have high := digit_injective _ (by omega) _ (by omega) same.1
    have low := digit_injective _ (by omega) _ (by omega) same.2.1
    exact ⟨UInt8.toNat_inj.mp (by omega), same.2.2⟩
  exact one.all (fun _ _ => List.cons_ne_nil _ _) (fun _ _ => trivial) (fun _ _ => trivial) same

theorem digit_apart : ∀ d < 16, Radix.digit d ≠ 0x0a := by decide +kernel

theorem hex_free (digest : Bytes) : 0x0a ∉ hexDigest digest := by
  intro listed
  obtain ⟨byte, -, inside⟩ := List.mem_flatMap.mp listed
  have wide := byte.toNat_lt
  rcases List.mem_cons.mp inside with same | inside
  · exact digit_apart _ (by omega) same.symm
  · exact digit_apart _ (by omega) (List.mem_singleton.mp inside).symm

theorem signed_injective {a b : Int} (same : signed a = signed b) : a = b := by
  have minus : ∀ n m, (0x2d : UInt8) :: Decimal.encode n ≠ Decimal.encode m := by
    intro n m equal
    have free := Decimal.encode_free (by decide : Decimal.isDigit 0x2d = false) m
    rw [← equal] at free
    exact free _ List.mem_cons_self rfl
  have numbers : ∀ n m, Decimal.encode n = Decimal.encode m → n = m := by
    intro n m equal
    rw [← Decimal.value_encode n, equal, Decimal.value_encode]
  cases a with
  | ofNat n =>
    cases b with
    | ofNat m => rw [numbers n m same]
    | negSucc m => exact absurd same.symm (minus _ _)
  | negSucc n =>
    cases b with
    | ofNat m => exact absurd same (minus _ _)
    | negSucc m => rw [Nat.succ.inj (numbers _ _ (List.cons.inj same).2)]

theorem signed_free (n : Int) : 0 ∉ signed n := by
  have free := fun m => Decimal.encode_free (by decide : Decimal.isDigit 0 = false) m
  cases n with
  | ofNat n => exact fun listed => free n _ listed rfl
  | negSucc n =>
    intro listed
    rcases List.mem_cons.mp listed with same | listed
    · exact absurd same (by decide)
    · exact free _ _ listed rfl

inductive Kind where
  | symLink | directory | file | other
  deriving DecidableEq

def Kind.letter : Kind → UInt8
  | .symLink => 0x4c
  | .directory => 0x44
  | .file => 0x46
  | .other => 0x3f

theorem Kind.letter_injective {a b : Kind} (same : a.letter = b.letter) : a = b := by
  cases a <;> cases b <;> first | rfl | exact absurd same (by decide)

/-- What the manifest keeps of an entry: of its mode the permissions, of its time the milliseconds. -/
structure Recorded where
  kind : Kind
  mode : Nat
  mtimeNs : Int
  contents : Bytes

def recorded : HostFile ⊕ Stat → Recorded
  | .inl (.symLink st target) => ⟨.symLink, modeBits st, manifestMtimeNs st, target⟩
  | .inr st => ⟨.directory, modeBits st, manifestMtimeNs st, []⟩
  | .inl (.file st data) => ⟨.file, modeBits st, manifestMtimeNs st, data⟩
  | .inl (.other st) => ⟨.other, modeBits st, manifestMtimeNs st, []⟩

namespace Recorded

variable (sha : Bytes → Bytes)

def size (r : Recorded) : Bytes :=
  match r.kind with
  | .symLink => Decimal.encode (utf16CodeUnitCount r.contents)
  | .file => Decimal.encode r.contents.length
  | _ => []

def behind (r : Recorded) : Bytes :=
  match r.kind with
  | .file => hexDigest (sha r.contents)
  | _ => r.contents

def fields (path : Bytes) (r : Recorded) : List Bytes :=
  [path, [r.kind.letter], Radix.encode 8 r.mode, r.size, signed r.mtimeNs]

def line (path : Bytes) (r : Recorded) : Bytes := terminated (r.fields path) ++ r.behind sha

theorem line_recorded (path : Bytes) (l : HostFile ⊕ Stat) :
    manifestLineForStat sha path l = (recorded l).line sha path := by
  rcases l with (⟨st, data⟩ | ⟨st, target⟩ | st) | st <;> rfl

theorem fields_free {path : Bytes} (free : 0 ∉ path) (r : Recorded) : ∀ field ∈ r.fields path, 0 ∉ field := by
  have octal := Radix.encode_free (by decide : 1 < 8) (by decide) (by decide : Radix.digit? 0 = none) r.mode
  have decimal : ∀ n, 0 ∉ Decimal.encode n :=
    fun n listed => Decimal.encode_free (by decide : Decimal.isDigit 0 = false) n _ listed rfl
  have size : 0 ∉ r.size := by
    unfold size
    split <;> simp [decimal]
  have kind : 0 ∉ [r.kind.letter] := by cases r.kind <;> decide
  simp [fields, free, kind, octal, size, signed_free]

/-- What is needed of an entry for its line to say it: the hash tells its contents from all others that are known. -/
def Tells (known : Bytes → Prop) (r : Recorded) : Prop :=
  match r.kind with
  | .symLink => complete r.contents = true
  | .file => known r.contents
  | _ => r.contents = []

variable {sha}

theorem behind_end {known : Bytes → Prop} (apart : ∀ a b, known a → known b → sha a = sha b → a = b) {r s : Recorded}
    (first : r.Tells known) (second : s.Tells known) (kinds : r.kind = s.kind) (sizes : r.size = s.size)
    {x y : Bytes}
    (same : r.behind sha ++ 0x0a :: x = s.behind sha ++ 0x0a :: y) : r.contents = s.contents ∧ x = y := by
  obtain ⟨kind, mode, time, contents⟩ := r
  obtain ⟨_, mode', time', contents'⟩ := s
  obtain rfl : kind = _ := kinds
  cases kind with
  | symLink =>
    have units : utf16CodeUnitCount contents = utf16CodeUnitCount contents' := by
      rw [← Decimal.value_encode (utf16CodeUnitCount contents),
        ← Decimal.value_encode (utf16CodeUnitCount contents')]
      exact congrArg Decimal.value sizes
    obtain rfl := units_end (Nat.zero_le _) (Nat.zero_le _) first second units same
    exact ⟨rfl, (List.cons.inj (List.append_cancel_left same)).2⟩
  | file =>
    have digest := (PrefixCode.delimited (0x0a : UInt8)) _ _ (hex_free (sha contents)) (hex_free (sha contents')) x y
      (by simpa [behind] using same)
    exact ⟨apart _ _ first second (hex_injective digest.1), digest.2⟩
  | directory | other =>
    obtain rfl : contents = [] := first
    obtain rfl : contents' = [] := second
    exact ⟨rfl, (List.cons.inj same).2⟩

theorem line_code {known : Bytes → Prop} (tells : ∀ a b, known a → known b → sha a = sha b → a = b) :
    PrefixCode (fun e : List Bytes × Recorded => (∀ name ∈ e.1, IsName name ∧ 0 ∉ name) ∧ e.2.Tells known)
      fun e => e.2.line sha (joined e.1) ++ [0x0a] := by
  rintro ⟨path, r⟩ ⟨other, s⟩ ⟨names, first⟩ ⟨others, second⟩ x y same
  have free : 0 ∉ joined path := joined_free (by decide) fun name listed => (names name listed).2
  have apart : 0 ∉ joined other := joined_free (by decide) fun name listed => (others name listed).2
  have count : (r.fields (joined path)).length = (s.fields (joined other)).length := rfl
  simp only [line, List.append_assoc, List.singleton_append] at same
  obtain ⟨fields, rest⟩ := (PrefixCode.delimited (0 : UInt8)).each count
    (fields_free free r) (fields_free apart s) same
  simp only [Recorded.fields, List.cons.injEq, and_true] at fields
  obtain ⟨paths, kinds, modes, sizes, times⟩ := fields
  obtain rfl := joined_injective
    (fun name listed => (names name listed).1) (fun name listed => (others name listed).1) paths
  have kind := Kind.letter_injective kinds
  have mode := Radix.encode_injective (by decide) (by decide) modes
  have time := signed_injective times
  obtain ⟨contents, ends⟩ := behind_end tells first second kind sizes rest
  cases r
  cases s
  simp_all

end Recorded

/-- What the manifest is to say of a path below a root. -/
def Records (root : HostTree) (names : List Bytes) (r : Recorded) : Prop :=
  names ≠ [] ∧ ∃ l, Leads (fun _ => false) [] root names l ∧ recorded l = r

/-- A tree of a host, none of whose links ends within a sequence. -/
structure Proper (root : HostTree) : Prop where
  distinct : Distinct root
  named : Named (fun name => IsName name ∧ 0 ∉ name) root
  links : ∀ names st target, Leads (fun _ => false) [] root names (.inl (.symLink st target)) →
    complete target = true

variable {sha : Bytes → Bytes}

/-- What is hashed for a directory: its stream, and each file in it. -/
def Hashed (sha : Bytes → Bytes) (st : Stat) (entries : List (Bytes × HostTree)) (bytes : Bytes) : Prop :=
  bytes = stream sha entries ∨
    ∃ names own, Leads (fun _ => false) [] (directory st entries) names (.inl (.file own bytes))

def facts (entries : List (Bytes × HostTree)) : List (List Bytes × Recorded) :=
  (walked entries).map fun e => (e.1, recorded e.2)

theorem facts_mem_iff {st : Stat} {entries : List (Bytes × HostTree)} {names : List Bytes} {r : Recorded} :
    (names, r) ∈ facts entries ↔ Records (directory st entries) names r := by
  rw [facts, List.mem_map]
  constructor
  · rintro ⟨⟨p, l⟩, met, same⟩
    obtain ⟨rfl, rfl⟩ := Prod.mk.inj same
    obtain ⟨names, some_, below, leads⟩ := (walkDirectory_mem_iff (d := st)).mp met
    rw [List.nil_append] at below
    subst below
    exact ⟨some_, l, leads, rfl⟩
  · rintro ⟨some_, l, leads, rfl⟩
    exact ⟨(names, l), walkDirectory_mem_iff.mpr ⟨names, some_, rfl, leads⟩, rfl⟩

theorem facts_nodup {st : Stat} {entries : List (Bytes × HostTree)} (distinct : Distinct (directory st entries)) :
    (facts entries).Nodup := by
  have ordered : ((directory st entries).walk byName (fun _ => false) []).Pairwise fun a b =>
    Before byName a.1 b.1 :=
    walk_ordered byName_orders distinct []
  rw [walk_directory, List.pairwise_cons] at ordered
  refine List.pairwise_map.mpr (ordered.2.imp ?_)
  intro a b before same
  rw [(Prod.mk.inj same).1] at before
  exact before_irrefl _ before

theorem facts_tell {st : Stat} {entries : List (Bytes × HostTree)} (proper : Proper (directory st entries))
    {known : Bytes → Prop} (all : ∀ bytes, Hashed sha st entries bytes → known bytes) :
    ∀ e ∈ facts entries, (∀ name ∈ e.1, IsName name ∧ 0 ∉ name) ∧ e.2.Tells known := by
  rintro ⟨names, r⟩ listed
  have noted : Records (directory st entries) names r := facts_mem_iff.mp listed
  obtain ⟨-, l, leads, rfl⟩ := noted
  refine ⟨leads.named proper.named, ?_⟩
  rcases l with (⟨own, data⟩ | ⟨own, target⟩ | own) | own
  · exact all data (.inr ⟨names, own, leads⟩)
  · exact proper.links names own target leads
  · rfl
  · rfl

def sortedFacts (sha : Bytes → Bytes) (entries : List (Bytes × HostTree)) : List (List Bytes × Recorded) :=
  (facts entries).mergeSort fun a b => decide (a.2.line sha (joined a.1) ≤ b.2.line sha (joined b.1))

theorem sortedLines_eq (entries : List (Bytes × HostTree)) :
    sortedLines sha entries = (sortedFacts sha entries).map fun e => e.2.line sha (joined e.1) := by
  have sorted : (sortedFacts sha entries).map (fun e => e.2.line sha (joined e.1)) =
      ((facts entries).map fun e => e.2.line sha (joined e.1)).mergeSort fun a b => decide (a ≤ b) :=
    List.map_mergeSort fun _ _ _ _ => rfl
  rw [sorted, sortedLines, facts, List.map_map]
  simp only [Recorded.line_recorded, Function.comp_def]

theorem sortedLines_perm {one two : List (Bytes × HostTree)} (perm : (facts one).Perm (facts two)) :
    sortedLines sha one = sortedLines sha two := by
  have sorted : ∀ entries, (sortedLines sha entries).Pairwise fun a b => a ≤ b := by
    intro entries
    have ordered : (sortedLines sha entries).Pairwise fun a b => byName a b = true :=
      List.pairwise_mergeSort byName_orders.trans byName_orders.total _
    exact ordered.imp of_decide_eq_true
  have lines : (sortedLines sha one).Perm (sortedLines sha two) := by
    rw [sortedLines_eq, sortedLines_eq]
    exact (((List.mergeSort_perm _ _).trans perm).trans (List.mergeSort_perm _ _).symm).map _
  exact lines.eq_of_pairwise (fun a b _ _ => List.le_antisymm) (sorted one) (sorted two)

/-- Two trees have one hash just where they have the same paths, and at each the same kind, permissions, time to
the millisecond and contents or target. -/
theorem treeManifestHash_eq_iff {st st' : Stat} {one two : List (Bytes × HostTree)}
    (first : Proper (directory st one))
    (second : Proper (directory st' two))
    (apart : ∀ x y, (Hashed sha st one x ∨ Hashed sha st' two x) → (Hashed sha st one y ∨ Hashed sha st' two y) →
      sha x = sha y → x = y) :
    treeManifestHash sha (directory st one) = treeManifestHash sha (directory st' two) ↔
      ∀ names r, Records (directory st one) names r ↔ Records (directory st' two) names r := by
  have hashes : treeManifestHash sha (directory st one) = treeManifestHash sha (directory st' two) ↔
      stream sha one = stream sha two := by
    rw [treeManifestHash, treeManifestHash, Option.some.injEq]
    constructor
    · intro same
      exact apart _ _ (.inl (.inl rfl)) (.inr (.inl rfl)) (hex_injective same)
    · intro same
      rw [same]
  rw [hashes]
  constructor
  · intro same names r
    have code := Recorded.line_code apart
    rw [stream, stream, sortedLines_eq, sortedLines_eq, List.flatMap_map, List.flatMap_map] at same
    have sorted := code.all (fun _ _ => by simp)
      (fun e listed => facts_tell first (fun _ hashed => .inl hashed) e (List.mem_mergeSort.mp listed))
      (fun e listed => facts_tell second (fun _ hashed => .inr hashed) e (List.mem_mergeSort.mp listed)) same
    rw [← facts_mem_iff, ← facts_mem_iff, ← List.mem_mergeSort (l := facts one),
      ← List.mem_mergeSort (l := facts two)]
    exact iff_of_eq (congrArg (fun es => (names, r) ∈ es) sorted)
  · intro same
    have perm : (facts one).Perm (facts two) :=
      (List.perm_ext_iff_of_nodup (facts_nodup first.distinct) (facts_nodup second.distinct)).mpr fun e =>
        facts_mem_iff.trans ((same e.1 e.2).trans facts_mem_iff.symm)
    rw [stream, stream, sortedLines_perm perm]

def sampleSha (bytes : Bytes) : Bytes :=
  if bytes = [] then
    [0xe3, 0xb0, 0xc4, 0x42, 0x98, 0xfc, 0x1c, 0x14, 0x9a, 0xfb, 0xf4, 0xc8, 0x99, 0x6f, 0xb9, 0x24,
      0x27, 0xae, 0x41, 0xe4, 0x64, 0x9b, 0x93, 0x4c, 0xa4, 0x95, 0x99, 0x1b, 0x78, 0x52, 0xb8, 0x55]
  else
    [0x5e, 0x02, 0x59, 0xf6, 0x49, 0xc6, 0x28, 0x7b, 0x67, 0x1f, 0x2d, 0xce, 0x26, 0x25, 0xc9, 0x20,
      0xad, 0x9f, 0x7e, 0x94, 0x9a, 0x03, 0x2e, 0x31, 0x54, 0x7f, 0xf6, 0x68, 0xa6, 0x2e, 0x28, 0x5c]

def linkedFile (mode : Nat) : List (Bytes × HostTree) :=
  [([0x66], .leaf (.file ⟨mode, 0⟩ [])), ([0x61], .leaf (.symLink ⟨0o777, 0⟩ [0x66]))]

section Linked

variable {st : Stat} {mode : Nat} {entries : List (Bytes × HostTree)}

theorem linkedFile_leads (listed : ∀ e ∈ entries, e ∈ linkedFile mode) {names : List Bytes} {l : HostFile ⊕ Stat}
    (leads : Leads (fun _ => false) [] (directory st entries) names l) :
    l = .inr st ∨ l = .inl (.file ⟨mode, 0⟩ []) ∨ l = .inl (.symLink ⟨0o777, 0⟩ [0x66]) := by
  cases leads with
  | here => exact .inl rfl
  | inside member kept rest =>
    have one := listed _ member
    simp only [linkedFile, List.mem_cons, Prod.mk.injEq, List.not_mem_nil, or_false] at one
    rcases one with ⟨-, rfl⟩ | ⟨-, rfl⟩
    · cases rest
      exact .inr (.inl rfl)
    · cases rest
      exact .inr (.inr rfl)

theorem linkedFile_proper (names : (entries.map Prod.fst).Nodup) (listed : ∀ e ∈ entries, e ∈ linkedFile mode) :
    Proper (directory st entries) where
  distinct := by
    refine .directory names fun e member => ?_
    have one := listed e member
    simp only [linkedFile, List.mem_cons, List.not_mem_nil, or_false] at one
    rcases one with rfl | rfl <;> exact .leaf
  named := by
    refine .directory (fun e member => ?_) fun e member => ?_
    all_goals
      have one := listed e member
      simp only [linkedFile, List.mem_cons, List.not_mem_nil, or_false] at one
    · rcases one with rfl | rfl <;> simp [IsName]
    · rcases one with rfl | rfl <;> exact .leaf
  links := by
    intro _ _ target leads
    rcases linkedFile_leads listed leads with same | same | same <;> cases same
    decide

theorem linkedFile_hashed (listed : ∀ e ∈ entries, e ∈ linkedFile mode) {bytes : Bytes}
    (hashed : Hashed sampleSha st entries bytes) : bytes = stream sampleSha entries ∨ bytes = [] := by
  rcases hashed with same | ⟨names, own, leads⟩
  · exact .inl same
  · rcases linkedFile_leads listed leads with same | same | same <;> cases same
    exact .inr rfl

end Linked

/-- Of a file's mode only the permissions are hashed, of the root's mode and time nothing, and the
order in which the entries are listed does not matter. -/
theorem treeManifestHash_eq_linkedFile :
    treeManifestHash sampleSha (directory ⟨0o755, 0⟩ (linkedFile 0o644)) =
        treeManifestHash sampleSha (directory ⟨0o700, 7⟩ (linkedFile 0o100644).reverse) ↔
      ∀ names r, Records (directory ⟨0o755, 0⟩ (linkedFile 0o644)) names r ↔
        Records (directory ⟨0o700, 7⟩ (linkedFile 0o100644).reverse) names r := by
  have met (entries : List (Bytes × HostTree)) : (facts entries).Perm
      (((walkEntries byName (fun _ => false) [] entries).flatMap Prod.snd).map fun e => (e.1, recorded e.2)) :=
    ((List.mergeSort_perm _ _).flatMap_right _).map _
  have both : (facts (linkedFile 0o100644).reverse).Perm (facts (linkedFile 0o644)) := by
    refine (met _).trans (.trans ?_ (met _).symm)
    exact .swap ([[0x66]], recorded (.inl (.file ⟨0o644, 0⟩ [])))
      ([[0x61]], recorded (.inl (.symLink ⟨0o777, 0⟩ [0x66]))) []
  have one : stream sampleSha (linkedFile 0o100644).reverse = stream sampleSha (linkedFile 0o644) := by
    rw [stream, stream, sortedLines_perm both]
  have lines : (sortedLines sampleSha (linkedFile 0o644)).length = 2 := by
    rw [sortedLines_eq, List.length_map, sortedFacts, List.length_mergeSort, (met _).length_eq]
    rfl
  have apart : sampleSha (stream sampleSha (linkedFile 0o644)) ≠ sampleSha [] := by
    have some_ : stream sampleSha (linkedFile 0o644) ≠ [] := by
      intro none_
      have bare := List.flatMap_eq_nil_iff.mp none_
      have free : sortedLines sampleSha (linkedFile 0o644) = [] :=
        List.eq_nil_iff_forall_not_mem.mpr fun line listed => by simpa using bare line listed
      rw [free] at lines
      exact absurd lines (by decide)
    rw [sampleSha, if_neg some_]
    decide +kernel
  have own : ∀ e ∈ linkedFile 0o644, e ∈ linkedFile 0o644 := fun _ => id
  have turned : ∀ e ∈ (linkedFile 0o100644).reverse, e ∈ linkedFile 0o100644 := fun _ => List.mem_reverse.mp
  have inputs : ∀ x, (Hashed sampleSha ⟨0o755, 0⟩ (linkedFile 0o644) x ∨
      Hashed sampleSha ⟨0o700, 7⟩ (linkedFile 0o100644).reverse x) →
      x = stream sampleSha (linkedFile 0o644) ∨ x = [] := by
    rintro x (hashed | hashed)
    · exact linkedFile_hashed own hashed
    · exact one ▸ linkedFile_hashed turned hashed
  refine treeManifestHash_eq_iff (linkedFile_proper (by decide) own) (linkedFile_proper (by decide) turned)
    fun x y first second same => ?_
  rcases inputs x first with rfl | rfl <;> rcases inputs y second with rfl | rfl
  · rfl
  · exact absurd same apart
  · exact absurd same.symm apart
  · rfl

end Machinen.Runtime.TreeManifest
