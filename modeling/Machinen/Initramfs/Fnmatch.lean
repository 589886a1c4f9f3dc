import Machinen.Lib.Bytes

/-! The exclude patterns of the packer: the matcher, and the language that a pattern stands for.
Both go by suffixes, the name from `ni` and the pattern from `pi`. -/
namespace Machinen.Initramfs

open Bytes

abbrev asterisk : UInt8 := 0x2a
abbrev question : UInt8 := 0x3f
abbrev openBracket : UInt8 := 0x5b
abbrev closeBracket : UInt8 := 0x5d
abbrev exclamation : UInt8 := 0x21
abbrev hyphen : UInt8 := 0x2d

def classEnd (text : Bytes) : Option Nat :=
  let i := if text[0]? = some exclamation then 1 else 0
  let i := if text[i]? = some closeBracket then i + 1 else i
  ((text.drop i).findIdx? (· == closeBracket)).map (i + ·)

def classLoop (c : UInt8) : Bytes → Bool → Bool
  | lo :: dash :: hi :: rest, matched =>
    if dash = hyphen then classLoop c rest (if lo ≤ c ∧ c ≤ hi then true else matched)
    else classLoop c (dash :: hi :: rest) (if lo = c then true else matched)
  | b :: rest, matched => classLoop c rest (if b = c then true else matched)
  | [], matched => matched

/-- No result is a failed assertion. -/
def classMatches (c : UInt8) (body : Bytes) : Option Bool :=
  if body.length = 0 then none
  else if body[0]? = some exclamation then some !classLoop c (body.drop 1) false
  else some (classLoop c body false)

def starLoop (rest : Bytes → Option Bool) : Bytes → Option Bool
  | [] => rest []
  | c :: name => do
    if ← rest (c :: name) then return true
    starLoop rest name

def fnmatchStep (name : Bytes) : Bytes → Option Bool
  | [] => some name.isEmpty
  | p :: pattern =>
    if p = asterisk then starLoop (fun suffix => fnmatchStep suffix pattern) name
    else match name with
      | [] => some false
      | c :: name =>
        if p = question then fnmatchStep name pattern
        else if p = openBracket then
          match classEnd pattern with
          | none => if c = openBracket then fnmatchStep name pattern else some false
          | some i => do
            if ← classMatches c (pattern.take i) then fnmatchStep name (pattern.drop (i + 1))
            else return false
        else if c = p then fnmatchStep name pattern
        else some false
termination_by pattern => pattern.length
decreasing_by
  all_goals simp only [List.length_cons, List.length_drop]; omega

def fnmatch (name pattern : Bytes) : Option Bool :=
  if pattern.length = 0 then none else fnmatchStep name pattern

/-- A path is asked for with every pattern in turn; the first that fits decides. -/
def isExcluded (path : Bytes) : List Bytes → Option Bool
  | [] => if path.length = 0 then none else some false
  | pattern :: patterns =>
    if path.length = 0 then none
    else do
      if ← fnmatch path pattern then return true
      isExcluded path patterns

/-- A member of a class, from the first to the last byte it stands for. -/
structure Span where
  lo : UInt8
  hi : UInt8

def Span.Holds (s : Span) (c : UInt8) : Prop := s.lo ≤ c ∧ c ≤ s.hi

/-- A hyphen between two bytes makes a span of them; at either end it stands for itself. -/
def spans : Bytes → List Span
  | lo :: dash :: hi :: rest =>
    if dash = hyphen then ⟨lo, hi⟩ :: spans rest else ⟨lo, lo⟩ :: spans (dash :: hi :: rest)
  | b :: rest => ⟨b, b⟩ :: spans rest
  | [] => []

/-- What stands between the brackets of a class: a mark if it is negated, one byte of any kind (not
the mark), and bytes other than the closing bracket. -/
inductive ClassText : Bool → Bytes → Bytes → Prop
  | plain (first : UInt8) (more : Bytes) (unmarked : first ≠ exclamation) (inside : closeBracket ∉ more) :
    ClassText false (first :: more) (first :: more)
  | negated (first : UInt8) (more : Bytes) (inside : closeBracket ∉ more) :
    ClassText true (first :: more) (exclamation :: first :: more)

inductive Language : Bytes → Bytes → Prop
  | empty : Language [] []
  | star (any : Bytes) {pattern name : Bytes} (rest : Language pattern name) :
    Language (asterisk :: pattern) (any ++ name)
  | one (c : UInt8) {pattern name : Bytes} (rest : Language pattern name) :
    Language (question :: pattern) (c :: name)
  | class_ (c : UInt8) {negated : Bool} {members text pattern name : Bytes}
    (spelled : ClassText negated members text)
    (member : (∃ s ∈ spans members, s.Holds c) ↔ negated = false) (rest : Language pattern name) :
    Language (openBracket :: (text ++ closeBracket :: pattern)) (c :: name)
  | bracket {pattern name : Bytes}
    (unclosed : ∀ negated members text after, ClassText negated members text →
      pattern ≠ text ++ closeBracket :: after)
    (rest : Language pattern name) : Language (openBracket :: pattern) (openBracket :: name)
  | byte (c : UInt8) {pattern name : Bytes} (plain : c ≠ asterisk ∧ c ≠ question ∧ c ≠ openBracket)
    (rest : Language pattern name) : Language (c :: pattern) (c :: name)

theorem classLoop_iff (c : UInt8) (body : Bytes) (matched : Bool) :
    classLoop c body matched = true ↔ matched = true ∨ ∃ s ∈ spans body, s.Holds c := by
  induction body, matched using classLoop.induct c with
  | case1 lo hi rest matched ih =>
    rw [classLoop, if_pos rfl, ih, spans, if_pos rfl, List.exists_mem_cons_iff]
    by_cases inside : lo ≤ c ∧ c ≤ hi
    · rw [if_pos inside]
      exact iff_of_true (.inl rfl) (.inr (.inl inside))
    · rw [if_neg inside]
      exact or_congr_right ⟨.inr, fun either => either.resolve_left inside⟩
  | case2 lo dash hi rest matched plain ih =>
    rw [classLoop, if_neg plain, ih, spans, if_neg plain, List.exists_mem_cons_iff]
    by_cases same : lo = c
    · subst same
      rw [if_pos rfl]
      exact iff_of_true (.inl rfl) (.inr (.inl ⟨UInt8.le_refl lo, UInt8.le_refl lo⟩))
    · rw [if_neg same]
      refine or_congr_right ⟨.inr, fun either => either.resolve_left fun holds => same ?_⟩
      exact UInt8.le_antisymm holds.1 holds.2
  | case3 b rest matched short ih =>
    have unfolded : spans (b :: rest) = ⟨b, b⟩ :: spans rest := by
      rw [spans]
      exact short
    rw [classLoop, ih, unfolded, List.exists_mem_cons_iff]
    · by_cases same : b = c
      · subst same
        rw [if_pos rfl]
        exact iff_of_true (.inl rfl) (.inr (.inl ⟨UInt8.le_refl b, UInt8.le_refl b⟩))
      · rw [if_neg same]
        refine or_congr_right ⟨.inr, fun either => either.resolve_left fun holds => same ?_⟩
        exact UInt8.le_antisymm holds.1 holds.2
    · exact short
  | case4 matched =>
    rw [classLoop, spans]
    exact ⟨.inl, fun either => either.resolve_right nofun⟩

theorem classEnd_cons (first : UInt8) (more : Bytes) (unmarked : first ≠ exclamation) :
    classEnd (first :: more) = (more.findIdx? (· == closeBracket)).map (1 + ·) := by
  have here : (first :: more)[0]? ≠ some exclamation := fun same => unmarked (Option.some.inj same)
  unfold classEnd
  rw [if_neg here]
  by_cases closing : first = closeBracket
  · subst closing
    rfl
  · have open_ : (first :: more)[0]? ≠ some closeBracket := fun same => closing (Option.some.inj same)
    dsimp only
    rw [if_neg open_, List.drop_zero, List.findIdx?_cons, if_neg (by rwa [beq_iff_eq]), Option.map_map]
    congr 1
    funext k
    exact (Nat.zero_add _).trans (Nat.add_comm k 1)

theorem classEnd_marked (first : UInt8) (more : Bytes) :
    classEnd (exclamation :: first :: more) = (more.findIdx? (· == closeBracket)).map (2 + ·) := by
  have mark : (exclamation :: first :: more)[0]? = some exclamation := rfl
  unfold classEnd
  rw [if_pos mark]
  by_cases closing : first = closeBracket
  · subst closing
    rfl
  · have open_ : (exclamation :: first :: more)[1]? ≠ some closeBracket :=
      fun same => closing (Option.some.inj same)
    dsimp only
    rw [if_neg open_, List.drop_succ_cons, List.drop_zero, List.findIdx?_cons,
      if_neg (by rwa [beq_iff_eq]), Option.map_map]
    congr 1
    funext k
    exact (Nat.add_assoc 1 k 1).symm.trans (Nat.add_right_comm 1 k 1)

theorem closing_found {more : Bytes} (inside : closeBracket ∉ more) (after : Bytes) :
    (more ++ closeBracket :: after).findIdx? (· == closeBracket) = some more.length := by
  induction more with
  | nil => rfl
  | cons b more ih =>
    have other : b ≠ closeBracket := (List.ne_of_not_mem_cons inside).symm
    rw [List.cons_append, List.findIdx?_cons, if_neg (by rwa [beq_iff_eq]),
      ih (List.not_mem_of_not_mem_cons inside)]
    rfl

variable {text members : Bytes} {negated : Bool}

theorem closing_splits {k : Nat} (found : text.findIdx? (· == closeBracket) = some k) :
    ∃ more after, text = more ++ closeBracket :: after ∧ closeBracket ∉ more ∧ more.length = k := by
  induction text generalizing k with
  | nil => exact nomatch found
  | cons b text ih =>
    rw [List.findIdx?_cons] at found
    split at found
    · rename_i closing
      cases found
      exact ⟨[], text, by rw [beq_iff_eq.mp closing]; rfl, List.not_mem_nil, rfl⟩
    · rename_i other
      obtain ⟨j, later, rfl⟩ := Option.map_eq_some_iff.mp found
      obtain ⟨more, after, rfl, inside, rfl⟩ := ih later
      refine ⟨b :: more, after, rfl, List.not_mem_cons_of_ne_of_not_mem ?_ inside, rfl⟩
      rintro rfl
      exact other (beq_self_eq_true _)

theorem classEnd_spelled (spelled : ClassText negated members text) (after : Bytes) :
    classEnd (text ++ closeBracket :: after) = some text.length := by
  cases spelled with
  | plain first more unmarked inside =>
    rw [List.cons_append, classEnd_cons first _ unmarked, closing_found inside, Option.map_some,
      List.length_cons, Nat.add_comm]
  | negated first more inside =>
    rw [List.cons_append, List.cons_append, classEnd_marked, closing_found inside, Option.map_some,
      List.length_cons, List.length_cons, Nat.add_comm]

theorem classEnd_some {pattern : Bytes} {i : Nat} (found : classEnd pattern = some i) :
    ∃ negated members text after, ClassText negated members text ∧
      pattern = text ++ closeBracket :: after ∧ text.length = i := by
  cases pattern with
  | nil => exact nomatch found
  | cons b pattern =>
    by_cases mark : b = exclamation
    · subst mark
      cases pattern with
      | nil => exact nomatch found
      | cons first pattern =>
        rw [classEnd_marked] at found
        obtain ⟨k, later, rfl⟩ := Option.map_eq_some_iff.mp found
        obtain ⟨more, after, rfl, inside, rfl⟩ := closing_splits later
        refine ⟨true, first :: more, exclamation :: first :: more, after, .negated first more inside,
          rfl, ?_⟩
        simp only [List.length_cons]
        omega
    · rw [classEnd_cons b pattern mark] at found
      obtain ⟨k, later, rfl⟩ := Option.map_eq_some_iff.mp found
      obtain ⟨more, after, rfl, inside, rfl⟩ := closing_splits later
      refine ⟨false, b :: more, b :: more, after, .plain b more mark inside, rfl, ?_⟩
      rw [List.length_cons, Nat.add_comm]

theorem ClassText.unique {negated' : Bool} {members' : Bytes} (spelled : ClassText negated members text)
    (spelled' : ClassText negated' members' text) : negated = negated' ∧ members = members' := by
  cases spelled with
  | plain first more unmarked inside =>
    cases spelled' with
    | plain => exact ⟨rfl, rfl⟩
    | negated => exact absurd rfl unmarked
  | negated first more inside =>
    cases spelled' with
    | plain _ _ unmarked => exact absurd rfl unmarked
    | negated => exact ⟨rfl, rfl⟩

theorem classMatches_spelled
    (spelled : ClassText negated members text) (c : UInt8) : ∃ r, classMatches c text = some r ∧
      (r = true ↔ ((∃ s ∈ spans members, s.Holds c) ↔ negated = false)) := by
  have loop (body : Bytes) := (classLoop_iff c body false).trans (or_iff_right Bool.false_ne_true)
  cases spelled with
  | plain first more unmarked inside =>
    have here : (first :: more)[0]? ≠ some exclamation := fun same => unmarked (Option.some.inj same)
    refine ⟨classLoop c (first :: more) false, ?_, ?_⟩
    · unfold classMatches
      rw [List.length_cons, if_neg (Nat.succ_ne_zero _), if_neg here]
    · rw [loop]
      exact (iff_true_right rfl).symm
  | negated first more inside =>
    refine ⟨!classLoop c (first :: more) false, rfl, ?_⟩
    rw [Bool.not_eq_true', ← Bool.not_eq_true, loop]
    exact (iff_false_right (nofun : ¬ true = false)).symm

theorem starLoop_iff {rest : Bytes → Option Bool} {fits : Bytes → Prop}
    (each : ∀ suffix, ∃ r, rest suffix = some r ∧ (r = true ↔ fits suffix)) (name : Bytes) :
    ∃ r, starLoop rest name = some r ∧ (r = true ↔ ∃ any suffix,
    name = any ++ suffix ∧ fits suffix) := by
  induction name with
  | nil =>
    obtain ⟨r, matched, correct⟩ := each []
    refine ⟨r, matched, correct.trans ⟨fun fit => ⟨[], [], rfl, fit⟩, ?_⟩⟩
    rintro ⟨any, suffix, nothing, fit⟩
    rwa [(List.append_eq_nil_iff.mp nothing.symm).2] at fit
  | cons c name ih =>
    obtain ⟨r, matched, correct⟩ := each (c :: name)
    obtain ⟨later, looped, correct'⟩ := ih
    unfold starLoop
    rw [matched]
    cases r with
    | true => exact ⟨true, rfl, iff_of_true rfl ⟨[], c :: name, rfl, correct.mp rfl⟩⟩
    | false =>
      refine ⟨later, looped, correct'.trans ⟨?_, ?_⟩⟩
      · rintro ⟨any, suffix, rfl, fit⟩
        exact ⟨c :: any, suffix, rfl, fit⟩
      · rintro ⟨any, suffix, split_, fit⟩
        cases any with
        | nil =>
          obtain rfl : c :: name = suffix := split_
          exact absurd (correct.mpr fit) Bool.false_ne_true
        | cons b any =>
          obtain ⟨rfl, rfl⟩ := List.cons.inj split_
          exact ⟨any, suffix, rfl, fit⟩

/-- How a name can be in the language of a pattern that is not empty. -/
inductive Language.Cases (p : UInt8) (pattern name : Bytes) : Prop
  | star (at_ : p = asterisk) (any suffix : Bytes) (split_ : name = any ++ suffix)
    (rest : Language pattern suffix)
  | one (at_ : p = question) (c : UInt8) (suffix : Bytes) (split_ : name = c :: suffix)
    (rest : Language pattern suffix)
  | class_ (at_ : p = openBracket) (c : UInt8) (negated : Bool) (members text after suffix : Bytes)
    (spelled : ClassText negated members text) (split_ : pattern = text ++ closeBracket :: after)
    (member : (∃ s ∈ spans members, s.Holds c) ↔ negated = false) (first : name = c :: suffix)
    (rest : Language after suffix)
  | bracket (at_ : p = openBracket)
    (unclosed : ∀ negated members text after, ClassText negated members text →
      pattern ≠ text ++ closeBracket :: after)
    (suffix : Bytes) (first : name = openBracket :: suffix) (rest : Language pattern suffix)
  | byte (plain : p ≠ asterisk ∧ p ≠ question ∧ p ≠ openBracket) (suffix : Bytes)
    (first : name = p :: suffix) (rest : Language pattern suffix)

theorem Language.cases_ {p : UInt8} {pattern name : Bytes} (fits : Language (p :: pattern) name) :
    Language.Cases p pattern name := by
  generalize whole : p :: pattern = text at fits
  cases fits with
  | empty => exact nomatch whole
  | star any rest =>
    obtain ⟨rfl, rfl⟩ := List.cons.inj whole
    exact .star rfl any _ rfl rest
  | one c rest =>
    obtain ⟨rfl, rfl⟩ := List.cons.inj whole
    exact .one rfl c _ rfl rest
  | class_ c spelled member rest =>
    obtain ⟨rfl, rfl⟩ := List.cons.inj whole
    exact .class_ rfl c _ _ _ _ _ spelled rfl member rfl rest
  | bracket unclosed rest =>
    obtain ⟨rfl, rfl⟩ := List.cons.inj whole
    exact .bracket rfl unclosed _ rfl rest
  | byte c plain rest =>
    obtain ⟨rfl, rfl⟩ := List.cons.inj whole
    exact .byte plain _ rfl rest

theorem language_nil (name : Bytes) : Language [] name ↔ name = [] := by
  constructor
  · intro fits
    cases fits
    rfl
  · rintro rfl
    exact .empty

theorem language_star (pattern name : Bytes) : Language (asterisk :: pattern) name ↔
    ∃ any suffix, name = any ++ suffix ∧ Language pattern suffix := by
  constructor
  · intro fits
    cases fits.cases_ with
    | star _ any suffix split_ rest => exact ⟨any, suffix, split_, rest⟩
    | one at_ | class_ at_ | bracket at_ => exact absurd at_ (by decide)
    | byte plain => exact absurd rfl plain.1
  · rintro ⟨any, suffix, rfl, rest⟩
    exact .star any rest

theorem language_one (pattern name : Bytes) (c : UInt8) :
    Language (question :: pattern) (c :: name) ↔ Language pattern name := by
  constructor
  · intro fits
    cases fits.cases_ with
    | one _ b suffix split_ rest => exact (List.cons.inj split_).2 ▸ rest
    | star at_ | class_ at_ | bracket at_ => exact absurd at_ (by decide)
    | byte plain => exact absurd rfl plain.2.1
  · exact .one c

theorem language_byte {p : UInt8} (plain : p ≠ asterisk ∧ p ≠ question ∧ p ≠ openBracket)
    (pattern name : Bytes)
    (c : UInt8) : Language (p :: pattern) (c :: name) ↔ c = p ∧ Language pattern name := by
  constructor
  · intro fits
    cases fits.cases_ with
    | star at_ => exact absurd at_ plain.1
    | one at_ => exact absurd at_ plain.2.1
    | class_ at_ | bracket at_ => exact absurd at_ plain.2.2
    | byte _ suffix first rest =>
      obtain ⟨rfl, rfl⟩ := List.cons.inj first
      exact ⟨rfl, rest⟩
  · rintro ⟨rfl, rest⟩
    exact .byte c plain rest

theorem language_class (spelled : ClassText negated members text)
    (after name : Bytes) (c : UInt8) : Language (openBracket :: (text ++ closeBracket :: after))
      (c :: name) ↔ ((∃ s ∈ spans members, s.Holds c) ↔ negated = false) ∧ Language after name := by
  constructor
  · intro fits
    cases fits.cases_ with
    | star at_ | one at_ => exact absurd at_ (by decide)
    | byte plain => exact absurd rfl plain.2.2
    | bracket _ unclosed => exact absurd rfl (unclosed negated members text after spelled)
    | class_ _ b negated' members' text' after' suffix spelled' split_ member first rest =>
      have end_ := classEnd_spelled spelled after
      rw [split_, classEnd_spelled spelled' after'] at end_
      obtain ⟨rfl, closing⟩ := List.append_inj split_ (Option.some.inj end_).symm
      obtain ⟨rfl, rfl⟩ := spelled.unique spelled'
      obtain ⟨rfl, rfl⟩ := List.cons.inj first
      exact ⟨member, (List.cons.inj closing).2 ▸ rest⟩
  · rintro ⟨member, rest⟩
    exact .class_ c spelled member rest

theorem language_bracket {pattern : Bytes} (open_ : classEnd pattern = none) (name : Bytes) (c : UInt8) :
    Language (openBracket :: pattern) (c :: name) ↔ c = openBracket ∧ Language pattern name := by
  have unclosed : ∀ negated members text after, ClassText negated members text →
      pattern ≠ text ++ closeBracket :: after := by
    rintro negated members text after spelled rfl
    exact nomatch (classEnd_spelled spelled after).symm.trans open_
  constructor
  · intro fits
    cases fits.cases_ with
    | star at_ | one at_ => exact absurd at_ (by decide)
    | byte plain => exact absurd rfl plain.2.2
    | class_ _ b negated members text after suffix spelled split_ => exact absurd split_ (unclosed _ _ _ _ spelled)
    | bracket _ _ suffix first rest =>
      obtain ⟨rfl, rfl⟩ := List.cons.inj first
      exact ⟨rfl, rest⟩
  · rintro ⟨rfl, rest⟩
    exact .bracket unclosed rest

theorem language_cons_nil {p : UInt8} (other : p ≠ asterisk) (pattern : Bytes) :
    ¬ Language (p :: pattern) [] := by
  intro fits
  cases fits.cases_ with
  | star at_ => exact other at_
  | one _ _ _ first | class_ _ _ _ _ _ _ _ _ _ _ first | bracket _ _ _ first | byte _ _ first =>
    exact nomatch first

theorem fnmatchStep_iff (pattern name : Bytes) :
    ∃ r, fnmatchStep name pattern = some r ∧ (r = true ↔ Language pattern name) := by
  induction size : pattern.length using Nat.strongRecOn generalizing pattern name with
  | ind n ih =>
    cases pattern with
    | nil =>
      refine ⟨name.isEmpty, by rw [fnmatchStep], ?_⟩
      rw [language_nil, List.isEmpty_iff]
    | cons p pattern =>
      have next (suffix : Bytes) := ih pattern.length (by rw [← size]; exact Nat.lt_succ_self _) pattern
        suffix rfl
      rw [fnmatchStep.eq_def]
      dsimp only
      by_cases star : p = asterisk
      · subst star
        rw [if_pos rfl, language_star]
        exact starLoop_iff next name
      · rw [if_neg star]
        cases name with
        | nil => exact ⟨false, rfl, iff_of_false Bool.false_ne_true (language_cons_nil star pattern)⟩
        | cons c name =>
          dsimp only
          by_cases one : p = question
          · subst one
            rw [if_pos rfl, language_one]
            exact next name
          · rw [if_neg one]
            by_cases bracket : p = openBracket
            · subst bracket
              rw [if_pos rfl]
              cases closing : classEnd pattern with
              | none =>
                rw [language_bracket closing]
                dsimp only
                by_cases same : c = openBracket
                · obtain ⟨r, matched, correct⟩ := next name
                  rw [if_pos same]
                  exact ⟨r, matched, correct.trans (and_iff_right same).symm⟩
                · rw [if_neg same]
                  exact ⟨false, rfl, iff_of_false Bool.false_ne_true fun both => same both.1⟩
              | some i =>
                obtain ⟨negated, members, text, after, spelled, rfl, rfl⟩ := classEnd_some closing
                obtain ⟨inside, tested, member⟩ := classMatches_spelled spelled c
                obtain ⟨r, matched, correct⟩ := ih after.length
                  (by simp only [List.length_cons, List.length_append] at size; omega) after name rfl
                have rest : (text ++ closeBracket :: after).drop (text.length + 1) = after := by
                  rw [← List.drop_drop, List.drop_left, List.drop_succ_cons, List.drop_zero]
                rw [language_class spelled]
                dsimp only
                rw [List.take_left, tested, rest]
                cases inside with
                | true => exact ⟨r, matched, correct.trans (and_iff_right (member.mp rfl)).symm⟩
                | false =>
                  exact ⟨false, rfl, iff_of_false Bool.false_ne_true fun both =>
                    Bool.false_ne_true (member.mpr both.1)⟩
            · rw [if_neg bracket, language_byte ⟨star, one, bracket⟩]
              by_cases same : c = p
              · obtain ⟨r, matched, correct⟩ := next name
                rw [if_pos same]
                exact ⟨r, matched, correct.trans (and_iff_right same).symm⟩
              · rw [if_neg same]
                exact ⟨false, rfl, iff_of_false Bool.false_ne_true fun both => same both.1⟩

/-- The matcher ends on every pattern, trips no assertion, and accepts the pattern's language. -/
theorem fnmatch_language (name pattern : Bytes) (nonempty : pattern ≠ []) :
    ∃ r, fnmatch name pattern = some r ∧ (r = true ↔ Language pattern name) := by
  unfold fnmatch
  rw [if_neg fun none_ => nonempty (List.eq_nil_of_length_eq_zero none_)]
  exact fnmatchStep_iff pattern name

/-- `*[!]-a]` and the name `x/b`. -/
theorem fnmatch_language_negated :
    ∃ r, fnmatch [0x78, 0x2f, 0x62] [0x2a, 0x5b, 0x21, 0x5d, 0x2d, 0x61, 0x5d] = some r ∧ r = true := by
  obtain ⟨r, matched, correct⟩ := fnmatch_language [0x78, 0x2f, 0x62]
    [0x2a, 0x5b, 0x21, 0x5d, 0x2d, 0x61, 0x5d] (List.cons_ne_nil _ _)
  refine ⟨r, matched, correct.mpr ?_⟩
  refine .star [0x78, 0x2f] (.class_ 0x62 (.negated 0x5d [0x2d, 0x61] (by decide)) ?_ .empty)
  refine iff_of_false ?_ nofun
  rintro ⟨s, member, holds⟩
  simp only [spans, if_pos, List.mem_singleton] at member
  subst member
  exact absurd holds.2 (by decide)

end Machinen.Initramfs
