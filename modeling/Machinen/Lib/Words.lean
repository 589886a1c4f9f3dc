import Mathlib

/-! The words of a text: its longest stretches without a separator. A table whose columns are padded is
read back by them, whatever the padding. -/
namespace Machinen.Words

variable {α : Type*} (sep : α → Bool)

/-- What a word is made of. -/
def Free (text : List α) : Prop := ∀ c ∈ text, sep c = false

def IsWord (text : List α) : Prop := text ≠ [] ∧ Free sep text

def words (text : List α) : List (List α) := (text.splitOnP sep).filter (!·.isEmpty)

variable {sep}

variable {a b text w : List α} {c : α}

theorem Free.append (first : Free sep a) (second : Free sep b) : Free sep (a ++ b) := by
  intro c mem
  rcases List.mem_append.mp mem with mem | mem
  · exact first c mem
  · exact second c mem

theorem Free.cons (rest : Free sep a) (first : sep c = false) : Free sep (c :: a) := by
  simpa [Free, first] using rest

theorem IsWord.append (first : IsWord sep a) (second : Free sep b) : IsWord sep (a ++ b) :=
  ⟨by simp [first.1], first.2.append second⟩

theorem IsWord.joined (first : IsWord sep a) (c : α) (letter : sep c = false) (second : IsWord sep b) :
    IsWord sep (a ++ c :: b) :=
  first.append (second.2.cons letter)

theorem IsWord.snoc (first : IsWord sep a) (c : α) (letter : sep c = false) : IsWord sep (a ++ [c]) :=
  first.append (by simp [Free, letter])

theorem joined_isWord {glue : α} (letter : sep glue = false) {ws : List (List α)} (some_ : ws ≠ [])
    (each : ∀ w ∈ ws, IsWord sep w) : IsWord sep ([glue].intercalate ws) := by
  induction ws with
  | nil => exact absurd rfl some_
  | cons w ws ih =>
    have word := each w List.mem_cons_self
    cases ws with
    | nil => simpa using word
    | cons v ws =>
      rw [List.intercalate_cons_cons, List.append_assoc, List.singleton_append]
      exact word.joined glue letter (ih (by simp) fun u mem => each u (List.mem_cons_of_mem _ mem))

/-- A word that is written out is one by evaluation. -/
theorem isWord_of_all (all : (!text.isEmpty && text.all (!sep ·)) = true) : IsWord sep text := by
  rw [Bool.and_eq_true] at all
  refine ⟨by simpa using all.1, fun c mem => ?_⟩
  simpa using List.all_eq_true.mp all.2 c mem

@[simp] theorem words_nil : words sep ([] : List α) = [] := by simp [words]

theorem words_append_cons (a b : List α) (is : sep c = true) :
    words sep (a ++ c :: b) = words sep a ++ words sep b := by
  rw [words, List.splitOnP_append_cons a b is, List.filter_append]
  rfl

theorem words_cons (b : List α) (is : sep c = true) : words sep (c :: b) = words sep b := by
  simpa using words_append_cons [] b is

theorem words_snoc (a : List α) (is : sep c = true) : words sep (a ++ [c]) = words sep a := by
  simpa using words_append_cons a [] is

theorem words_word (word : IsWord sep w) : words sep w = [w] := by
  rw [words, List.splitOnP_eq_singleton word.2]
  simp [word.1]

theorem words_word_cons (word : IsWord sep w) (is : sep c = true) (b : List α) :
    words sep (w ++ c :: b) = w :: words sep b := by
  rw [words_append_cons w b is, words_word word]
  rfl

theorem words_padding (n : Nat) (is : sep c = true) (b : List α) :
    words sep (List.replicate n c ++ b) = words sep b := by
  induction n with
  | zero => rfl
  | succ n ih => rw [List.replicate_succ, List.cons_append, words_cons _ is, ih]

/-- A letter in front of another goes before the first word. -/
theorem words_letter {d : α} (b : List α) (letter : sep c = false) (other : sep d = false) :
    words sep (c :: d :: b) = (words sep (d :: b)).modifyHead (c :: ·) := by
  obtain ⟨first, rest, parts⟩ := List.exists_cons_of_ne_nil (List.splitOnP_ne_nil sep b)
  simp [words, List.splitOnP_cons_eq_if_modifyHead, letter, other, parts]

/-- The words of a text begin with what stands in front of its first separator. -/
theorem words_first (word : IsWord sep w) {rest : List α}
    (ends : ∀ c ∈ rest.head?, sep c = true) : words sep (w ++ rest) = w :: words sep rest := by
  cases rest with
  | nil => simp [words_word word]
  | cons c rest =>
    have is : sep c = true := ends c rfl
    rw [words_word_cons word is, words_cons rest is]

theorem words_append_blank (a : List α) (blank : ∀ c ∈ b, sep c = true) :
    words sep (a ++ b) = words sep a := by
  induction b using List.reverseRecOn with
  | nil => rw [List.append_nil]
  | append_singleton b c ih =>
    rw [← List.append_assoc, words_snoc _ (blank c (by simp)), ih fun d mem => blank d (by simp [mem])]

theorem words_blank_append (b : List α) (blank : ∀ c ∈ a, sep c = true) :
    words sep (a ++ b) = words sep b := by
  induction a with
  | nil => rfl
  | cons c a ih =>
    rw [List.cons_append, words_cons _ (blank c List.mem_cons_self),
      ih fun d mem => blank d (List.mem_cons_of_mem _ mem)]

/-- Every text with a letter in front has a first word, that text up to its first separator. -/
theorem exists_first (letter : sep c = false) (text : List α) :
    ∃ w rest, c :: text = w ++ rest ∧ IsWord sep w ∧ (∀ d ∈ rest.head?, sep d = true) ∧ w.head? = some c := by
  refine ⟨c :: text.takeWhile (!sep ·), text.dropWhile (!sep ·), ?_, ⟨by simp, ?_⟩, ?_, rfl⟩
  · rw [List.cons_append, List.takeWhile_append_dropWhile]
  · refine Free.cons (fun d mem => ?_) letter
    simpa using List.mem_takeWhile_imp mem
  · intro d first
    have stopped := List.head?_dropWhile_not (!sep ·) text
    rw [Option.mem_def.mp first] at stopped
    simpa using stopped

theorem mem_splitOnP_free {piece : List α} (mem : piece ∈ text.splitOnP sep) : Free sep piece := by
  induction text generalizing piece with
  | nil =>
    have same : piece = [] := by simpa using mem
    simp [same, Free]
  | cons c text ih =>
    rw [List.splitOnP_cons_eq_if_modifyHead] at mem
    obtain ⟨first, rest, parts⟩ := List.exists_cons_of_ne_nil (List.splitOnP_ne_nil sep text)
    rw [parts] at mem ih
    split at mem
    · rcases List.mem_cons.mp mem with rfl | mem
      · simp [Free]
      · exact ih mem
    · rename_i letter
      rcases List.mem_cons.mp mem with rfl | mem
      · exact Free.cons (ih (by simp)) (by simpa using letter)
      · exact ih (List.mem_cons_of_mem _ mem)

theorem isWord_of_mem (mem : w ∈ words sep text) : IsWord sep w := by
  obtain ⟨piece, some_⟩ := List.mem_filter.mp mem
  exact ⟨by simpa using some_, mem_splitOnP_free piece⟩

theorem words_eq_nil (blank : words sep text = []) : ∀ c ∈ text, sep c = true := by
  induction text with
  | nil => simp
  | cons c text ih =>
    cases is : sep c with
    | true => simpa [is] using ih (words_cons text is ▸ blank)
    | false =>
      obtain ⟨w, rest, parts, word, ends, -⟩ := exists_first is text
      rw [parts, words_first word ends] at blank
      cases blank

def trim (sep : α → Bool) (text : List α) : List α := (text.dropWhile sep).rdropWhile sep

theorem words_dropWhile (text : List α) : words sep (text.dropWhile sep) = words sep text := by
  have blank : words sep (text.takeWhile sep ++ text.dropWhile sep) = words sep (text.dropWhile sep) :=
    words_blank_append _ fun c mem => List.mem_takeWhile_imp mem
  rw [List.takeWhile_append_dropWhile] at blank
  exact blank.symm

theorem words_rdropWhile (text : List α) : words sep (text.rdropWhile sep) = words sep text := by
  induction text using List.reverseRecOn with
  | nil => rfl
  | append_singleton text c ih =>
    cases is : sep c with
    | true => rw [List.rdropWhile_concat_pos _ _ _ is, ih, words_snoc text is]
    | false => rw [List.rdropWhile_concat_neg _ _ _ (by simp [is])]

variable (sep) in
@[simp] theorem words_trim (text : List α) : words sep (trim sep text) = words sep text := by
  rw [trim, words_rdropWhile, words_dropWhile]

theorem trim_last : ∀ c ∈ (trim sep text).getLast?, sep c = false := by
  intro c last
  have some_ : trim sep text ≠ [] := by
    rintro none
    simp [none] at last
  have stopped := List.rdropWhile_last_not sep (text.dropWhile sep) some_
  rw [List.getLast?_eq_some_getLast some_, Option.mem_some_iff] at last
  simpa [← last, trim] using stopped

theorem trim_head : ∀ c ∈ (trim sep text).head?, sep c = false := by
  intro c first
  obtain ⟨rest, parts⟩ := List.rdropWhile_prefix sep (text.dropWhile sep)
  have same : (text.dropWhile sep).head? = some c := by
    rw [← parts, List.head?_append, show List.rdropWhile sep (text.dropWhile sep) = trim sep text from rfl,
      Option.mem_def.mp first]
    rfl
  have stopped := List.head?_dropWhile_not sep text
  rw [same] at stopped
  simpa using stopped

section Joined

variable {glue : α} (is : sep glue = true)

include is in
/-- Columns joined by a separator have the words of each. -/
theorem words_columns (columns : List (List α)) :
    words sep ([glue].intercalate columns) = columns.flatMap (words sep) := by
  induction columns with
  | nil => simp
  | cons column columns ih =>
    cases columns with
    | nil => simp
    | cons next columns =>
      rw [List.intercalate_cons_cons, List.append_assoc, List.singleton_append, words_append_cons _ _ is, ih,
        List.flatMap_cons (x := column)]

include is in
theorem words_joined {ws : List (List α)} (each : ∀ w ∈ ws, IsWord sep w) :
    words sep ([glue].intercalate ws) = ws := by
  rw [words_columns is]
  induction ws with
  | nil => rfl
  | cons w ws ih =>
    rw [List.flatMap_cons, words_word (each w List.mem_cons_self),
      ih fun w mem => each w (List.mem_cons_of_mem _ mem)]
    rfl

include is in
theorem joined_words_iff [DecidableEq α] (some_ : text ≠ []) :
    [glue].intercalate (words sep text) = text ↔ ∀ piece ∈ text.splitOn glue, IsWord sep piece := by
  constructor
  · intro same
    have several : words sep text ≠ [] := by
      intro none
      rw [none] at same
      exact some_ (by simpa using same.symm)
    have apart : ∀ w ∈ words sep text, glue ∉ w := by
      intro w mem inside
      simp [(isWord_of_mem mem).2 glue inside] at is
    have pieces := List.splitOn_intercalate glue apart several
    rw [same] at pieces
    rw [pieces]
    exact fun w mem => isWord_of_mem mem
  · intro each
    have same := words_joined is each
    rw [List.intercalate_splitOn] at same
    rw [same, List.intercalate_splitOn]

end Joined

section Tables

variable [DecidableEq α] {nl : α} (line : sep nl = true)

theorem splitOn_cons_self (text : List α) : (nl :: text).splitOn nl = [] :: text.splitOn nl := by
  simp [List.splitOn_cons_eq_if_modifyHead]

theorem splitOn_cons_other (other : c ≠ nl) (text : List α) :
    (c :: text).splitOn nl = (text.splitOn nl).modifyHead (c :: ·) := by
  simp [List.splitOn_cons_eq_if_modifyHead, other]

theorem splitOn_snoc_self (text : List α) : (text ++ [nl]).splitOn nl = text.splitOn nl ++ [[]] := by
  rw [List.splitOn_append_cons_self, List.splitOn_nil]

theorem splitOn_snoc_other (other : c ≠ nl) (text : List α) : ∃ init last,
    text.splitOn nl = init ++ [last] ∧ (text ++ [c]).splitOn nl = init ++ [last ++ [c]] := by
  induction text with
  | nil => exact ⟨[], [], by simp, by simp [splitOn_cons_other other]⟩
  | cons d text ih =>
    obtain ⟨init, last, parts, more⟩ := ih
    by_cases ends : d = nl
    · subst ends
      exact ⟨[] :: init, last, by simp [splitOn_cons_self, parts], by simp [splitOn_cons_self, more]⟩
    · cases init with
      | nil => exact ⟨[], d :: last,
          by simp [splitOn_cons_other ends, parts], by simp [splitOn_cons_other ends, more]⟩
      | cons first init =>
        exact ⟨(d :: first) :: init, last, by simp [splitOn_cons_other ends, parts],
          by simp [splitOn_cons_other ends, more]⟩

omit [DecidableEq α] in
include line in
theorem ne_of_letter (letter : sep c = false) : c ≠ nl := by
  rintro rfl
  simp [letter] at line

include line in
/-- What is cut off in front of a table is its blank lines. -/
theorem table_dropWhile (some_ : words sep text ≠ []) :
    ((text.dropWhile sep).splitOn nl).map (words sep) =
      ((text.splitOn nl).map (words sep)).dropWhile (·.isEmpty) := by
  induction text with
  | nil => simp at some_
  | cons c text ih =>
    obtain ⟨first, rest, parts⟩ := List.exists_cons_of_ne_nil (List.splitOn_ne_nil nl text)
    cases is : sep c with
    | true =>
      rw [words_cons text is] at some_
      rw [List.dropWhile_cons_of_pos is, ih some_]
      by_cases ends : c = nl
      · subst ends
        simp [splitOn_cons_self]
      · simp [splitOn_cons_other ends, parts, words_cons first is]
    | false =>
      obtain ⟨w, tail, front, word, ends, -⟩ := exists_first is first
      rw [List.dropWhile_cons_of_neg (by simp [is]), splitOn_cons_other (ne_of_letter line is)]
      simp [parts, front, words_first word ends]

include line in
/-- What is cut off behind a table is its blank lines. -/
theorem table_rdropWhile (some_ : words sep text ≠ []) :
    ((text.rdropWhile sep).splitOn nl).map (words sep) =
      ((text.splitOn nl).map (words sep)).rdropWhile (·.isEmpty) := by
  induction text using List.reverseRecOn with
  | nil => simp at some_
  | append_singleton text c ih =>
    cases is : sep c with
    | true =>
      rw [words_snoc text is] at some_
      rw [List.rdropWhile_concat_pos _ _ _ is, ih some_]
      by_cases ends : c = nl
      · subst ends
        rw [splitOn_snoc_self, List.map_append, List.map_singleton, words_nil, List.rdropWhile_concat_pos _ _ _ rfl]
      · obtain ⟨init, last, parts, more⟩ := splitOn_snoc_other ends text
        simp [parts, more, words_snoc last is]
    | false =>
      obtain ⟨init, last, parts, more⟩ := splitOn_snoc_other (ne_of_letter line is) text
      have some_ : words sep (last ++ [c]) ≠ [] := by
        intro none
        simpa [is] using words_eq_nil none c (by simp)
      rw [List.rdropWhile_concat_neg _ _ _ (by simp [is]), more, List.map_append, List.map_singleton,
        List.rdropWhile_concat_neg _ _ _ (by simpa using some_)]

include line in
theorem table_trim (some_ : words sep text ≠ []) :
    ((trim sep text).splitOn nl).map (words sep) =
      (((text.splitOn nl).map (words sep)).dropWhile (·.isEmpty)).rdropWhile (·.isEmpty) := by
  rw [trim, table_rdropWhile line (words_dropWhile text ▸ some_), table_dropWhile line some_]

omit [DecidableEq α] in
theorem filterMap_dropWhile {β : Type*} {f : List (List α) → Option β} (none_ : f [] = none)
    (table : List (List (List α))) : (table.dropWhile (·.isEmpty)).filterMap f = table.filterMap f := by
  induction table with
  | nil => rfl
  | cons row table ih =>
    cases row with
    | nil => simpa [none_] using ih
    | cons w row => rfl

omit [DecidableEq α] in
theorem filterMap_rdropWhile {β : Type*} {f : List (List α) → Option β} (none_ : f [] = none)
    (table : List (List (List α))) :
    (table.rdropWhile (·.isEmpty)).filterMap f = table.filterMap f := by
  induction table using List.reverseRecOn with
  | nil => rfl
  | append_singleton table row ih =>
    cases row with
    | nil => simpa [none_] using ih
    | cons w row => rw [List.rdropWhile_concat_neg _ _ _ (by simp)]

theorem words_of_blank_table (blank : words sep text = []) :
    ∀ row ∈ (text.splitOn nl).map (words sep), row = [] := by
  induction text with
  | nil => simp
  | cons c text ih =>
    have is : sep c = true := words_eq_nil blank c List.mem_cons_self
    rw [words_cons text is] at blank
    by_cases ends : c = nl
    · subst ends
      simpa [splitOn_cons_self] using ih blank
    · obtain ⟨first, rest, parts⟩ := List.exists_cons_of_ne_nil (List.splitOn_ne_nil nl text)
      have each := ih blank
      rw [parts] at each
      simpa [splitOn_cons_other ends, parts, words_cons first is] using each

theorem rows_of_blank {β : Type*} {f : List (List α) → Option β} (none_ : f [] = none)
    (blank : words sep text = []) : (text.splitOn nl).filterMap (f ∘ words sep) = [] := by
  rw [← List.filterMap_map]
  refine List.filterMap_eq_nil_iff.mpr fun row mem => ?_
  rw [words_of_blank_table blank row mem, none_]

include line in
/-- A table without a title, its rows read off the lines that are not blank. -/
theorem rows_trim {β : Type*} {f : List (List α) → Option β} (none_ : f [] = none) (text : List α) :
    ((trim sep text).splitOn nl).filterMap (f ∘ words sep) = (text.splitOn nl).filterMap (f ∘ words sep) := by
  by_cases blank : words sep text = []
  · have gone : trim sep text = [] := by
      rw [trim, List.dropWhile_eq_nil_iff.mpr (words_eq_nil blank), List.rdropWhile_nil]
    rw [rows_of_blank none_ blank, gone]
    exact rows_of_blank none_ words_nil
  · rw [← List.filterMap_map, table_trim line blank, filterMap_rdropWhile none_, filterMap_dropWhile none_,
      List.filterMap_map]

omit [DecidableEq α] in
theorem rdropWhile_cons {row : List (List α)} (some_ : row ≠ []) (table : List (List (List α))) :
    (row :: table).rdropWhile (·.isEmpty) = row :: table.rdropWhile (·.isEmpty) := by
  induction table using List.reverseRecOn with
  | nil =>
    rw [List.rdropWhile_nil, List.rdropWhile_singleton, if_neg (by simpa using some_)]
  | append_singleton table last ih =>
    rw [← List.cons_append, List.rdropWhile_concat, List.rdropWhile_concat]
    split
    · exact ih
    · rfl

include line in
theorem rows_titled {β : Type*} {f : List (List α) → Option β} (none_ : f [] = none) {title : List α}
    (shown : words sep title ≠ []) (whole : nl ∉ title) (text : List α) :
    (((trim sep (title ++ nl :: text)).splitOn nl).drop 1).filterMap (f ∘ words sep) =
      (text.splitOn nl).filterMap (f ∘ words sep) := by
  have some_ : words sep (title ++ nl :: text) ≠ [] := by
    rw [words_append_cons title text line]
    simp [shown]
  rw [← List.filterMap_map, List.map_drop, table_trim line some_,
    List.splitOn_append_cons_self_of_not_mem whole, List.map_cons,
    List.dropWhile_cons_of_neg (by simpa using shown), rdropWhile_cons shown, List.drop_one, List.tail_cons,
    filterMap_rdropWhile none_, List.filterMap_map]

theorem splitOn_lines {lines : List (List α)} (whole : ∀ l ∈ lines, nl ∉ l) (text : List α) :
    (lines.flatMap (· ++ [nl]) ++ text).splitOn nl = lines ++ text.splitOn nl := by
  induction lines with
  | nil => rfl
  | cons l lines ih =>
    have front : ((l :: lines).flatMap (· ++ [nl]) ++ text).splitOn nl =
        (l ++ nl :: (lines.flatMap (· ++ [nl]) ++ text)).splitOn nl := by simp
    rw [front, List.splitOn_append_cons_self_of_not_mem (whole l List.mem_cons_self),
      ih fun l mem => whole l (List.mem_cons_of_mem _ mem), List.cons_append]

include line in
theorem rows_lines {lines : List (List α)} (some_ : lines ≠ []) (whole : ∀ l ∈ lines, nl ∉ l)
    (shown : ∀ l ∈ lines, words sep l ≠ []) :
    ((trim sep (lines.flatMap (· ++ [nl]))).splitOn nl).map (words sep) = lines.map (words sep) := by
  obtain ⟨first, rest, rfl⟩ := List.exists_cons_of_ne_nil some_
  have front := shown first List.mem_cons_self
  have more : words sep ((first :: rest).flatMap (· ++ [nl])) ≠ [] := by
    rw [List.flatMap_cons, List.append_assoc, List.singleton_append, words_append_cons first _ line]
    simp [front]
  have pieces := splitOn_lines whole []
  rw [List.append_nil, List.splitOn_nil] at pieces
  rw [table_trim line more, pieces, List.map_append, List.map_singleton, words_nil, List.map_cons, List.cons_append,
    List.dropWhile_cons_of_neg (by simpa using front), ← List.cons_append, List.rdropWhile_concat_pos _ _ _ rfl,
    ← List.map_cons]
  refine List.rdropWhile_eq_self_iff.mpr fun several => ?_
  rw [List.getLast_map]
  simpa using shown _ (List.getLast_mem _)

end Tables

theorem idxOf?_first [BEq α] [LawfulBEq α] (apart : c ∉ a) (b : List α) :
    (a ++ c :: b).idxOf? c = some a.length := by
  induction a with
  | nil => simp [List.idxOf?_cons]
  | cons d a ih =>
    have other : d ≠ c := fun same => apart (same ▸ List.mem_cons_self)
    have rest := ih fun mem => apart (List.mem_cons_of_mem _ mem)
    simp [List.idxOf?_cons, other, rest]

end Machinen.Words
