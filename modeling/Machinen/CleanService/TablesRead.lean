import Machinen.CleanService.KernelTables
import Machinen.Lib.Words

/-! The tables of sockets, mappings and processes as the scanner reads them: each row is right exactly
when the name in it does not look like several columns. -/
namespace Machinen.CleanService

open Words
open Runtime.Multiplex

variable {text : Text} {radix : Nat}

theorem splitSpacesFrom_words (some_ : text ≠ []) (last : ∀ c ∈ text.getLast?, isSpace c = false) :
    splitSpacesFrom true text = words isSpace text ∧
      ((∀ c ∈ text.head?, isSpace c = false) → splitSpacesFrom false text = words isSpace text) := by
  induction text with
  | nil => exact absurd rfl some_
  | cons c text ih =>
    cases text with
    | nil =>
      have letter : isSpace c = false := last c rfl
      have word : words isSpace [c] = [[c]] := words_word ⟨by simp, by simp [Free, letter]⟩
      simp [splitSpacesFrom, letter, consHead, word]
    | cons d text =>
      obtain ⟨within, front⟩ := ih (by simp) (by simpa using last)
      cases is : isSpace c with
      | true =>
        refine ⟨?_, fun letter => by simp [is] at letter⟩
        rw [splitSpacesFrom, if_pos is, if_pos rfl, within, words_cons _ is]
      | false =>
        have on : consHead c (splitSpacesFrom false (d :: text)) = words isSpace (c :: d :: text) := by
          cases next : isSpace d with
          | true =>
            have gap : splitSpacesFrom false (d :: text) = [] :: splitSpacesFrom true text := by
              simp [splitSpacesFrom, next]
            have skip : splitSpacesFrom true (d :: text) = splitSpacesFrom true text := by
              simp [splitSpacesFrom, next]
            have word : IsWord isSpace [c] := ⟨by simp, by simp [Free, is]⟩
            rw [gap, ← skip, within, consHead]
            exact (congrArg _ (words_cons text next)).trans (words_word_cons word next text).symm
          | false =>
            obtain ⟨w, tail, parts, word, ends, -⟩ := exists_first next text
            rw [front (by simpa using next), words_letter text is next, parts, words_first word ends]
            rfl
        have letter (gap : Bool) : splitSpacesFrom gap (c :: d :: text) =
          consHead c (splitSpacesFrom false (d :: text)) := by
          rw [splitSpacesFrom, if_neg (by simp [is])]
        exact ⟨(letter true).trans on, fun _ => (letter false).trans on⟩

theorem trim_eq (text : Text) : trim text = Words.trim isSpace text := rfl

theorem columns_blank {line : Text} (blank : words isSpace line = []) : columns line = [[]] := by
  rw [columns, trim_eq, Words.trim, List.dropWhile_eq_nil_iff.mpr (words_eq_nil blank), List.rdropWhile_nil]
  rfl

/-- A line that is not blank is split into its words. -/
theorem columns_words {line : Text} (some_ : words isSpace line ≠ []) : columns line = words isSpace line := by
  have same := words_trim isSpace line
  have more : Words.trim isSpace line ≠ [] := by
    intro none
    rw [none, words_nil] at same
    exact some_ same.symm
  have front : ∀ c ∈ (Words.trim isSpace line).head?, isSpace c = false := trim_head
  have last : ∀ c ∈ (Words.trim isSpace line).getLast?, isSpace c = false := trim_last
  rw [columns, trim_eq, splitSpaces, (splitSpacesFrom_words more last).2 front, same]

/-- The row of a line with these words, when they are enough. -/
def rowOf {β : Type} (least : Nat) (read : List Text → β) (ws : List Text) : Option β :=
  if ws.length ≥ least + 2 then some (read ws) else none

/-- Rows that need several columns are read off the words of the lines. -/
theorem rows_columns {β : Type} (least : Nat) (read : List Text → β) (lines : List Text) :
    ((lines.map columns).filter (·.length ≥ least + 2)).map read =
      lines.filterMap (rowOf least read ∘ words isSpace) := by
  induction lines with
  | nil => rfl
  | cons line lines ih =>
    by_cases blank : words isSpace line = []
    · simpa [columns_blank blank, blank, rowOf] using ih
    · by_cases many : (words isSpace line).length ≥ least + 2
      · simpa [columns_words blank, many, rowOf] using ih
      · simpa [columns_words blank, many, rowOf] using ih

def digit (upper : Bool) (d : Nat) : Char := if upper then (Nat.digitChar d).toUpper else Nat.digitChar d

theorem digit_value : ∀ upper, ∀ d < 16, digitValue (digit upper d) = d := by decide

theorem digit_isSpace : ∀ upper, ∀ d < 16, isSpace (digit upper d) = false := by decide

theorem digits_eq (several : 2 ≤ radix) (upper : Bool) (n : Nat) : digits upper radix n =
    if n < radix then [digit upper n] else digits upper radix (n / radix) ++ [digit upper (n % radix)] := by
  by_cases small : n < radix
  · rw [if_pos small, digits, Nat.toDigits_of_lt_base small, List.map_singleton, digit]
  · rw [if_neg small, digits, Nat.toDigits_of_base_le (by omega) (by omega), List.map_append, List.map_singleton,
      digits, digit]

/-- Which characters a figure is made of, and what it stands for. -/
theorem digits_spec (several : 2 ≤ radix) (few : radix ≤ 16) (upper : Bool) (n : Nat) :
    digits upper radix n ≠ [] ∧ (∀ c ∈ digits upper radix n, ∃ d < radix, c = digit upper d) ∧
      digitsValue radix (digits upper radix n) = n := by
  induction n using Nat.strongRecOn with
  | ind n ih =>
    rw [digits_eq several]
    split
    · rename_i small
      refine ⟨by simp, fun c mem => ⟨n, small, List.mem_singleton.mp mem⟩, ?_⟩
      simp [digitsValue, digit_value upper n (by omega)]
    · rename_i large
      obtain ⟨some_, each, value⟩ := ih (n / radix) (Nat.div_lt_self (by omega) (by omega))
      have below := Nat.mod_lt n (show 0 < radix by omega)
      refine ⟨by simp, fun c mem => ?_, ?_⟩
      · rcases List.mem_append.mp mem with high | low
        · exact each c high
        · exact ⟨n % radix, below, List.mem_singleton.mp low⟩
      · rw [digitsValue, List.foldl_append]
        simp only [List.foldl_cons, List.foldl_nil]
        rw [← digitsValue, value, digit_value upper _ (by omega)]
        exact Nat.div_add_mod n radix

theorem digits_digitOf (several : 2 ≤ radix) (few : radix ≤ 16) (upper : Bool) (n : Nat) :
    ∀ c ∈ digits upper radix n, isDigitOf radix c = true := by
  intro c mem
  obtain ⟨d, small, rfl⟩ := (digits_spec several few upper n).2.1 c mem
  simpa [isDigitOf, digit_value upper d (by omega)] using small

theorem digits_isWord (several : 2 ≤ radix) (few : radix ≤ 16) (upper : Bool) (n : Nat) :
    IsWord isSpace (digits upper radix n) := by
  refine ⟨(digits_spec several few upper n).1, fun c mem => ?_⟩
  obtain ⟨d, small, rfl⟩ := (digits_spec several few upper n).2.1 c mem
  exact digit_isSpace upper d (by omega)

theorem words_padStart (width : Nat) (text : Text) : words isSpace (padStart width ' ' text) = words isSpace text :=
  words_padding _ rfl _

theorem words_padEnd (width : Nat) (text : Text) : words isSpace (padEnd width ' ' text) = words isSpace text :=
  words_append_blank _ fun c mem => by rw [List.eq_of_mem_replicate mem]; rfl

theorem padStart_isWord {width : Nat} (word : IsWord isSpace text) :
    IsWord isSpace (padStart width '0' text) := by
  refine ⟨by simp [padStart, word.1], Free.append (fun c mem => ?_) word.2⟩
  rw [List.eq_of_mem_replicate mem]
  rfl

theorem decimal_isWord (n : Nat) : IsWord isSpace (decimal n) := digits_isWord (by decide) (by decide) false n

theorem upperHex_isWord (width n : Nat) : IsWord isSpace (upperHex width n) :=
  padStart_isWord (digits_isWord (by decide) (by decide) true n)

theorem lowerHex_isWord (width n : Nat) : IsWord isSpace (lowerHex width n) :=
  padStart_isWord (digits_isWord (by decide) (by decide) false n)

theorem signed_isWord (n : Int) : IsWord isSpace (signed n) := by
  unfold signed
  split
  · exact ⟨by simp, (decimal_isWord _).2.cons rfl⟩
  · exact decimal_isWord _

theorem word_line {w : Text} (word : IsWord isSpace w) : '\n' ∉ w := fun mem => absurd (word.2 _ mem) (by decide)

theorem padStart_line {width : Nat} (line : '\n' ∉ text) : '\n' ∉ padStart width ' ' text := by
  intro mem
  rcases List.mem_append.mp mem with fill | mem
  · exact absurd (List.eq_of_mem_replicate fill) (by decide)
  · exact line mem

theorem padEnd_line {width : Nat} (line : '\n' ∉ text) : '\n' ∉ padEnd width ' ' text := by
  intro mem
  rcases List.mem_append.mp mem with mem | fill
  · exact line mem
  · exact absurd (List.eq_of_mem_replicate fill) (by decide)

theorem spaced_free {c : Char} (other : c ≠ ' ') {columns : List Text} (each : ∀ column ∈ columns, c ∉ column) :
    c ∉ spaced columns := by
  induction columns with
  | nil => simp [spaced]
  | cons column columns ih =>
    have rest := ih fun more mem => each more (List.mem_cons_of_mem _ mem)
    cases columns with
    | nil => simpa [spaced] using each column
    | cons next columns =>
      have parts : spaced (column :: next :: columns) = column ++ [' '] ++ spaced (next :: columns) :=
        List.intercalate_cons_cons
      simpa [parts, each column, other] using rest

theorem spaced_line {columns : List Text} (each : ∀ column ∈ columns, '\n' ∉ column) : '\n' ∉ spaced columns :=
  spaced_free (by decide) each

theorem trimStart_word (word : IsWord isSpace text) : trimStart text = text := by
  obtain ⟨some_, free⟩ := word
  cases text with
  | nil => rfl
  | cons c text => rw [trimStart, List.dropWhile_cons_of_neg (by simp [free c List.mem_cons_self])]

theorem trim_word (word : IsWord isSpace text) : Runtime.Multiplex.trim text = text := by
  rw [Runtime.Multiplex.trim, trimStart_word word]
  refine List.rdropWhile_eq_self_iff.mpr fun some_ => ?_
  simp [word.2 _ (List.getLast_mem some_)]

theorem sign_digits (each : ∀ c ∈ text, isDigitOf 16 c = true) : sign text = (false, text) := by
  unfold sign
  split
  · exact absurd (each '-' (by simp)) (by decide)
  · exact absurd (each '+' (by simp)) (by decide)
  · rfl

theorem parseInt16_digits (word : IsWord isSpace text) (each : ∀ c ∈ text, isDigitOf 16 c = true) :
    parseInt16 text = some (digitsValue 16 text) := by
  have all : text.takeWhile (isDigitOf 16) = text := List.takeWhile_eq_self_iff.mpr each
  unfold parseInt16
  rw [trimStart_word word, sign_digits each]
  dsimp only
  split
  · exact absurd (each 'x' (by simp)) (by decide)
  · exact absurd (each 'X' (by simp)) (by decide)
  · rw [all, if_neg word.1]
    rfl

theorem unsignedDecimal_digits (some_ : text ≠ []) (each : ∀ c ∈ text, isDigitOf 10 c = true) :
    unsignedDecimal text = some (digitsValue 10 text) := by
  have all : text.takeWhile (isDigitOf 10) = text := List.takeWhile_eq_self_iff.mpr each
  have none_ : text.dropWhile (isDigitOf 10) = [] := List.dropWhile_eq_nil_iff.mpr each
  simp [unsignedDecimal, all, none_, some_]

theorem number_digits (word : IsWord isSpace text) (each : ∀ c ∈ text, isDigitOf 10 c = true) :
    number text = .finite (digitsValue 10 text) := by
  have wide : ∀ c ∈ text, isDigitOf 16 c = true := by
    intro c mem
    have small := each c mem
    simp only [isDigitOf, decide_eq_true_eq] at small ⊢
    omega
  have named : text ≠ "Infinity".toList := by
    rintro rfl
    exact absurd (each 'I' (by decide)) (by decide)
  have finite : signedDecimal text = .finite (digitsValue 10 text) := by
    unfold signedDecimal
    rw [sign_digits wide]
    dsimp only
    rw [if_neg named, unsignedDecimal_digits word.1 each]
    rfl
  unfold number
  rw [trim_word word]
  split
  · exact absurd rfl word.1
  · exact absurd (each 'x' (by simp)) (by decide)
  · exact absurd (each 'X' (by simp)) (by decide)
  · exact absurd (each 'o' (by simp)) (by decide)
  · exact absurd (each 'O' (by simp)) (by decide)
  · exact absurd (each 'b' (by simp)) (by decide)
  · exact absurd (each 'B' (by simp)) (by decide)
  · exact finite

theorem number_decimal (n : Nat) : number (decimal n) = .finite n := by
  rw [number_digits (decimal_isWord n) (digits_digitOf (by decide) (by decide) false n), decimal,
    (digits_spec (by decide) (by decide) false n).2.2]

theorem upperHex_digitOf (width n : Nat) : ∀ c ∈ upperHex width n, isDigitOf 16 c = true := by
  intro c mem
  rcases List.mem_append.mp mem with fill | mem
  · rw [List.eq_of_mem_replicate fill]
    decide
  · exact digits_digitOf (by decide) (by decide) true n c mem

theorem digitsValue_padStart (radix width : Nat) (text : Text) :
    digitsValue radix (padStart width '0' text) = digitsValue radix text := by
  unfold digitsValue padStart
  rw [List.foldl_append]
  congr 1
  induction width - text.length with
  | zero => rfl
  | succ n ih => simpa [List.replicate_succ, digitValue] using ih

theorem parseInt16_upperHex (width n : Nat) : parseInt16 (upperHex width n) = some n := by
  rw [parseInt16_digits (upperHex_isWord width n) (upperHex_digitOf width n), upperHex, digitsValue_padStart,
    (digits_spec (by decide) (by decide) true n).2.2]

namespace TcpSocket

variable (s : TcpSocket)

theorem endpoint_isWord (address : List UInt32) (port : UInt16) : IsWord isSpace (endpoint address port) := by
  refine ⟨by simp [endpoint], Free.append (fun c mem => ?_) ((upperHex_isWord _ _).2.cons rfl)⟩
  obtain ⟨part, -, mem⟩ := List.mem_flatMap.mp mem
  exact (upperHex_isWord _ _).2 c mem

theorem port_read (address : List UInt32) (port : UInt16) :
    (((endpoint address port).splitOn ':')[1]?).bind parseInt16 = some (port.toNat : Int) := by
  have apart : ':' ∉ address.flatMap (upperHex 8 ·.toNat) := by
    intro mem
    obtain ⟨part, -, mem⟩ := List.mem_flatMap.mp mem
    exact absurd (upperHex_digitOf _ _ _ mem) (by decide)
  have whole : ':' ∉ upperHex 4 port.toNat := fun mem => absurd (upperHex_digitOf _ _ _ mem) (by decide)
  rw [endpoint, List.splitOn_append_cons_self_of_not_mem apart, List.splitOn_eq_singleton whole]
  exact parseInt16_upperHex 4 port.toNat

theorem words_line : words isSpace s.line =
    [decimal s.slot ++ [':'], endpoint s.localAddress s.localPort, endpoint s.remoteAddress s.remotePort,
      upperHex 2 s.state.toNat, upperHex 8 s.txQueue.toNat ++ ':' :: upperHex 8 s.rxQueue.toNat,
      upperHex 2 s.timer.toNat ++ ':' :: upperHex 8 s.expires.toNat, upperHex 8 s.retransmits.toNat,
      decimal s.uid.toNat, decimal s.timeout, decimal s.inode.toNat, decimal s.refcount,
      lowerHex 16 s.pointer.toNat] ++ s.figures.map signed := by
  have slot : words isSpace (padStart 4 ' ' (decimal s.slot) ++ [':']) = [decimal s.slot ++ [':']] := by
    rw [padStart, List.append_assoc, words_padding _ rfl, words_word ((decimal_isWord _).snoc ':' rfl)]
  have figures : (s.figures.map signed).flatMap (words isSpace) = s.figures.map signed := by
    refine (List.flatMap_congr fun w mem => ?_).trans (List.flatMap_singleton' _)
    obtain ⟨n, -, rfl⟩ := List.mem_map.mp mem
    exact words_word (signed_isWord n)
  rw [line, words_padEnd, spaced, words_columns rfl, columns, List.flatMap_append, figures]
  simp only [List.flatMap_cons, List.flatMap_nil, slot, words_word (endpoint_isWord _ _),
    words_word (upperHex_isWord _ _), words_word ((upperHex_isWord _ _).joined ':' rfl (upperHex_isWord _ _)),
    words_padStart, words_word (decimal_isWord _), words_word (lowerHex_isWord _ _)]
  rfl

theorem columns_line : ∀ column ∈ s.columns, '\n' ∉ column := by
  simp only [columns, List.cons_append, List.nil_append, List.forall_mem_cons]
  refine ⟨?_, word_line (endpoint_isWord _ _), word_line (endpoint_isWord _ _), word_line (upperHex_isWord _ _),
    word_line ((upperHex_isWord _ _).joined ':' rfl (upperHex_isWord _ _)),
    word_line ((upperHex_isWord _ _).joined ':' rfl (upperHex_isWord _ _)), word_line (upperHex_isWord _ _),
    padStart_line (word_line (decimal_isWord _)), padStart_line (word_line (decimal_isWord _)),
    word_line (decimal_isWord _),
    word_line (decimal_isWord _), word_line (lowerHex_isWord _ _), ?_⟩
  · simpa using padStart_line (word_line (decimal_isWord _))
  · intro column mem
    obtain ⟨n, -, rfl⟩ := List.mem_map.mp mem
    exact word_line (signed_isWord n)

theorem line_line : '\n' ∉ s.line := padEnd_line (spaced_line s.columns_line)

theorem words_title : words isSpace title ≠ [] := by
  intro none
  exact absurd (words_eq_nil none 's' (by decide)) (by decide)

end TcpSocket

/-- Nothing in the table of sockets of the internet can be misread. -/
theorem parseTcpTable_eq (k : Kernel) : parseTcpTable k.tcpTable = k.tcp.map TcpSocket.row := by
  have titled : words isSpace (padEnd 149 ' ' TcpSocket.title) ≠ [] := by
    rw [words_padEnd]
    exact TcpSocket.words_title
  have whole : '\n' ∉ padEnd 149 ' ' TcpSocket.title := padEnd_line (by decide)
  have each_line : ∀ line ∈ k.tcp.map TcpSocket.line, '\n' ∉ line := by simp [TcpSocket.line_line]
  have lines := splitOn_lines each_line []
  rw [List.append_nil, List.splitOn_nil, List.flatMap_map] at lines
  have each (s : TcpSocket) : rowOf 8 tcpRow (words isSpace s.line) = some s.row := by
    rw [TcpSocket.words_line, rowOf, if_pos (by simp)]
    simp only [tcpRow, TcpSocket.row, List.cons_append, List.getD_cons_succ, List.getD_cons_zero]
    rw [TcpSocket.port_read]
  unfold parseTcpTable tableLines Kernel.tcpTable
  refine (rows_columns 8 tcpRow _).trans ?_
  rw [trim_eq, rows_titled rfl rfl titled whole, lines, List.filterMap_append, List.filterMap_map]
  simp only [Function.comp_def, each]
  simp [rowOf]

/-- Rows whose text ends in a name, each followed by the rest of the table. -/
theorem rows_named {α β : Type} {f : List Text → Option β} (none_ : f [] = none) {shown : α → Text} {row : α → β}
    {Legible : α → Prop}
    (first : ∀ a, ∃ got, f (words isSpace (((shown a).splitOn '\n').headD [])) = some got ∧
    (got = row a ↔ Legible a))
    (whole : ∀ a, Legible a → '\n' ∉ shown a) (as : List α) :
    ((as.flatMap fun a => shown a ++ ['\n']).splitOn '\n').filterMap (f ∘ words isSpace) = as.map row ↔
      ∀ a ∈ as, Legible a := by
  induction as with
  | nil => simp [none_]
  | cons a as ih =>
    have parts : ((a :: as).flatMap fun a => shown a ++ ['\n']) =
        shown a ++ '\n' :: as.flatMap fun a => shown a ++ ['\n'] := by simp
    obtain ⟨got, read, right⟩ := first a
    obtain ⟨line, more, lines⟩ := List.exists_cons_of_ne_nil (List.splitOn_ne_nil '\n' (shown a))
    rw [lines, List.headD_cons] at read
    rw [parts, List.splitOn_append_cons_self, lines, List.filterMap_append, List.filterMap_cons, Function.comp_apply,
      read, List.map_cons, List.forall_mem_cons, ← ih, ← right]
    dsimp only
    constructor
    · intro same
      obtain ⟨head, tail⟩ := List.cons.inj same
      have single := List.splitOn_eq_singleton (whole a (right.mp head))
      rw [lines] at single
      obtain ⟨-, rfl⟩ := List.cons.inj single
      exact ⟨head, tail⟩
    · rintro ⟨rfl, tail⟩
      have single := List.splitOn_eq_singleton (whole a (right.mp rfl))
      rw [lines] at single
      obtain ⟨-, rfl⟩ := List.cons.inj single
      rw [tail]
      rfl

theorem splitOn_headD {a : Text} (line : '\n' ∉ a) (b : Text) :
    ((a ++ b).splitOn '\n').headD [] = a ++ (b.splitOn '\n').headD [] := by
  induction a with
  | nil => rfl
  | cons c a ih =>
    have other : c ≠ '\n' := fun same => line (same ▸ List.mem_cons_self)
    have more := ih fun mem => line (List.mem_cons_of_mem _ mem)
    obtain ⟨first, rest, parts⟩ := List.exists_cons_of_ne_nil (List.splitOn_ne_nil '\n' (a ++ b))
    rw [parts] at more
    rw [List.cons_append, splitOn_cons_other other, parts]
    exact congrArg (c :: ·) more

namespace UnixSocket

variable (s : UnixSocket)

/-- A name that is one column. -/
def Legible : Prop := ∀ path, s.path = some path → IsWord isSpace path

def columnWords : List Text :=
  [lowerHex 16 s.pointer.toNat ++ [':'], upperHex 8 s.refcount.toNat, upperHex 8 s.protocol.toNat,
    upperHex 8 s.flags.toNat, upperHex 4 s.type.toNat, upperHex 2 s.state.toNat, decimal s.inode.toNat]

theorem words_columns : words isSpace (spaced s.columns) = s.columnWords := by
  rw [spaced, Words.words_columns rfl, columns]
  simp only [List.flatMap_cons, List.flatMap_nil, words_word ((lowerHex_isWord _ _).snoc ':' rfl),
    words_word (upperHex_isWord _ _), words_padStart, words_word (decimal_isWord _)]
  rfl

theorem columns_line : '\n' ∉ spaced s.columns := by
  refine spaced_line ?_
  simp only [columns, List.forall_mem_cons]
  exact ⟨word_line ((lowerHex_isWord _ _).snoc ':' rfl), word_line (upperHex_isWord _ _),
    word_line (upperHex_isWord _ _), word_line (upperHex_isWord _ _), word_line (upperHex_isWord _ _),
    word_line (upperHex_isWord _ _), padStart_line (word_line (decimal_isWord _)), by simp⟩

theorem shown_named {path : Text} : spaced (s.columns ++ [path]) = spaced s.columns ++ ' ' :: path := by
  simp [spaced, columns, List.intercalate_cons_cons]

/-- The name begins an eighth column, and is read as far as that goes. -/
theorem words_shown : words isSpace ((s.shown.splitOn '\n').headD []) =
    s.columnWords ++ s.path.elim [] fun path => words isSpace ((path.splitOn '\n').headD []) := by
  unfold shown
  cases s.path with
  | none =>
    rw [Option.toList_none, List.append_nil, List.splitOn_eq_singleton s.columns_line, List.headD_cons,
      s.words_columns]
    simp
  | some path =>
    have apart : (' ' :: path).splitOn '\n' = (path.splitOn '\n').modifyHead (' ' :: ·) :=
      splitOn_cons_other (by decide) path
    obtain ⟨first, rest, pieces⟩ := List.exists_cons_of_ne_nil (List.splitOn_ne_nil '\n' path)
    rw [Option.toList_some, s.shown_named, splitOn_headD s.columns_line, apart, pieces]
    refine (words_append_cons _ _ rfl).trans ?_
    rw [s.words_columns, Option.elim_some, pieces, List.headD_cons]

theorem row_read : ∃ got, rowOf 5 unixSocketRow (words isSpace ((s.shown.splitOn '\n').headD [])) = some got ∧
    (got = s.row ↔ s.Legible) := by
  rw [s.words_shown]
  generalize same : s.path.elim [] (fun path => words isSpace ((path.splitOn '\n').headD [])) = names
  refine ⟨unixSocketRow (s.columnWords ++ names), if_pos (by simp [columnWords]), ?_⟩
  have read : unixSocketRow (s.columnWords ++ names) = s.row ↔ names.head? = s.path := by
    cases names <;> simp [unixSocketRow, columnWords, row]
  rw [read, ← same]
  unfold Legible
  cases s.path with
  | none => simp
  | some path =>
    simp only [Option.elim_some, Option.some.injEq, forall_eq']
    constructor
    · intro first
      exact isWord_of_mem (List.mem_of_mem_head? first)
    · intro word
      rw [List.splitOn_eq_singleton (word_line word), List.headD_cons, words_word word]
      rfl

theorem shown_line (legible : s.Legible) : '\n' ∉ s.shown := by
  unfold shown
  cases is : s.path with
  | none => simpa using s.columns_line
  | some path =>
    have name := word_line (legible path is)
    simp [shown_named, s.columns_line, name]

theorem words_title : words isSpace title ≠ [] := by
  intro none
  exact absurd (words_eq_nil none 'N' (by decide)) (by decide)

end UnixSocket

theorem parseUnixSocketTable_iff (k : Kernel) :
    parseUnixSocketTable k.unixTable = k.unix.map UnixSocket.row ↔ ∀ s ∈ k.unix, s.Legible := by
  have whole : '\n' ∉ UnixSocket.title := by decide
  have table : parseUnixSocketTable k.unixTable =
      ((k.unix.flatMap fun s => s.shown ++ ['\n']).splitOn '\n').filterMap
      (rowOf 5 unixSocketRow ∘ words isSpace) := by
    refine (rows_columns 5 unixSocketRow _).trans ?_
    rw [tableLines, Kernel.unixTable, trim_eq, rows_titled rfl rfl UnixSocket.words_title whole]
  rw [table]
  exact rows_named rfl UnixSocket.row_read UnixSocket.shown_line k.unix

namespace Mapping

variable (m : Mapping)

/-- A name whose words stand one space apart, without any other white space. -/
def Legible : Prop := ∀ path, m.path = some path → ∀ piece ∈ path.splitOn ' ', IsWord isSpace piece

theorem permissions_isWord (p : Permissions) : IsWord isSpace p.text := by
  obtain ⟨read, write, execute, shared⟩ := p
  cases read <;> cases write <;> cases execute <;> cases shared <;> simp [IsWord, Free, Permissions.text, isSpace]

theorem columns_isWord : ∀ column ∈ m.columns, IsWord isSpace column := by
  simp only [columns, List.forall_mem_cons]
  exact ⟨(lowerHex_isWord _ _).joined '-' rfl (lowerHex_isWord _ _), permissions_isWord _, lowerHex_isWord _ _,
    (lowerHex_isWord _ _).joined ':' rfl (lowerHex_isWord _ _), decimal_isWord _, by simp⟩

def front : Text := spaced m.columns ++ [' ']

theorem words_front (width : Nat) : words isSpace (padEnd width ' ' m.front) = m.columns := by
  rw [words_padEnd, front, words_snoc _ rfl, spaced, words_joined rfl m.columns_isWord]

theorem front_line (width : Nat) : '\n' ∉ padEnd width ' ' m.front := by
  refine padEnd_line ?_
  simpa [front] using spaced_line fun column mem => word_line (m.columns_isWord column mem)

/-- The front of the line, and the words of the name as far as its first line goes. -/
theorem words_shown : words isSpace ((m.shown.splitOn '\n').headD []) =
    m.columns ++ m.path.elim [] fun path => words isSpace ((path.splitOn '\n').headD []) := by
  unfold shown
  cases m.path with
  | none =>
    have line : '\n' ∉ m.front := by simpa [padEnd] using m.front_line 0
    have front := m.words_front 0
    rw [padEnd, show 0 - m.front.length = 0 by omega, List.replicate_zero, List.append_nil] at front
    change words isSpace ((m.front.splitOn '\n').headD []) = _
    rw [List.splitOn_eq_singleton line, List.headD_cons, front]
    simp
  | some path =>
    change words isSpace (((padEnd 73 ' ' m.front ++ path).splitOn '\n').headD []) = _
    have padded (rest : Text) : padEnd 73 ' ' m.front ++ rest =
        spaced m.columns ++ ' ' :: (List.replicate (73 - m.front.length) ' ' ++ rest) := by
      simp [padEnd, front]
    rw [splitOn_headD (m.front_line 73), padded, words_append_cons _ _ rfl, words_padding _ rfl, spaced,
      words_joined rfl m.columns_isWord]
    rfl

/-- A name is given back by its words exactly when one space stands between any two. -/
theorem orUndefined_iff (path : Text) :
    orUndefined ([' '].intercalate (words isSpace ((path.splitOn '\n').headD []))) = some path ↔
      ∀ piece ∈ path.splitOn ' ', IsWord isSpace piece := by
  have joined : path ≠ [] → '\n' ∉ path →
      ([' '].intercalate (words isSpace ((path.splitOn '\n').headD [])) = path ↔
        ∀ piece ∈ path.splitOn ' ', IsWord isSpace piece) := by
    intro some_ line
    rw [List.splitOn_eq_singleton line, List.headD_cons]
    exact joined_words_iff rfl some_
  unfold orUndefined
  constructor
  · intro read
    split at read
    · cases read
    · rename_i some_
      have same := Option.some.inj read
      have line : '\n' ∉ path := same ▸ spaced_line fun w mem => word_line (isWord_of_mem mem)
      exact (joined (same ▸ some_) line).mp same
  · intro each
    have some_ : path ≠ [] := by
      rintro rfl
      exact (each [] (by simp)).1 rfl
    have line : '\n' ∉ path := by
      have line := spaced_line fun piece mem => word_line (each piece mem)
      rwa [spaced, List.intercalate_splitOn] at line
    have same := (joined some_ line).mpr each
    rw [same, if_neg some_]

theorem row_read : ∃ got, rowOf 0 memoryMapRow (words isSpace ((m.shown.splitOn '\n').headD [])) = some got ∧
    (got = m.row ↔ m.Legible) := by
  rw [m.words_shown]
  generalize same : m.path.elim [] (fun path => words isSpace ((path.splitOn '\n').headD [])) = names
  refine ⟨memoryMapRow (m.columns ++ names), if_pos (by simp [columns]), ?_⟩
  have read : memoryMapRow (m.columns ++ names) = m.row ↔ orUndefined ([' '].intercalate names) = m.path := by
    simp [memoryMapRow, columns, row]
  rw [read, ← same]
  unfold Legible
  cases m.path with
  | none => simp [orUndefined]
  | some path => simpa using orUndefined_iff path

theorem shown_line (legible : m.Legible) : '\n' ∉ m.shown := by
  unfold shown
  cases is : m.path with
  | none => simpa [padEnd, front] using m.front_line 0
  | some path =>
    have name : '\n' ∉ path := by
      have line := spaced_line fun piece mem => word_line (legible path is piece mem)
      rwa [spaced, List.intercalate_splitOn] at line
    intro mem
    rcases List.mem_append.mp mem with mem | mem
    · exact m.front_line 73 mem
    · exact name mem

end Mapping

theorem parseMaps_iff (p : Process) :
    parseMaps p.maps = p.mappings.map Mapping.row ↔ ∀ m ∈ p.mappings, m.Legible := by
  have table : parseMaps p.maps =
      ((p.mappings.flatMap fun m => m.shown ++ ['\n']).splitOn '\n').filterMap
      (rowOf 0 memoryMapRow ∘ words isSpace) := by
    refine (rows_columns 0 memoryMapRow _).trans ?_
    rw [tableLines, Process.maps, trim_eq, rows_trim rfl rfl]
  rw [table]
  exact rows_named rfl Mapping.row_read Mapping.shown_line p.mappings

theorem lastIndexOf_append {c : Char} (a : Text) {b : Text} (last : c ∉ b) :
    lastIndexOf c (a ++ c :: b) = some a.length := by
  have back : (a ++ c :: b).reverse = b.reverse ++ c :: a.reverse := by simp
  rw [lastIndexOf, back, idxOf?_first (by simpa using last), Option.map_some]
  simp only [List.length_append, List.length_cons, List.length_reverse]
  congr 1
  omega

theorem ProcessState.letter_isWord (state : ProcessState) : IsWord isSpace [state.letter] := by
  cases state <;> simp [IsWord, Free, ProcessState.letter, isSpace]

namespace Process

variable (p : Process)

def figureColumns : List Text :=
  [[p.state.letter], decimal p.ppid.toNat, decimal p.pgrp.toNat, decimal p.session.toNat] ++ p.figures.map signed

theorem figures_isWord : ∀ column ∈ p.figureColumns, IsWord isSpace column := by
  simp only [figureColumns, List.cons_append, List.nil_append, List.forall_mem_cons]
  refine ⟨p.state.letter_isWord, decimal_isWord _, decimal_isWord _, decimal_isWord _, fun column mem => ?_⟩
  obtain ⟨n, -, rfl⟩ := List.mem_map.mp mem
  exact signed_isWord n

theorem decimal_paren (n : Nat) : ')' ∉ decimal n := fun mem =>
  absurd (digits_digitOf (by decide) (by decide) false n _ mem) (by decide)

theorem signed_paren (n : Int) : ')' ∉ signed n := by
  unfold signed
  split
  · simp [decimal_paren]
  · exact decimal_paren _

theorem letter_paren (state : ProcessState) : ')' ∉ [state.letter] := by
  cases state <;> simp [ProcessState.letter]

theorem figures_paren : ')' ∉ spaced p.figureColumns := by
  refine spaced_free (by decide) ?_
  simp only [figureColumns, List.cons_append, List.nil_append, List.forall_mem_cons]
  refine ⟨letter_paren _, decimal_paren _, decimal_paren _, decimal_paren _, fun column mem => ?_⟩
  obtain ⟨n, -, rfl⟩ := List.mem_map.mp mem
  exact signed_paren n

end Process

/-- A process is read right whatever its name. -/
theorem parseProcessStat_eq (p : Process) : parseProcessStat p.stat = some p.info := by
  have front : p.stat = decimal p.pid.toNat ++ ' ' ::
    ('(' :: p.comm ++ ") ".toList ++ spaced p.figureColumns ++ ['\n']) := by
    simp [Process.stat, Process.figureColumns]
  have back : p.stat = (decimal p.pid.toNat ++ " (".toList ++ p.comm) ++ ')' :: (' ' ::
    spaced p.figureColumns ++ ['\n']) := by
    simp [Process.stat, Process.figureColumns]
  have space : ' ' ∉ decimal p.pid.toNat := fun mem => absurd ((decimal_isWord _).2 _ mem) (by decide)
  have paren : ')' ∉ ' ' :: spaced p.figureColumns ++ ['\n'] := by simpa using p.figures_paren
  have pid : p.stat.idxOf? ' ' = some (decimal p.pid.toNat).length := by rw [front, idxOf?_first space]
  have taken : p.stat.take (decimal p.pid.toNat).length = decimal p.pid.toNat := by rw [front, List.take_left]
  have end_ := congrArg (lastIndexOf ')') back
  rw [lastIndexOf_append _ paren] at end_
  have dropped : p.stat.drop ((decimal p.pid.toNat ++ " (".toList ++ p.comm).length + 2) =
    spaced p.figureColumns ++ ['\n'] := by
    rw [back, ← List.drop_drop, List.drop_left]
    rfl
  have cols : columns (spaced p.figureColumns ++ ['\n']) = p.figureColumns := by
    have words : words isSpace (spaced p.figureColumns ++ ['\n']) = p.figureColumns := by
      rw [words_snoc _ rfl, spaced, words_joined rfl p.figures_isWord]
    have some_ : p.figureColumns ≠ [] := by simp [Process.figureColumns]
    rw [columns_words (by rw [words]; exact some_), words]
  unfold parseProcessStat
  rw [pid, end_]
  dsimp only
  rw [taken, number_decimal, dropped, cols, if_pos (by rfl)]
  simp [Process.figureColumns, number_decimal, Process.info]

end Machinen.CleanService
