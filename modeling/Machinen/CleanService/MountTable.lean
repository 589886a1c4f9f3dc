import Machinen.CleanService.TablesRead

/-! The table of mounts as the scanner reads it: what it makes of an escaped name, and when it finds the
columns of a row. -/
namespace Machinen.CleanService

open Words
open Runtime.Multiplex (isSpace)

/-- How a character is shown: as an escape of four letters, or without the sign that begins one. -/
def Coded (code : Char → Text) : Prop :=
  ∀ c, (∃ x y z, code c = ['\\', x, y, z] ∧ '\\' ∉ [x, y, z]) ∨ '\\' ∉ code c

variable {a name : Text} {c : Char}

theorem replaceFrom_plain {old new : Text} (plain : '\\' ∉ a) (rest : Text) :
    replaceFrom ('\\' :: old) new 0 (a ++ rest) = a ++ replaceFrom ('\\' :: old) new 0 rest := by
  induction a with
  | nil => rfl
  | cons c a ih =>
    have other : c ≠ '\\' := fun same => plain (same ▸ List.mem_cons_self)
    have more := ih fun mem => plain (List.mem_cons_of_mem _ mem)
    simp [replaceFrom, List.isPrefixOf, Ne.symm other, more]

theorem replaceAll_coded {code : Char → Text} (coded : Coded code) (x y z : Char) (new name : Text) :
    replaceAll ['\\', x, y, z] new (name.flatMap code) =
      name.flatMap fun c => if code c = ['\\', x, y, z] then new else code c := by
  unfold replaceAll
  induction name with
  | nil => rfl
  | cons c name ih =>
    rw [List.flatMap_cons, List.flatMap_cons, ← ih]
    rcases coded c with ⟨x', y', z', is, plain⟩ | plain
    · rw [is]
      by_cases same : ['\\', x', y', z'] = ['\\', x, y, z]
      · rw [if_pos same, same]
        simp [replaceFrom, List.isPrefixOf]
      · have apart : ¬ (x = x' ∧ y = y' ∧ z = z') := fun all => same (by simp [all.1, all.2.1, all.2.2])
        rw [if_neg same]
        have front : replaceFrom ['\\', x, y, z] new 0 ([x', y', z'] ++ name.flatMap code) =
            [x', y', z'] ++ replaceFrom ['\\', x, y, z] new 0 (name.flatMap code) := replaceFrom_plain plain _
        simp only [List.cons_append, List.nil_append] at front ⊢
        rw [replaceFrom, if_neg (by simpa [List.isPrefixOf] using apart), front]
    · have other : code c ≠ ['\\', x, y, z] := fun same => plain (by simp [same])
      rw [if_neg other]
      exact replaceFrom_plain plain _

/-- What is left of the escapes: only those that stand for the sign itself. -/
def expand (name : Text) : Text := name.flatMap fun c => if c = '\\' then "\\134".toList else [c]

theorem escape_coded : Coded escape := by
  intro c
  unfold escape
  split
  · exact .inl ⟨'0', '4', '0', rfl, by decide⟩
  split
  · exact .inl ⟨'0', '1', '1', rfl, by decide⟩
  split
  · exact .inl ⟨'0', '1', '2', rfl, by decide⟩
  split
  · exact .inl ⟨'1', '3', '4', rfl, by decide⟩
  · rename_i other
    exact .inr (by simpa using Ne.symm other)

theorem Coded.replaced {code : Char → Text} (coded : Coded code) {old new : Text} (plain : '\\' ∉ new) :
    Coded fun c => if code c = old then new else code c := by
  intro c
  dsimp only
  split
  · exact .inr plain
  · exact coded c

theorem unescape_mangle (name : Text) : unescapeMountPath (mangle name) = expand name := by
  have space : '\\' ∉ " ".toList := by decide
  have tab : '\\' ∉ "\t".toList := by decide
  change replaceAll ['\\', '0', '1', '2'] _
    (replaceAll ['\\', '0', '1', '1'] _ (replaceAll ['\\', '0', '4', '0'] _ _)) = _
  rw [mangle, replaceAll_coded escape_coded, replaceAll_coded (escape_coded.replaced space),
    replaceAll_coded ((escape_coded.replaced space).replaced tab)]
  refine List.flatMap_congr fun c _ => ?_
  unfold escape
  by_cases c = ' '
  · subst c
    decide
  by_cases c = '\t'
  · subst c
    decide
  by_cases c = '\n'
  · subst c
    decide
  by_cases c = '\\'
  · subst c
    decide
  simp [*]

def isRaw (c : Char) : Bool := isSpace c && c != ' ' && c != '\t' && c != '\n'

theorem escape_raw (raw : isRaw c = true) : escape c = [c] := by
  have sign : c ≠ '\\' := by
    rintro rfl
    exact absurd raw (by decide)
  simp only [isRaw, Bool.and_eq_true, bne_iff_ne, ne_eq] at raw
  obtain ⟨⟨⟨-, space⟩, tab⟩, line⟩ := raw
  simp [escape, space, tab, line, sign]

theorem isSpace_of_raw (raw : isRaw c = true) : isSpace c = true := by
  simp only [isRaw, Bool.and_eq_true] at raw
  exact raw.1.1.1

theorem escape_isWord (plain : isRaw c = false) : IsWord isSpace (escape c) := by
  unfold escape
  split
  · exact ⟨by simp, by simp [Free, isSpace]⟩
  split
  · exact ⟨by simp, by simp [Free, isSpace]⟩
  split
  · exact ⟨by simp, by simp [Free, isSpace]⟩
  split
  · exact ⟨by simp, by simp [Free, isSpace]⟩
  · rename_i space tab line _
    refine ⟨by simp, fun d mem => ?_⟩
    rw [List.mem_singleton.mp mem]
    simpa [isRaw, space, tab, line] using plain

theorem mangle_append (a b : Text) : mangle (a ++ b) = mangle a ++ mangle b := List.flatMap_append

theorem mangle_isWord (word : IsWord isRaw name) : IsWord isSpace (mangle name) := by
  obtain ⟨c, rest, rfl⟩ := List.exists_cons_of_ne_nil word.1
  refine ⟨?_, fun d mem => ?_⟩
  · simp [mangle, (escape_isWord (word.2 c List.mem_cons_self)).1]
  · obtain ⟨e, listed, mem⟩ := List.mem_flatMap.mp mem
    exact (escape_isWord (word.2 e listed)).2 d mem

theorem mangle_line (name : Text) : '\n' ∉ mangle name := by
  intro mem
  obtain ⟨c, -, mem⟩ := List.mem_flatMap.mp mem
  cases raw : isRaw c with
  | false => exact word_line (escape_isWord raw) mem
  | true =>
    rw [escape_raw raw, List.mem_singleton] at mem
    subst mem
    exact absurd raw (by decide)

theorem words_mangle (front : isRaw c = false) (name : Text) : ∃ first rest, c :: name = first ++ rest ∧
    IsWord isRaw first ∧ first.head? = some c ∧ (∀ d ∈ rest.head?, isRaw d = true) ∧
      words isSpace (mangle (c :: name)) = mangle first :: words isSpace (mangle rest) := by
  obtain ⟨first, rest, parts, word, ends, head⟩ := exists_first front name
  refine ⟨first, rest, parts, word, head, ends, ?_⟩
  rw [parts, mangle_append]
  refine words_first (mangle_isWord word) fun d mem => ?_
  cases rest with
  | nil => cases mem
  | cons e rest =>
    have raw := ends e rfl
    have shown : mangle (e :: rest) = [e] ++ mangle rest := by simp [mangle, escape_raw raw]
    have same : e = d := by simpa [shown] using mem
    exact same ▸ isSpace_of_raw raw

theorem length_le_expand (name : Text) : name.length ≤ (expand name).length := by
  induction name with
  | nil => rfl
  | cons c name ih =>
    unfold expand
    rw [List.flatMap_cons, List.length_append, List.length_cons, ← expand]
    split <;> simp <;> omega

theorem expand_plain (plain : '\\' ∉ name) : expand name = name := by
  refine (List.flatMap_congr fun c mem => ?_).trans (List.flatMap_singleton' name)
  rw [if_neg]
  rintro rfl
  exact plain mem

theorem sign_not_raw : ∀ c ∈ ['\\', '1', '3', '4'], isRaw c = false := by simp [isRaw, isSpace]

theorem expand_not_raw (plain : ∀ c ∈ name, isRaw c = false) : ∀ c ∈ expand name, isRaw c = false := by
  intro c mem
  obtain ⟨d, listed, mem⟩ := List.mem_flatMap.mp mem
  split at mem
  · exact sign_not_raw c mem
  · rw [List.mem_singleton.mp mem]
    exact plain d listed

theorem expand_sign (before : '\\' ∉ a) (b : Text) :
    expand (a ++ '\\' :: b) = a ++ '\\' :: (['1', '3', '4'] ++ expand b) := by
  have front := expand_plain before
  unfold expand at front ⊢
  rw [List.flatMap_append, front, List.flatMap_cons, if_pos rfl]
  rfl

theorem expand_eq_iff {first rest : Text} (word : IsWord isRaw first) (ends : ∀ d ∈ rest.head?, isRaw d = true) :
    expand first = first ++ rest ↔ rest = [] ∧ '\\' ∉ first := by
  constructor
  · intro same
    have plain : '\\' ∉ first := by
      intro mem
      obtain ⟨a, b, rfl, before⟩ := List.eq_append_cons_of_mem mem
      rw [expand_sign before, List.append_assoc, List.append_cancel_left_eq] at same
      have tails : ['1', '3', '4'] ++ expand b = b ++ rest := by simpa using same
      cases rest with
      | nil =>
        have more := length_le_expand b
        have count := congrArg List.length tails
        simp at count
        omega
      | cons r rest =>
        have raw := ends r rfl
        have inside : r ∈ ['1', '3', '4'] ++ expand b := by
          rw [tails]
          simp
        have plain : isRaw r = false := by
          rcases List.mem_append.mp inside with inside | inside
          · exact sign_not_raw r (List.mem_cons_of_mem _ inside)
          · exact expand_not_raw (fun d mem => word.2 d (by simp [mem])) r inside
        simp [plain] at raw
    rw [expand_plain plain] at same
    exact ⟨by simpa using same, plain⟩
  · rintro ⟨rfl, plain⟩
    rw [expand_plain plain, List.append_nil]

namespace Mount

variable (m : Mount)

/-- A name that is one word, and given back by its escapes. -/
def PointLegible : Prop := IsWord isRaw m.point.text ∧ '\\' ∉ m.point.text

/-- A type that is shown as it is. -/
def TypeLegible : Prop := IsWord isSpace m.fsType ∧ '\\' ∉ m.fsType

def rootWords : List Text := words isSpace (mangle m.root.text)

/-- What the columns behind the mount point show of the row. -/
def shownWords : List Text := [','].intercalate m.options :: m.propagation.map Propagation.text ++ ["-".toList]

def superWord : Text := (if m.superReadOnly then "ro".toList else "rw".toList) ++ mangle m.superOptions

/-- The columns behind the root. -/
def columnWords : List Text :=
  words isSpace (mangle m.point.text) ++ m.shownWords ++ words isSpace (mangle m.fsType) ++
    words isSpace (mangle m.source) ++ words isSpace m.superWord

/-- Columns that spell the row of the mount. -/
def Spells (columns : List Text) : Prop :=
  ∃ q rest, columns = q :: m.shownWords ++ m.fsType :: rest ∧ unescapeMountPath q = m.point.text

theorem flag_isWord (flag : MountFlag) : IsWord isSpace flag.text := by
  cases flag <;> exact isWord_of_all (by decide +kernel)

theorem flag_comma (flag : MountFlag) : ',' ∉ flag.text := by
  cases flag <;> decide +kernel

theorem propagation_isWord (field : Propagation) : IsWord isSpace field.text := by
  cases field with
  | shared group => exact IsWord.append (isWord_of_all (by decide +kernel)) (decimal_isWord group).2
  | master group => exact IsWord.append (isWord_of_all (by decide +kernel)) (decimal_isWord group).2
  | propagateFrom group => exact IsWord.append (isWord_of_all (by decide +kernel)) (decimal_isWord group).2
  | unbindable => exact isWord_of_all (by decide +kernel)

theorem decimal_dash (n : Nat) : '-' ∉ decimal n := fun mem =>
  absurd (digits_digitOf (by decide) (by decide) false n _ mem) (by decide)

theorem propagation_dash (field : Propagation) : '-' ∉ field.text := by
  cases field with
  | shared group => exact List.not_mem_append (by decide +kernel) (decimal_dash group)
  | master group => exact List.not_mem_append (by decide +kernel) (decimal_dash group)
  | propagateFrom group => exact List.not_mem_append (by decide +kernel) (decimal_dash group)
  | unbindable => decide +kernel

theorem ne_dash {text : Text} (free : '-' ∉ text) : text ≠ "-".toList := by
  rintro rfl
  exact free (by decide)

theorem access_isWord (readOnly : Bool) : IsWord isSpace (if readOnly then "ro".toList else "rw".toList) := by
  cases readOnly <;> exact isWord_of_all (by decide +kernel)

theorem options_isWord : IsWord isSpace ([','].intercalate m.options) := by
  have each : ∀ option ∈ m.options, IsWord isSpace option := by
    rw [options, List.forall_mem_cons]
    refine ⟨access_isWord _, fun option mem => ?_⟩
    obtain ⟨flag, -, rfl⟩ := List.mem_map.mp mem
    exact flag_isWord flag
  exact joined_isWord rfl (by simp [options]) each

theorem splitOn_options : ([','].intercalate m.options).splitOn ',' = m.options := by
  refine List.splitOn_intercalate ',' (fun option mem => ?_) (by simp [options])
  rcases List.mem_cons.mp mem with rfl | mem
  · cases m.readOnly <;> simp
  · obtain ⟨flag, -, rfl⟩ := List.mem_map.mp mem
    exact flag_comma flag

theorem options_ne : [','].intercalate m.options ≠ "-".toList := by
  intro same
  have split := m.splitOn_options
  rw [same, options] at split
  obtain ⟨first, -⟩ := List.cons.inj split
  cases h : m.readOnly <;> simp [h] at first

theorem path_front (path : Path) : ∃ rest, path.text = '/' :: rest := by
  unfold Path.text
  split
  · exact ⟨[], rfl⟩
  · rename_i some_
    obtain ⟨name, path, is⟩ := List.exists_cons_of_ne_nil (fun none => some_ none)
    exact ⟨_, by rw [is]; rfl⟩

theorem words_line : words isSpace m.line =
    [decimal m.id, decimal m.parent, decimal m.major ++ ':' :: decimal m.minor] ++ m.rootWords ++ m.columnWords := by
  have fields : (m.propagation.map Propagation.text).flatMap (words isSpace) =
    m.propagation.map Propagation.text := by
    refine (List.flatMap_congr fun w mem => ?_).trans (List.flatMap_singleton' _)
    obtain ⟨field, -, rfl⟩ := List.mem_map.mp mem
    exact words_word (propagation_isWord field)
  have dash : IsWord isSpace "-".toList := by simp [IsWord, Free, isSpace]
  rw [line, spaced, words_columns rfl, columns, List.flatMap_append, List.flatMap_append, fields]
  simp only [List.flatMap_cons, List.flatMap_nil, words_word (decimal_isWord _), words_word m.options_isWord,
    words_word ((decimal_isWord _).joined ':' rfl (decimal_isWord _)), words_word dash]
  simp [rootWords, columnWords, shownWords, superWord]

theorem mountRow_read {b c d q o : Text} {fields : List Text}
    (others : "-".toList ∉ a :: b :: c :: d :: q :: o :: fields)
    (tail : List Text) : mountRow (a :: b :: c :: d :: q :: o :: fields ++ "-".toList :: tail) =
      { mountPoint := unescapeMountPath q
        options := o.splitOn ','
        optionalFields := fields
        fsType := tail.headD "unknown".toList } := by
  have at_ := idxOf?_first others tail
  have fieldsRead : (if (a :: b :: c :: d :: q :: o :: fields).length > 6 then
      ((a :: b :: c :: d :: q :: o :: fields ++ "-".toList :: tail).take
        (a :: b :: c :: d :: q :: o :: fields).length).drop 6 else []) = fields := by
    rw [List.take_left]
    cases fields <;> simp
  have typeRead : (a :: b :: c :: d :: q :: o :: fields ++ "-".toList :: tail).getD
      ((a :: b :: c :: d :: q :: o :: fields).length + 1) "unknown".toList = tail.headD "unknown".toList := by
    rw [List.getD_append_right _ _ _ _ (by omega)]
    cases tail <;> simp
  unfold mountRow
  simp only [at_]
  rw [fieldsRead, typeRead]
  rfl

theorem unescape_dash : unescapeMountPath "-".toList = "-".toList := by decide

theorem point_ne_dash : m.point.text ≠ "-".toList := by
  obtain ⟨rest, is⟩ := path_front m.point
  simp [is]

theorem mountRow_iff {b c d : Text} (others : "-".toList ∉ [a, b, c, d]) {columns : List Text}
    (kept : ∃ pre post, columns = pre ++ "-".toList :: post ∧ post ≠ []) :
    mountRow (a :: b :: c :: d :: columns) = m.row ↔ m.Spells columns := by
  constructor
  · intro same
    obtain ⟨pre, post, parts, more⟩ := kept
    obtain ⟨front, tail, found, before⟩ := List.eq_append_cons_of_mem (show "-".toList ∈ columns by simp [parts])
    -- The first dash is not the last column, for there is one with columns behind it.
    have behind : tail ≠ [] := by
      rintro rfl
      have last := congrArg List.dropLast (parts.symm.trans found)
      rw [List.dropLast_append_cons, List.dropLast_concat] at last
      refine before (last ▸ ?_)
      obtain ⟨next, post, rfl⟩ := List.exists_cons_of_ne_nil more
      simp
    obtain ⟨type, tail, rfl⟩ := List.exists_cons_of_ne_nil behind
    subst found
    cases front with
    | nil =>
      have point := congrArg MountInfoRow.mountPoint same
      exact absurd (point.symm.trans unescape_dash) m.point_ne_dash
    | cons q front =>
      cases front with
      | nil =>
        have options : "-".toList.splitOn ',' = m.options := congrArg MountInfoRow.options same
        refine absurd ?_ m.options_ne
        rw [← options, List.intercalate_splitOn]
      | cons o fields =>
        have all : "-".toList ∉ a :: b :: c :: d :: q :: o :: fields := List.not_mem_append others before
        have read := (mountRow_read all (type :: tail)).symm.trans same
        refine ⟨q, tail, ?_, congrArg MountInfoRow.mountPoint read⟩
        have options : o.splitOn ',' = m.options := congrArg MountInfoRow.options read
        have shown : fields = m.propagation.map Propagation.text := congrArg MountInfoRow.optionalFields read
        have named : type = m.fsType := congrArg MountInfoRow.fsType read
        rw [shownWords, ← options, List.intercalate_splitOn, ← shown, named]
        simp
  · rintro ⟨q, rest, rfl, point⟩
    have dash : q ≠ "-".toList := by
      rintro rfl
      exact m.point_ne_dash (point.symm.trans unescape_dash)
    have fields : "-".toList ∉ m.propagation.map Propagation.text := by
      intro mem
      obtain ⟨field, -, is⟩ := List.mem_map.mp mem
      exact ne_dash (propagation_dash field) is
    have all : "-".toList ∉ a :: b :: c :: d :: q :: [','].intercalate m.options ::
      m.propagation.map Propagation.text := by
      refine List.not_mem_append others ?_
      simp only [List.mem_cons, not_or]
      exact ⟨Ne.symm dash, Ne.symm m.options_ne, fields⟩
    have read := mountRow_read all (m.fsType :: rest)
    have parts : a :: b :: c :: d :: (q :: m.shownWords ++ m.fsType :: rest) =
        a :: b :: c :: d :: q :: [','].intercalate m.options :: m.propagation.map Propagation.text ++
          "-".toList :: m.fsType :: rest := by simp [shownWords]
    rw [parts, read, point, m.splitOn_options]
    rfl

theorem mangle_word (word : IsWord isSpace name) : mangle name = expand name := by
  refine List.flatMap_congr fun c mem => ?_
  have plain := word.2 c mem
  have space : c ≠ ' ' := by
    rintro rfl
    exact absurd plain (by decide)
  have tab : c ≠ '\t' := by
    rintro rfl
    exact absurd plain (by decide)
  have line : c ≠ '\n' := by
    rintro rfl
    exact absurd plain (by decide)
  simp [escape, space, tab, line]

theorem isWord_raw (word : IsWord isSpace name) : IsWord isRaw name := by
  refine ⟨word.1, fun c mem => ?_⟩
  simp [isRaw, word.2 c mem]

theorem type_first {more rest : List Text} (each : ∀ w ∈ more, IsWord isSpace w)
    (same : words isSpace (mangle m.fsType) ++ more = m.fsType :: rest) : m.TypeLegible := by
  have word : IsWord isSpace m.fsType := by
    rcases List.mem_append.mp (same ▸ List.mem_cons_self :
      m.fsType ∈ words isSpace (mangle m.fsType) ++ more) with mem | mem
    · exact isWord_of_mem mem
    · exact each _ mem
  have raw := isWord_raw word
  rw [words_word (mangle_isWord raw)] at same
  have shown : expand m.fsType = m.fsType ++ [] := by
    rw [List.append_nil, ← mangle_word word]
    exact (List.cons.inj same).1
  exact ⟨word, ((expand_eq_iff raw (by simp)).mp shown).2⟩

theorem spells_own : m.Spells m.columnWords ↔ m.PointLegible ∧ m.TypeLegible := by
  obtain ⟨text, slash⟩ := path_front m.point
  constructor
  · rintro ⟨q, tail, same, point⟩
    obtain ⟨first, rest, parts, word, -, ends, shown⟩ := words_mangle (show isRaw '/' = false by decide) text
    rw [← slash] at parts shown
    rw [columnWords, shown] at same
    simp only [List.cons_append, List.append_assoc] at same
    obtain ⟨rfl, behind⟩ := List.cons.inj same
    rw [unescape_mangle, parts] at point
    obtain ⟨rfl, plain⟩ := (expand_eq_iff word ends).mp point
    rw [List.append_nil] at parts
    rw [show mangle [] = [] from rfl, words_nil, List.nil_append, List.append_cancel_left_eq] at behind
    refine ⟨⟨parts ▸ word, parts ▸ plain⟩, m.type_first (fun w mem => ?_) behind⟩
    rcases List.mem_append.mp mem with mem | mem
    · exact isWord_of_mem mem
    · exact isWord_of_mem mem
  · rintro ⟨⟨word, plain⟩, typeWord, typePlain⟩
    refine ⟨mangle m.point.text, words isSpace (mangle m.source) ++ words isSpace m.superWord, ?_, ?_⟩
    · rw [columnWords, words_word (mangle_isWord word), mangle_word typeWord, expand_plain typePlain,
        words_word typeWord]
      simp
    · rw [unescape_mangle, expand_plain plain]

/-- A root with white space, the columns in which spell the row themselves. -/
def Forged : Prop := 2 ≤ m.rootWords.length ∧ m.Spells (m.rootWords.drop 1 ++ m.columnWords)

/-- A mount whose row is read right. -/
def Legible : Prop := m.rootWords.length = 1 ∧ m.PointLegible ∧ m.TypeLegible ∨ m.Forged

theorem legible_plain (root : IsWord isRaw m.root.text) (point : m.PointLegible)
    (type : m.TypeLegible) : m.Legible :=
  .inl ⟨by rw [rootWords, words_word (mangle_isWord root)]; rfl, point, type⟩

theorem columnWords_kept (front : List Text) : ∃ pre post,
    front ++ m.columnWords = pre ++ "-".toList :: post ∧ post ≠ [] := by
  refine ⟨front ++ (words isSpace (mangle m.point.text) ++
    ([','].intercalate m.options :: m.propagation.map Propagation.text)),
    words isSpace (mangle m.fsType) ++ (words isSpace (mangle m.source) ++ words isSpace m.superWord), ?_, ?_⟩
  · simp [columnWords, shownWords]
  · have last : words isSpace m.superWord ≠ [] := by
      intro none
      have word := access_isWord m.superReadOnly
      obtain ⟨c, rest, is⟩ := List.exists_cons_of_ne_nil word.1
      have front : c ∈ if m.superReadOnly then "ro".toList else "rw".toList := is ▸ List.mem_cons_self
      have space := words_eq_nil none c (List.mem_append_left _ front)
      exact absurd space (by rw [word.2 c front]; decide)
    simp [last]

theorem row_iff : mountRow (words isSpace m.line) = m.row ↔ m.Legible := by
  obtain ⟨text, slash⟩ := path_front m.root
  obtain ⟨first, rest, -, -, head, -, shown⟩ := words_mangle (show isRaw '/' = false by decide) text
  rw [← slash] at shown
  have root : m.rootWords = mangle first :: words isSpace (mangle rest) := shown
  have others : "-".toList ∉
    [decimal m.id, decimal m.parent, decimal m.major ++ ':' :: decimal m.minor, mangle first] := by
    simp only [List.mem_cons, List.not_mem_nil, or_false, not_or]
    refine ⟨Ne.symm (ne_dash (decimal_dash _)), Ne.symm (ne_dash (decimal_dash _)), Ne.symm (ne_dash ?_), ?_⟩
    · exact List.not_mem_append (decimal_dash _) (by simp [decimal_dash])
    · obtain ⟨tail, rfl⟩ := List.head?_eq_some_iff.mp head
      simp [mangle, escape]
  have read := m.mountRow_iff others (m.columnWords_kept (words isSpace (mangle rest)))
  have parts : words isSpace m.line =
    decimal m.id :: decimal m.parent :: (decimal m.major ++ ':' :: decimal m.minor) ::
      mangle first :: (words isSpace (mangle rest) ++ m.columnWords) := by
    rw [words_line, root]
    simp
  rw [parts, read, Legible, Forged, root, List.drop_one, List.tail_cons]
  cases words isSpace (mangle rest) with
  | nil => simp [spells_own]
  | cons w ws => simp

theorem line_line : '\n' ∉ m.line := by
  refine spaced_line ?_
  simp only [columns, List.cons_append, List.nil_append, List.forall_mem_cons, List.forall_mem_append]
  refine ⟨word_line (decimal_isWord _), word_line (decimal_isWord _),
    word_line ((decimal_isWord _).joined ':' rfl (decimal_isWord _)), mangle_line _, mangle_line _,
    word_line m.options_isWord, fun column mem => ?_, by decide, mangle_line _, mangle_line _,
    List.not_mem_append (word_line (access_isWord _)) (mangle_line _), by simp⟩
  obtain ⟨field, -, rfl⟩ := List.mem_map.mp mem
  exact word_line (propagation_isWord field)

theorem words_line_ne : words isSpace m.line ≠ [] := by simp [words_line]

end Mount

theorem parseMountInfo_iff (k : Kernel) :
    parseMountInfo k.mountInfo = k.mounts.map Mount.row ↔ ∀ m ∈ k.mounts, m.Legible := by
  have table : (tableLines k.mountInfo).map (words isSpace) = k.mounts.map fun m => words isSpace m.line := by
    have some_ : k.mounts.map Mount.line ≠ [] := by simpa using List.ne_nil_of_mem k.root_mem
    have whole : ∀ line ∈ k.mounts.map Mount.line, '\n' ∉ line := by simp [Mount.line_line]
    have shown : ∀ line ∈ k.mounts.map Mount.line, words isSpace line ≠ [] := by simp [Mount.words_line_ne]
    have lines := rows_lines rfl some_ whole shown
    rw [List.flatMap_map, List.map_map] at lines
    exact lines
  have split : ∀ line ∈ tableLines k.mountInfo, columns line = words isSpace line := by
    intro line mem
    have listed := List.mem_map_of_mem (f := words isSpace) mem
    rw [table] at listed
    obtain ⟨m, -, is⟩ := List.mem_map.mp listed
    exact columns_words (is ▸ m.words_line_ne)
  have rows : parseMountInfo k.mountInfo = k.mounts.map fun m => mountRow (words isSpace m.line) := by
    have each := List.map_congr_left fun line mem => congrArg mountRow (split line mem)
    have read := congrArg (List.map mountRow) table
    rw [List.map_map, List.map_map] at read
    exact each.trans read
  rw [rows, List.map_inj_left]
  exact forall₂_congr fun m _ => m.row_iff

end Machinen.CleanService
