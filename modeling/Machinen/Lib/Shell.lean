import Machinen.Lib.Utf8

/-! How a POSIX shell takes a command apart into words and operators, a character at a time. What a
command substitutes for itself is taken apart in the same stream, between two tokens that mark it.
Backquotes, braces after a dollar sign, arithmetic and here-documents are left out: a text with one of
them has no tokens here. -/
namespace Machinen.Shell

/-- A piece of a word: a letter, which quoting may have taken the meaning from, or a parameter. -/
inductive Piece where
  | letter (c : Char) (quoted : Bool)
  | parameter (name : Text) (quoted : Bool)
  deriving DecidableEq, Repr

inductive Token where
  | word (pieces : List Piece)
  /-- The digits in front of a redirection. -/
  | descriptor (digits : Text)
  | operator (text : Text)
  /-- A word up to a command substitution in it. -/
  | substitute (pieces : List Piece) (quoted : Bool)
  /-- The substitution ends, and the word goes on. -/
  | substituted
  deriving DecidableEq, Repr

inductive Mode where
  | plain
  | single
  | double
  | escape (quoted : Bool)
  | dollar (quoted : Bool)
  | name (quoted : Bool) (text : Text)
  /-- Just behind the bracket that opens a substitution. -/
  | opened
  | comment
  deriving DecidableEq, Repr

/-- A bracket that is open, and of a substitution whether it stands in double quotes. -/
inductive Bracket where
  | group
  | substitution (quoted : Bool)
  deriving DecidableEq, Repr

structure State where
  mode : Mode := .plain
  word : Option (List Piece) := none
  /-- An operator that may go on. -/
  pending : Text := []
  brackets : List Bracket := []
  deriving DecidableEq, Repr

abbrev Step := Option (State × List Token)

def isBlank (c : Char) : Bool := c == ' ' || c == '\t'
def isNameStart (c : Char) : Bool := c.isAlpha || c == '_'
def isName (c : Char) : Bool := c.isAlphanum || c == '_'
def isSpecialParameter (c : Char) : Bool := c.isDigit || ['@', '*', '#', '?', '-', '$', '!'].contains c
def isOperatorStart (c : Char) : Bool := ['&', '|', ';', '<', '>'].contains c

def longOperators : List Text :=
  [['&', '&'], ['|', '|'], [';', ';'], ['>', '>'], ['<', '&'], ['>', '&'], ['<', '>'], ['>', '|']]

def State.add (s : State) (pieces : List Piece) : State := { s with word := some (s.word.getD [] ++ pieces) }

def State.closed (s : State) : List Token := s.word.toList.map .word

def digitsOf : List Piece → Option Text
  | [] => some []
  | .letter c false :: rest => if c.isDigit then (digitsOf rest).map (c :: ·) else none
  | _ => none

def State.redirected (s : State) : List Token :=
  match s.word with
  | none => []
  | some [] => [.word []]
  | some pieces => match digitsOf pieces with
    | some digits => [.descriptor digits]
    | none => [.word pieces]

def closing (s : State) : State × List Token :=
  match s.brackets with
  | [] => ({ s with word := none }, s.closed ++ [.operator [')']])
  | .group :: brackets => ({ s with word := none, brackets := brackets }, s.closed ++ [.operator [')']])
  | .substitution quoted :: brackets =>
    ({ s with mode := if quoted then .double else .plain, word := some [], brackets := brackets },
      s.closed ++ [.substituted])

/-- A character where none is quoted and no operator is pending. -/
def fresh (s : State) (c : Char) : Step :=
  if isBlank c then some ({ s with word := none }, s.closed)
  else if c = '\n' then some ({ s with word := none }, s.closed ++ [.operator ['\n']])
  else if c = '\'' then some ({ s.add [] with mode := .single }, [])
  else if c = '"' then some ({ s.add [] with mode := .double }, [])
  else if c = '\\' then some ({ s with mode := .escape false }, [])
  else if c = '$' then some ({ s with mode := .dollar false }, [])
  else if c = '`' then none
  else if c = '#' ∧ s.word = none then some ({ s with mode := .comment }, [])
  else if c = '(' then
    some ({ s with word := none, brackets := .group :: s.brackets }, s.closed ++ [.operator ['(']])
  else if c = ')' then some (closing s)
  else if c = '<' ∨ c = '>' then some ({ s with word := none, pending := [c] }, s.redirected)
  else if isOperatorStart c then some ({ s with word := none, pending := [c] }, s.closed)
  else some (s.add [.letter c false], [])

/-- A character where none is quoted: it makes a pending operator longer, or ends it. -/
def plain (s : State) (c : Char) : Step :=
  if s.pending = [] then fresh s c
  else if s.pending = ['<'] ∧ c = '<' then none
  else if longOperators.contains (s.pending ++ [c]) then
    some ({ s with pending := [] }, [.operator (s.pending ++ [c])])
  else (fresh { s with pending := [] } c).map fun next => (next.1, .operator s.pending :: next.2)

def double (s : State) (c : Char) : Step :=
  if c = '"' then some ({ s with mode := .plain }, [])
  else if c = '\\' then some ({ s with mode := .escape true }, [])
  else if c = '$' then some ({ s with mode := .dollar true }, [])
  else if c = '`' then none
  else some (s.add [.letter c true], [])

def within (quoted : Bool) (s : State) (c : Char) : Step :=
  if quoted then double { s with mode := .double } c else plain { s with mode := .plain } c

def step (s : State) (c : Char) : Step :=
  match s.mode with
  | .plain => plain s c
  | .single => if c = '\'' then some ({ s with mode := .plain }, []) else some (s.add [.letter c true], [])
  | .double => double s c
  | .escape false =>
    if c = '\n' then some ({ s with mode := .plain }, [])
    else some ({ s.add [.letter c true] with mode := .plain }, [])
  | .escape true =>
    if c = '\n' then some ({ s with mode := .double }, [])
    else if ['$', '`', '"', '\\'].contains c then some ({ s.add [.letter c true] with mode := .double }, [])
    else some ({ s.add [.letter '\\' true, .letter c true] with mode := .double }, [])
  | .dollar quoted =>
    if c = '(' then
      some ({ s with mode := .opened, word := none, brackets := .substitution quoted :: s.brackets },
        [.substitute (s.word.getD []) quoted])
    else if c = '{' then none
    else if isNameStart c then some ({ s with mode := .name quoted [c] }, [])
    else if isSpecialParameter c then
      some ({ s.add [.parameter [c] quoted] with mode := if quoted then .double else .plain }, [])
    else within quoted (s.add [.letter '$' quoted]) c
  | .name quoted text =>
    if isName c then some ({ s with mode := .name quoted (text ++ [c]) }, [])
    else within quoted (s.add [.parameter text quoted]) c
  | .opened => if c = '(' then none else plain { s with mode := .plain } c
  | .comment => if c = '\n' then some ({ s with mode := .plain }, [.operator ['\n']]) else some (s, [])

def run (s : State) : Text → Step
  | [] => some (s, [])
  | c :: text => do
    let (next, tokens) ← step s c
    let (last, more) ← run next text
    some (last, tokens ++ more)

def finish (s : State) : Option (List Token) :=
  if s.brackets ≠ [] then none
  else
    let pending := if s.pending = [] then [] else [.operator s.pending]
    match s.mode with
    | .plain => some (pending ++ s.closed)
    | .comment => some []
    | .escape false => some (pending ++ (s.add [.letter '\\' true]).closed)
    | .dollar false => some (pending ++ (s.add [.letter '$' false]).closed)
    | .name false text => some (pending ++ (s.add [.parameter text false]).closed)
    | _ => none

def tokens (text : Text) : Option (List Token) := do
  let (last, tokens) ← run {} text
  let more ← finish last
  some (tokens ++ more)

theorem run_append (s : State) (a b : Text) : run s (a ++ b) = (run s a).bind fun first =>
    (run first.1 b).map fun next => (next.1, first.2 ++ next.2) := by
  induction a generalizing s with
  | nil =>
    rw [List.nil_append, run, Option.bind_some]
    cases run s b <;> rfl
  | cons c a ih =>
    rw [List.cons_append, run, run]
    cases step s c with
    | none => rfl
    | some next =>
      have rest := ih next.1
      simp only [Option.bind_eq_bind, Option.bind_some] at rest ⊢
      rw [rest]
      cases run next.1 a with
      | none => rfl
      | some last => cases h : run last.1 b <;> simp [h]

variable {last : State} {ts us : List Token} {mark text back : Text}

def literal (text : Text) : List Piece := text.map (.letter · true)

@[simp] theorem State.add_word (s : State) (pieces : List Piece) :
    (s.add pieces).word = some (s.word.getD [] ++ pieces) := rfl

@[simp] theorem State.add_pending (s : State) (pieces : List Piece) : (s.add pieces).pending = s.pending := rfl

@[simp] theorem State.add_brackets (s : State) (pieces : List Piece) : (s.add pieces).brackets = s.brackets := rfl

@[simp] theorem State.add_mode (s : State) (pieces : List Piece) : (s.add pieces).mode = s.mode := rfl

structure State.Open (s : State) : Prop where
  mode : s.mode = .plain
  pending : s.pending = []

theorem State.Open.add {s : State} (is : s.Open) (pieces : List Piece) : (s.add pieces).Open := ⟨is.mode, is.pending⟩

theorem State.Open.step {s : State} (is : s.Open) (c : Char) : Shell.step s c = fresh s c := by
  rw [Shell.step, is.mode]
  dsimp only
  rw [plain, if_pos is.pending]

theorem State.Open.quote {s : State} (is : s.Open) :
    Shell.step s '\'' = some ({ s with mode := .single }.add [], []) := by
  rw [is.step]
  rfl

def quoteWith (mark text : Text) : Text := '\'' :: (text.flatMap fun c => if c = '\'' then mark else [c]) ++ ['\'']

structure State.Between (s : State) : Prop where
  is : s.Open
  word : s.word = none

def Closes (c : Char) : Prop := c ∈ [' ', '&', '|', ';']

instance (c : Char) : Decidable (Closes c) := inferInstanceAs (Decidable (_ ∈ _))

/-- A text as one word, no letter of which means anything to the shell. -/
def Token.literal (text : Text) : Token := .word (Shell.literal text)

theorem run_cons {c : Char} (ran : run s (c :: text) = some (last, ts)) : ∃ next front behind,
    step s c = some (next, front) ∧ run next text = some (last, behind) ∧ ts = front ++ behind := by
  rw [run] at ran
  simp only [Option.bind_eq_bind, Option.bind_eq_some_iff, Option.some.injEq, Prod.mk.injEq] at ran
  obtain ⟨⟨next, front⟩, stepped, ⟨_, behind⟩, after, rfl, rfl⟩ := ran
  exact ⟨next, front, behind, stepped, after, rfl⟩

theorem tokens_some (ran : run {} text = some (last, ts))
    (ends : finish last = some us) : tokens text = some (ts ++ us) := by
  rw [tokens, ran]
  simp [ends]

def bare (text : Text) : List Piece := text.map (.letter · false)

def isInert (c : Char) : Bool :=
  !(isBlank c || isOperatorStart c || ['\n', '\'', '"', '\\', '`', '(', ')'].contains c)

/-- Behind a dollar sign it makes a parameter or a substitution of it. -/
def expands (c : Char) : Bool := c == '(' || c == '{' || isNameStart c || isSpecialParameter c

/-- A text whose letters stand for themselves in a word that goes on with `next`. -/
def isPlain (next : Char) : Text → Bool
  | [] => true
  | c :: rest => isInert c && !(c == '$' && expands (rest.headD next)) && isPlain next rest

variable {s : State} {pieces : List Piece}

/-- The word is not that of a text which has `c` behind `base`: there is another piece in it, or the
next piece will be another. -/
structure Off (base : List Piece) (c : Char) (s : State) : Prop where
  pending : s.pending = []
  word : ∃ w, s.word = some w ∧ ((∃ p more, w = base ++ p :: more ∧ p ≠ .letter c false) ∨
    w = base ∧ (isInert c = false ∨ ∃ quoted name, s.mode = .name quoted name))

/-- Such a state comes next, or another token than a word with `c` behind `base`. -/
def Strays (base : List Piece) (c : Char) (r : Step) : Prop := ∀ next ts, r = some (next, ts) →
  (ts = [] ∧ Off base c next) ∨ ∃ t rest, ts = t :: rest ∧ ∀ more, t ≠ .word (base ++ .letter c false :: more)

theorem Strays.either {base : List Piece} {c : Char} {p : Prop} [Decidable p] {a b : Step}
    (yes : p → Strays base c a) (no : ¬ p → Strays base c b) : Strays base c (if p then a else b) := by
  split
  · exact yes ‹_›
  · exact no ‹_›

theorem digitsOf_append {pieces : List Piece} (nondigit : digitsOf pieces = none) (more : List Piece) :
    digitsOf (pieces ++ more) = none := by
  induction pieces using digitsOf.induct with
  | case1 => cases nondigit
  | case2 c rest digit ih => simp_all [digitsOf]
  | case3 c rest other => simp [digitsOf, other]
  | case4 pieces notEmpty notLetter =>
    cases pieces with
    | nil => exact absurd rfl notEmpty
    | cons p rest =>
      rw [List.cons_append, digitsOf]
      · simp
      · exact fun c more same => notLetter c rest (by simp_all)

namespace Off

variable {base : List Piece} {c : Char}

theorem stays (off : Off base c s) {mode : Mode} (names : (∃ quoted name, s.mode = .name quoted name) →
    ∃ quoted name, mode = .name quoted name) : Off base c { s with mode := mode } := by
  obtain ⟨pending, w, word, there | ⟨here, special | name⟩⟩ := off
  · exact ⟨pending, w, word, .inl there⟩
  · exact ⟨pending, w, word, .inr ⟨here, .inl special⟩⟩
  · exact ⟨pending, w, word, .inr ⟨here, .inr (names name)⟩⟩

theorem grows (off : Off base c s) {p : Piece} (mode : Mode)
    (other : isInert c = false ∨ (∃ quoted name, s.mode = .name quoted name) → p ≠ .letter c false) :
    Off base c { s.add [p] with mode := mode } := by
  obtain ⟨pending, w, word, ⟨q, more, rfl, apart⟩ | ⟨rfl, next⟩⟩ := off
  · exact ⟨pending, base ++ q :: (more ++ [p]), by simp [word], .inl ⟨q, _, rfl, apart⟩⟩
  · exact ⟨pending, w ++ [p], by simp [word], .inl ⟨p, [], rfl, other next⟩⟩

theorem word_ne (off : Off base c s) :
    ∃ w, s.word = some w ∧ ∀ more, Token.word w ≠ .word (base ++ .letter c false :: more) := by
  obtain ⟨-, w, word, ⟨p, more, rfl, apart⟩ | ⟨rfl, -⟩⟩ := off
  · refine ⟨_, word, fun rest same => apart ?_⟩
    exact (List.cons.inj (List.append_cancel_left (Token.word.inj same))).1
  · refine ⟨_, word, fun rest same => ?_⟩
    exact absurd (Token.word.inj same) (by simp)

theorem closes (off : Off base c s) (next : State) (more : List Token) :
    Strays base c (some (next, s.closed ++ more)) := by
  rintro _ _ ⟨⟩
  obtain ⟨w, word, ne⟩ := off.word_ne
  exact .inr ⟨.word w, more, by simp [State.closed, word], ne⟩

theorem strays {next : State} (off : Off base c next) : Strays base c (some (next, [])) := by
  rintro _ _ ⟨⟩
  exact .inl ⟨rfl, off⟩

theorem add_nil (off : Off base c s) : s.add [] = s := by
  obtain ⟨w, word, -⟩ := off.word
  obtain ⟨mode, _, pending, brackets⟩ := s
  subst word
  simp [State.add]

theorem redirects (off : Off base c s) (nondigit : digitsOf base = none) (next : State) :
    Strays base c (some (next, s.redirected)) := by
  obtain ⟨w, word, ne⟩ := off.word_ne
  have extends_ : ∃ more, w = base ++ more := by
    obtain ⟨-, v, same, ⟨p, more, rfl, -⟩ | ⟨rfl, -⟩⟩ := off
    · exact ⟨p :: more, Option.some.inj (word.symm.trans same)⟩
    · exact ⟨[], by simpa using Option.some.inj (word.symm.trans same)⟩
  obtain ⟨more, rfl⟩ := extends_
  rintro _ _ ⟨⟩
  refine .inr ⟨.word (base ++ more), [], ?_, ne⟩
  have letters := digitsOf_append nondigit more
  rw [State.redirected, word]
  cases here : base ++ more with
  | nil => rfl
  | cons p rest =>
    rw [here] at letters
    simp [letters]

theorem fresh (off : Off base c s) (mode : s.mode = .plain) (nondigit : digitsOf base = none) (d : Char) :
    Strays base c (fresh s d) := by
  have unnamed : ∀ m : Mode, (∃ quoted name, s.mode = .name quoted name) → ∃ quoted name, m = .name quoted name := by
    rintro m ⟨quoted, name, named⟩
    cases mode.symm.trans named
  unfold Shell.fresh
  rw [off.add_nil]
  refine .either (fun _ => by simpa using off.closes _ []) fun blank => ?_
  refine .either (fun _ => off.closes _ _) fun line => ?_
  refine .either (fun _ => (off.stays (unnamed _)).strays) fun single => ?_
  refine .either (fun _ => (off.stays (unnamed _)).strays) fun double => ?_
  refine .either (fun _ => (off.stays (unnamed _)).strays) fun escape => ?_
  refine .either (fun _ => (off.stays (unnamed _)).strays) fun _ => ?_
  refine .either (fun _ => fun _ _ none_ => nomatch none_) fun back => ?_
  refine .either (fun _ => (off.stays (unnamed _)).strays) fun _ => ?_
  refine .either (fun _ => off.closes _ _) fun opens => ?_
  refine .either (fun _ => ?_) fun shut => ?_
  · unfold closing
    split <;> exact off.closes _ _
  refine .either (fun _ => off.redirects nondigit _) fun _ => ?_
  refine .either (fun _ => by simpa using off.closes _ []) fun operator => ?_
  refine (off.grows s.mode ?_).strays
  rintro (special | named)
  · rintro ⟨⟩
    simp [isInert, blank, operator, line, single, double, escape, back, opens, shut] at special
  · simp [mode] at named

theorem plain (off : Off base c s) (mode : s.mode = .plain) (nondigit : digitsOf base = none) (d : Char) :
    Strays base c (plain s d) := by
  unfold Shell.plain
  rw [if_pos off.pending]
  exact off.fresh mode nondigit d

theorem double (off : Off base c s) (mode : s.mode = .double) (d : Char) : Strays base c (double s d) := by
  have unnamed : ∀ m : Mode, (∃ quoted name, s.mode = .name quoted name) → ∃ quoted name, m = .name quoted name := by
    rintro m ⟨quoted, name, named⟩
    cases mode.symm.trans named
  unfold Shell.double
  split
  · exact (off.stays (unnamed _)).strays
  split
  · exact (off.stays (unnamed _)).strays
  split
  · exact (off.stays (unnamed _)).strays
  split
  · exact fun _ _ none_ => nomatch none_
  · exact (off.grows s.mode fun _ => by simp).strays

theorem within {quoted : Bool} (off : ∀ mode, Off base c { s with mode := mode })
    (nondigit : digitsOf base = none) (d : Char) : Strays base c (within quoted s d) := by
  unfold Shell.within
  split
  · exact (off _).double rfl d
  · exact (off _).plain rfl nondigit d

theorem step (off : Off base c s) (nondigit : digitsOf base = none) (d : Char) : Strays base c (step s d) := by
  unfold Shell.step
  split
  · exact off.plain ‹_› nondigit d
  · rename_i mode
    split
    · exact (off.stays (by simp [mode])).strays
    · exact (off.grows s.mode (by simp)).strays
  · exact off.double ‹_› d
  · rename_i mode
    split
    · exact (off.stays (by simp [mode])).strays
    · exact (off.grows .plain (by simp)).strays
  · rename_i mode
    split
    · exact (off.stays (by simp [mode])).strays
    split
    · exact (off.grows .double (by simp)).strays
    · have first := off.grows .double (p := .letter '\\' true) (by simp)
      have both := first.grows .double (p := .letter d true) (by simp)
      simpa [State.add] using both.strays
  · rename_i quoted mode
    split
    · rintro _ _ ⟨⟩
      exact .inr ⟨_, [], rfl, fun more same => nomatch same⟩
    split
    · exact fun _ _ none_ => nomatch none_
    split
    · exact (off.stays fun _ => ⟨_, _, rfl⟩).strays
    split
    · exact (off.grows _ (by simp)).strays
    · refine within (fun m => off.grows m ?_) nondigit d
      rintro (special | named)
      · rintro ⟨⟩
        cases special
      · simp [mode] at named
  · rename_i quoted name mode
    split
    · exact (off.stays fun _ => ⟨_, _, rfl⟩).strays
    · exact within (fun m => off.grows m (by simp)) nondigit d
  · rename_i mode
    split
    · exact fun _ _ none_ => nomatch none_
    · exact (off.stays fun ⟨_, _, named⟩ => by simp [mode] at named).plain rfl nondigit d
  · rename_i mode
    split
    · rintro _ _ ⟨⟩
      exact .inr ⟨_, [], rfl, fun more same => nomatch same⟩
    · exact off.strays

theorem finish (off : Off base c s) (ends : finish s = some us) (more : List Piece)
    (rest : List Token) : us ≠ .word (base ++ .letter c false :: more) :: rest := by
  rintro rfl
  unfold Shell.finish at ends
  split at ends
  · cases ends
  rw [if_pos off.pending] at ends
  have closed : ∀ {v : State}, Off base c v → v.closed ≠ .word (base ++ .letter c false :: more) :: rest := by
    intro v there same
    obtain ⟨w, word, ne⟩ := there.word_ne
    rw [State.closed, word] at same
    exact ne more (List.cons.inj same).1
  dsimp only at ends
  split at ends
  · exact closed off (Option.some.inj ends)
  · cases ends
  · exact closed (off.grows s.mode (p := .letter '\\' true) (by simp)) (Option.some.inj ends)
  · rename_i mode
    refine closed (off.grows s.mode (p := .letter '$' false) ?_) (Option.some.inj ends)
    rintro (special | named)
    · rintro ⟨⟩
      cases special
    · simp [mode] at named
  · exact closed (off.grows s.mode (p := .parameter _ false) (by simp)) (Option.some.inj ends)
  · cases ends

end Off

/-- To its end the text never has the word with `c` behind `base` as its next token. -/
theorem Strays.run {base : List Piece} {c d : Char} (strays : Strays base c (step s d))
    (nondigit : digitsOf base = none) {rest : Text} (ran : run s (d :: rest) = some (last, ts))
    (ends : finish last = some us) (more : List Piece) (behind : List Token) :
    ts ++ us ≠ .word (base ++ .letter c false :: more) :: behind := by
  induction rest generalizing s d ts with
  | nil =>
    obtain ⟨next, front, back, stepped, ⟨⟩, rfl⟩ := run_cons ran
    rcases strays _ _ stepped with ⟨rfl, off⟩ | ⟨t, others, rfl, ne⟩
    · exact off.finish ends more behind
    · exact fun same => ne more (List.cons.inj same).1
  | cons e rest ih =>
    obtain ⟨next, front, back, stepped, after, rfl⟩ := run_cons ran
    rcases strays _ _ stepped with ⟨rfl, off⟩ | ⟨t, others, rfl, ne⟩
    · exact ih (off.step nondigit e) after
    · exact fun same => ne more (List.cons.inj same).1

end Machinen.Shell
