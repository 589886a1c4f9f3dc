import Machinen.Console.NoiseFilter

/-! When the filter writes the workload's bytes whatever the chunks are that the console arrives in. -/
namespace Machinen.Console

open Utf8
open Runtime.Multiplex (isSpace)

theorem lines_line {a : Bytes} (free : lineFeed ∉ a) (b : Bytes) :
    lines (a ++ lineFeed :: b) = (a ++ [lineFeed]) :: lines b := by
  induction a with
  | nil => simp [lines]
  | cons c a ih =>
    simp only [List.mem_cons, not_or] at free
    obtain ⟨apart, free⟩ := free
    simp [lines, Ne.symm apart, ih free]

theorem lines_last {a : Bytes} (free : lineFeed ∉ a) (some_ : a ≠ []) : lines a = [a] := by
  induction a with
  | nil => exact absurd rfl some_
  | cons c a ih =>
    simp only [List.mem_cons, not_or] at free
    obtain ⟨apart, free⟩ := free
    cases a with
    | nil => simp [lines, Ne.symm apart]
    | cons d a =>
      rw [lines, if_neg (Ne.symm apart), ih free (by simp)]

theorem contents_free {a : Bytes} (free : lineFeed ∉ a) : contents a = a := by
  refine List.filter_eq_self.mpr fun b mem => decide_eq_true fun same => ?_
  exact free (same ▸ mem)

theorem contents_line {a : Bytes} (free : lineFeed ∉ a) : contents (a ++ [lineFeed]) = a := by
  have own := contents_free free
  unfold contents at own ⊢
  rw [List.filter_append, own]
  simp

theorem stream_cases (stream : Bytes) :
    ∃ a tail, stream = a ++ tail ∧ lineFeed ∉ a ∧ (tail = [] ∨ ∃ b, tail = lineFeed :: b) := by
  by_cases mem : lineFeed ∈ stream
  · obtain ⟨a, b, rfl, free⟩ := List.eq_append_cons_of_mem mem
    exact ⟨a, lineFeed :: b, rfl, free, .inr ⟨b, rfl⟩⟩
  · exact ⟨stream, [], by simp, mem, .inl rfl⟩

variable {bytes : Bytes} {text : Text}

theorem last_line (mem : lineFeed ∈ bytes) :
    ∃ x y, bytes = x ++ lineFeed :: y ∧ lineFeed ∉ y := by
  obtain ⟨y, x, same, free⟩ := List.eq_append_cons_of_mem (List.mem_reverse.mpr mem)
  refine ⟨x.reverse, y.reverse, ?_, by simpa using free⟩
  rw [← List.reverse_reverse bytes, same]
  simp

theorem split_free (free : newline ∉ text) : split text = [text] := by
  induction text with
  | nil => rfl
  | cons c text ih =>
    simp only [List.mem_cons, not_or] at free
    obtain ⟨apart, free⟩ := free
    simp [split, Ne.symm apart, ih free]

theorem split_line {a : Text} (free : newline ∉ a) (b : Text) : split (a ++ newline :: b) = a :: split b := by
  induction a with
  | nil => simp [split]
  | cons c a ih =>
    simp only [List.mem_cons, not_or] at free
    obtain ⟨apart, free⟩ := free
    simp [split, Ne.symm apart, ih free]

theorem split_ne_nil (text : Text) : split text ≠ [] := by
  cases text with
  | nil => simp [split]
  | cons c text =>
    unfold split
    split
    · simp
    · split <;> simp

theorem split_snoc (text : Text) : split (text ++ [newline]) = split text ++ [[]] := by
  induction text with
  | nil => simp [split]
  | cons c text ih =>
    rw [List.cons_append, split, split, ih]
    split
    · rfl
    · cases parts : split text with
      | nil => exact absurd parts (split_ne_nil text)
      | cons part parts => rfl

theorem splitLines_snoc (text : Text) : splitLines (text ++ [newline]) = split text := by
  simp [splitLines, split_snoc]

theorem lastPart_line (a : Text) {b : Text} (free : newline ∉ b) : lastPart (a ++ newline :: b) = b := by
  have none : ∀ c ∈ b.reverse, decide (c ≠ newline) = true := by
    exact fun c mem => decide_eq_true fun same => free (same ▸ List.mem_reverse.mp mem)
  unfold lastPart
  rw [List.reverse_append, List.reverse_cons, List.append_assoc, List.takeWhile_append_of_pos none]
  simp

theorem complete_line (a : Text) {b : Text} (free : newline ∉ b) :
    complete (a ++ newline :: b) = a ++ [newline] := by
  have none : ∀ c ∈ b.reverse, decide (c ≠ newline) = true := by
    exact fun c mem => decide_eq_true fun same => free (same ▸ List.mem_reverse.mp mem)
  unfold complete
  rw [List.reverse_append, List.reverse_cons, List.append_assoc, List.dropWhile_append_of_pos none]
  simp

def Ascii (bytes : Bytes) : Prop := ∀ b ∈ bytes, b.toNat < 0x80

/-- However beginnings of the text that look like a prompt are cut off, they are noise, and what is left
is noise or blank. -/
def Quiet (text : Text) : Prop :=
  ∀ cuts rest, text = List.flatten cuts ++ rest → (∀ p ∈ cuts, isLikelyInteractivePrompt p = true) →
    (∀ p ∈ cuts, isBootNoiseLine p = true) ∧ dull rest = true

/-- No beginning looks like a prompt and is noise. -/
def Outspoken (text : Text) : Prop :=
  ∀ p, p <+: text → isLikelyInteractivePrompt p = true → isBootNoiseLine p = false

def isDull (line : Bytes) : Bool := dull (decode (contents line))

/-- The lines in front of the workload are quiet, its first line is outspoken, and its characters are
those of one byte. -/
def Steady (stream : Bytes) : Prop :=
  (∀ line ∈ (lines stream).takeWhile isDull, Quiet (mask (contents line))) ∧ Ascii (workload stream) ∧
    ∀ line ∈ ((lines stream).dropWhile isDull).head?, Outspoken (mask (contents line))

theorem workload_eq (stream : Bytes) : workload stream = ((lines stream).dropWhile isDull).flatten := rfl

theorem lines_flatten (stream : Bytes) : (lines stream).flatten = stream := by
  induction stream with
  | nil => rfl
  | cons b stream ih =>
    unfold lines
    split
    · simp [ih]
    · split
      · rename_i none
        rw [none] at ih
        simp [← ih]
      · rename_i line rest some_
        rw [some_] at ih
        simp [← ih]

section Streams

variable {a : Bytes} (free : lineFeed ∉ a)

include free

theorem steady_dull (is : dull (decode a) = true) (b : Bytes) :
    (Steady (a ++ lineFeed :: b) ↔ Quiet (mask a) ∧ Steady b) ∧ workload (a ++ lineFeed :: b) = workload b := by
  have dull_ : isDull (a ++ [lineFeed]) = true := by rwa [isDull, contents_line free]
  simp only [Steady, workload_eq, lines_line free, List.takeWhile_cons, List.dropWhile_cons, dull_, if_true,
    List.forall_mem_cons, contents_line free, and_assoc, and_true]

theorem steady_last (is : dull (decode a) = true) :
    (Steady a ↔ Quiet (mask a)) ∧ workload a = [] := by
  by_cases none : a = []
  · subst none
    have quiet : Quiet (mask []) := by
      intro cuts rest whole prompts
      have nothing : List.flatten cuts ++ rest = [] := whole.symm
      obtain ⟨empty, rfl⟩ := List.append_eq_nil_iff.mp nothing
      refine ⟨fun p mem => ?_, is⟩
      have bare := List.flatten_eq_nil_iff.mp empty p mem
      have looks := prompts p mem
      rw [bare] at looks
      exact absurd looks (by decide)
    simp [Steady, workload_eq, lines, quiet, Ascii]
  · have dull_ : isDull a = true := by rwa [isDull, contents_free free]
    simp [Steady, workload_eq, lines_last free none, dull_, contents_free free, Ascii]

theorem steady_work (is : dull (decode a) = false) {tail : Bytes} (ends : tail = [] ∨ ∃ b, tail = lineFeed :: b) :
    (Steady (a ++ tail) ↔ Ascii (a ++ tail) ∧ Outspoken (mask a)) ∧ workload (a ++ tail) = a ++ tail := by
  have some_ : a ≠ [] := by
    rintro rfl
    exact absurd is (by decide)
  have first : ∃ line rest, lines (a ++ tail) = line :: rest ∧ contents line = a := by
    rcases ends with rfl | ⟨b, rfl⟩
    · exact ⟨a, [], by simpa using lines_last free some_, contents_free free⟩
    · exact ⟨_, _, lines_line free b, contents_line free⟩
  obtain ⟨line, rest, found, own⟩ := first
  have lively : isDull line = false := by rwa [isDull, own]
  have whole : workload (a ++ tail) = a ++ tail := by
    rw [workload_eq, found, List.dropWhile_cons, lively, if_neg Bool.false_ne_true, ← found, lines_flatten]
  refine ⟨?_, whole⟩
  rw [Steady, whole, found]
  simp [lively, own]

end Streams

theorem encode_mask (ascii : Ascii bytes) : encode (mask bytes) = bytes := by
  induction bytes with
  | nil => rfl
  | cons b bytes ih =>
    have small := ascii b List.mem_cons_self
    have rest := ih fun c mem => ascii c (List.mem_cons_of_mem b mem)
    unfold mask at rest ⊢
    rw [List.map_cons, encode_cons, maskByte_ascii small, encode_ascii small, rest]
    rfl

theorem encode_newline : encode [newline] = [lineFeed] := by decide

theorem mask_small (ascii : Ascii bytes) : ∀ c ∈ mask bytes, c.toNat < 0x80 := by
  intro c mem
  obtain ⟨b, listed, rfl⟩ := List.mem_map.mp mem
  have small := ascii b listed
  rw [maskByte_ascii small, ofNat_toNat small]
  exact small

theorem Sim.eq_mask {t : Text} (ascii : Ascii bytes) (sim : Sim false (mask bytes) t) :
    t = mask bytes := sim.eq_of_ascii (mask_small ascii)

theorem maskByte_newline (b : UInt8) : maskByte b = newline ↔ b = lineFeed := by
  constructor
  · intro same
    by_cases small : b.toNat < 0x80
    · rw [maskByte_ascii small] at same
      have value := congrArg Char.toNat same
      rw [ofNat_toNat small] at value
      exact UInt8.toNat_inj.mp value
    · rw [maskByte_wide (Nat.le_of_not_lt small)] at same
      exact absurd same (by decide)
  · rintro rfl
    decide

theorem newline_mem : newline ∈ mask bytes ↔ lineFeed ∈ bytes := by
  simp [mask, maskByte_newline]

theorem not_blank_of_prompt (is : isLikelyInteractivePrompt text = true) : isBlank text = false := by
  obtain ⟨user, host, tail, whole, -⟩ := (prompt_iff text).mp is
  by_contra blank
  have spaces := (Sim.isBlank_iff text).mp (by simpa using blank)
  exact absurd (spaces '@' (by simp [whole])) (by decide)

theorem dull_of {m t : Text} (sim : Sim false m t) (is : dull m = true) : dull t = true := by
  unfold dull at is ⊢
  rw [Bool.or_eq_true] at is ⊢
  exact is.imp sim.noise sim.blank

theorem Quiet.self (quiet : Quiet text) : dull text = true :=
  (quiet [] text rfl (by simp)).2

theorem Quiet.cut {p : Text} (quiet : Quiet (p ++ text)) (is : isLikelyInteractivePrompt p = true) :
    isBootNoiseLine p = true ∧ Quiet text := by
  refine ⟨(quiet [p] text (by simp) (by simpa using is)).1 p (by simp), fun cuts rest whole prompts => ?_⟩
  have all := quiet (p :: cuts) rest (by simp [whole]) (List.forall_mem_cons.mpr ⟨is, prompts⟩)
  exact ⟨(List.forall_mem_cons.mp all.1).2, all.2⟩

namespace NoiseFilter

variable {f : NoiseFilter}

/-- Nothing has been written, and what is held back is a reading of some bytes. -/
structure Waiting (f : NoiseFilter) (r : Bytes) : Prop where
  held : f.readyFired = false
  silent : f.out = []
  reads : Sim false (mask r) f.residual

/-- What was written so far. -/
structure Passing (f : NoiseFilter) (done : Bytes) : Prop where
  through : f.readyFired = true
  empty : f.residual = []
  wrote : f.out = done

/-- What is left of a stream is written as it is to be. -/
def Right (ahead whole : Bytes) (f : NoiseFilter) : Prop :=
  (∃ r, lineFeed ∉ r ∧ f.Waiting r ∧ Steady (r ++ ahead) ∧ workload (r ++ ahead) = whole) ∨
    ∃ done, f.Passing done ∧ Ascii ahead ∧ done ++ ahead = whole

@[simp] theorem routeLine_residual (line terminator : Text) :
    (f.routeLine line terminator).residual = f.residual := by
  unfold routeLine keep passThrough ready
  split
  · rfl
  · split
    · rfl
    · split
      · rfl
      · split <;> rfl

theorem routeLine_dull (held : f.readyFired = false) {line : Text} (is : dull line = true) (terminator : Text) :
    (f.routeLine line terminator).readyFired = false ∧ (f.routeLine line terminator).out = f.out := by
  unfold dull at is
  rw [Bool.or_eq_true] at is
  unfold routeLine keep
  split
  · exact ⟨held, rfl⟩
  · split
    · exact ⟨held, rfl⟩
    · rename_i loud
      split
      · exact ⟨held, rfl⟩
      · rename_i seen
        exact (is.elim (fun noise => loud ⟨held, noise⟩) fun blank => seen ⟨held, blank⟩).elim

theorem routeLine_lively {line : Text} (is : dull line = false) (terminator : Text) :
    (f.routeLine line terminator).readyFired = true ∧
      (f.routeLine line terminator).out = f.out ++ encode (line ++ terminator) := by
  unfold dull at is
  rw [Bool.or_eq_false_iff] at is
  have some_ : line ≠ [] := by
    rintro rfl
    exact absurd is.2 (by decide)
  unfold routeLine
  rw [if_neg (by simp [some_]), if_neg (by simp [is.1]), if_neg (by simp [is.2])]
  unfold ready passThrough
  split
  · rename_i through
    exact ⟨through, rfl⟩
  · exact ⟨rfl, rfl⟩

theorem routeLine_through (through : f.readyFired = true) (line terminator : Text) :
    (f.routeLine line terminator).readyFired = true ∧
      (f.routeLine line terminator).out = f.out ++ encode (line ++ terminator) := by
  unfold routeLine
  split
  · rename_i none
    rw [none.1, none.2]
    exact ⟨through, (List.append_nil _).symm⟩
  · rw [if_neg (by simp [through]), if_neg (by simp [through])]
    unfold ready passThrough
    rw [if_pos through]
    exact ⟨through, rfl⟩

def route (f : NoiseFilter) (parts : List Text) : NoiseFilter :=
  parts.foldl (fun f line => f.routeLine line [newline]) f

@[simp] theorem route_residual (parts : List Text) : (f.route parts).residual = f.residual := by
  induction parts generalizing f with
  | nil => rfl
  | cons part parts ih => exact ih.trans (routeLine_residual _ _)

theorem route_through (through : f.readyFired = true) (text : Text) :
    (f.route (split text)).readyFired = true ∧
      (f.route (split text)).out = f.out ++ encode (text ++ [newline]) := by
  have parts : ∀ (parts : List Text) (f : NoiseFilter), f.readyFired = true →
      (f.route parts).readyFired = true ∧
        (f.route parts).out = f.out ++ encode (parts.flatMap fun part => part ++ [newline]) := by
    intro parts
    induction parts with
    | nil =>
      intro f through
      exact ⟨through, (List.append_nil _).symm⟩
    | cons part parts ih =>
      intro f through
      obtain ⟨through, wrote⟩ := routeLine_through through part [newline]
      obtain ⟨through, more⟩ := ih _ through
      refine ⟨through, more.trans ?_⟩
      rw [wrote, List.flatMap_cons, encode_append (part ++ [newline]), List.append_assoc]
  have back : ∀ text : Text, ((split text).flatMap fun part => part ++ [newline]) = text ++ [newline] := by
    intro text
    induction text with
    | nil => rfl
    | cons c text ih =>
      unfold split
      split
      · rename_i is
        simp [ih, is]
      · split
        · rename_i none
          exact absurd none (split_ne_nil text)
        · rename_i part parts found
          rw [found] at ih
          simpa using ih
  have all := parts (split text) f through
  rwa [back] at all

/-- The lines before a line feed: they are held back, or the workload has begun among them. -/
theorem route_right (held : f.readyFired = false) (silent : f.out = []) {x : Bytes} {t : Text}
    (reads : Sim false (mask x) t) {ahead : Bytes} (steady : Steady (x ++ lineFeed :: ahead)) :
    ((f.route (split t)).readyFired = false ∧ (f.route (split t)).out = [] ∧ Steady ahead ∧
        workload ahead = workload (x ++ lineFeed :: ahead)) ∨
      ((f.route (split t)).readyFired = true ∧ Ascii ahead ∧
        (f.route (split t)).out ++ ahead = workload (x ++ lineFeed :: ahead)) := by
  induction length : x.length using Nat.strongRecOn generalizing f x t with
  | ind n ih =>
    obtain ⟨a, tail, rfl, free, ends⟩ := stream_cases x
    have same : Ascii a → ∀ u, Sim false (mask a) u → u = decode a := fun ascii u sim =>
      (sim.eq_mask ascii).trans ((decode_sim a).eq_mask ascii).symm
    have back : Ascii a → encode (decode a ++ [newline]) = a ++ [lineFeed] := fun ascii => by
      rw [encode_append, (decode_sim a).eq_mask ascii, encode_mask ascii]
      rfl
    rcases ends with rfl | ⟨b, rfl⟩
    · rw [List.append_nil] at reads steady ⊢
      have plain : newline ∉ t := fun mem => free (newline_mem.mp ((reads.mem_iff (by decide)).mpr mem))
      have one : f.route (split t) = f.routeLine t [newline] := by rw [split_free plain]; rfl
      rw [one]
      cases is : dull (decode a) with
      | true =>
        obtain ⟨parts, whole⟩ := steady_dull free is ahead
        obtain ⟨quiet, later⟩ := parts.mp steady
        obtain ⟨held', out⟩ := routeLine_dull held (dull_of reads quiet.self) [newline]
        exact .inl ⟨held', out.trans silent, later, whole.symm⟩
      | false =>
        obtain ⟨parts, whole⟩ := steady_work free is (.inr ⟨ahead, rfl⟩)
        obtain ⟨ascii, -⟩ := parts.mp steady
        have own : Ascii a := fun b mem => ascii b (List.mem_append_left _ mem)
        rw [same own t reads]
        obtain ⟨through, out⟩ := routeLine_lively is [newline] (f := f)
        refine .inr ⟨through, fun b mem => ascii b (by simp [mem]), ?_⟩
        rw [out, silent, back own, whole]
        simp
    · have masked : mask (a ++ lineFeed :: b) = mask a ++ newline :: mask b := by
        rw [mask_append]
        rfl
      rw [masked] at reads
      obtain ⟨ta, tb, rfl, left, right⟩ := reads.cut (by decide)
      have plain : newline ∉ ta := fun mem => free (newline_mem.mp ((left.mem_iff (by decide)).mpr mem))
      have turn : f.route (split (ta ++ newline :: tb)) = (f.routeLine ta [newline]).route (split tb) := by
        rw [split_line plain]
        rfl
      rw [turn]
      rw [List.append_assoc, List.cons_append] at steady ⊢
      cases is : dull (decode a) with
      | true =>
        obtain ⟨parts, whole⟩ := steady_dull free is (b ++ lineFeed :: ahead)
        obtain ⟨quiet, later⟩ := parts.mp steady
        obtain ⟨held', out⟩ := routeLine_dull held (dull_of left quiet.self) [newline]
        rw [whole]
        exact ih b.length (by rw [← length]; simp; omega) held' (out.trans silent) right later rfl
      | false =>
        obtain ⟨parts, whole⟩ := steady_work free is (.inr ⟨b ++ lineFeed :: ahead, rfl⟩)
        obtain ⟨ascii, -⟩ := parts.mp steady
        have own : Ascii a := fun b mem => ascii b (List.mem_append_left _ mem)
        have next : Ascii b := fun c mem => ascii c (by simp [mem])
        rw [same own ta left, right.eq_mask next]
        obtain ⟨through, out⟩ := routeLine_lively is [newline] (f := f)
        obtain ⟨through', out'⟩ := route_through through (mask b)
        refine .inr ⟨through', fun b mem => ascii b (by simp [mem]), ?_⟩
        rw [out', out, silent, back own, whole, encode_append, encode_mask next, encode_newline]
        simp

theorem start_right {stream : Bytes} (steady : Steady stream) (held : f.readyFired = false)
    (silent : f.out = []) (empty : f.residual = []) : Right stream (workload stream) f :=
  .inl ⟨[], by simp, ⟨held, silent, by rw [empty]; exact .nil false⟩, by simpa using steady, by simp⟩

theorem flush_right {whole : Bytes} (right : Right [] whole f) : f.flush.out = whole := by
  unfold flush
  rcases right with ⟨r, free, waiting, steady, same⟩ | ⟨done, passing, -, same⟩
  · rw [List.append_nil] at steady same
    have reads := waiting.reads
    split
    · rename_i none
      rw [none] at reads
      have empty : r = [] := List.map_eq_nil_iff.mp reads.left_nil
      rw [waiting.silent, ← same, empty]
      rfl
    · cases is : dull (decode r) with
      | true =>
        obtain ⟨parts, whole_⟩ := steady_last free is
        have out := (routeLine_dull (f := { f with residual := [] }) waiting.held
          (dull_of reads (parts.mp steady).self) []).2
        rw [out, ← same, whole_]
        exact waiting.silent
      | false =>
        obtain ⟨parts, whole_⟩ := steady_work free is (.inl rfl)
        rw [List.append_nil] at parts whole_
        have ascii := (parts.mp steady).1
        have text := (reads.eq_mask ascii).trans ((decode_sim r).eq_mask ascii).symm
        have out := (routeLine_lively (f := { f with residual := [] }) (text ▸ is) []).2
        rw [out, ← same, whole_, List.append_nil, text, (decode_sim r).eq_mask ascii, encode_mask ascii]
        exact congrArg (· ++ r) waiting.silent
  · rw [if_pos passing.empty, passing.wrote, ← same, List.append_nil]

/-- A beginning that looks like a prompt: it is held back and the rest goes on as it was to, or it is
the beginning of the workload. -/
theorem prompt_cut {p ahead : Bytes} (free : lineFeed ∉ p) (steady : Steady (p ++ ahead))
    (is : isLikelyInteractivePrompt (mask p) = true) :
    (isBootNoiseLine (mask p) = true ∧ Steady ahead ∧ workload ahead = workload (p ++ ahead)) ∨
      (isBootNoiseLine (mask p) = false ∧ Ascii (p ++ ahead) ∧ workload (p ++ ahead) = p ++ ahead) := by
  obtain ⟨a, tail, rfl, free', ends⟩ := stream_cases ahead
  have line : lineFeed ∉ p ++ a := by simp [free, free']
  rw [← List.append_assoc] at steady ⊢
  cases dull_ : dull (decode (p ++ a)) with
  | true =>
    have rest : ∀ {text}, Quiet text → text = mask (p ++ a) →
        isBootNoiseLine (mask p) = true ∧ Quiet (mask a) ∧ dull (decode a) = true := by
      rintro text quiet rfl
      rw [mask_append] at quiet
      obtain ⟨noise, quiet⟩ := quiet.cut is
      exact ⟨noise, quiet, dull_of (decode_sim a) quiet.self⟩
    rcases ends with rfl | ⟨b, rfl⟩
    · rw [List.append_nil] at steady ⊢
      obtain ⟨parts, whole⟩ := steady_last line dull_
      obtain ⟨noise, quiet, later⟩ := rest (parts.mp steady) rfl
      obtain ⟨parts', whole'⟩ := steady_last free' later
      rw [List.append_nil]
      exact .inl ⟨noise, parts'.mpr quiet, whole'.trans whole.symm⟩
    · obtain ⟨parts, whole⟩ := steady_dull line dull_ b
      obtain ⟨quiet, steady⟩ := parts.mp steady
      obtain ⟨noise, quiet, later⟩ := rest quiet rfl
      obtain ⟨parts', whole'⟩ := steady_dull free' later b
      exact .inl ⟨noise, parts'.mpr ⟨quiet, steady⟩, whole'.trans whole.symm⟩
  | false =>
    obtain ⟨parts, whole⟩ := steady_work line dull_ ends
    obtain ⟨ascii, outspoken⟩ := parts.mp steady
    refine .inr ⟨outspoken _ ?_ is, ascii, whole⟩
    rw [mask_append]
    exact List.prefix_append _ _

theorem push_right {chunk ahead whole : Bytes} (right : Right (chunk ++ ahead) whole f) :
    Right ahead whole (f.push chunk) := by
  unfold push
  dsimp only
  rcases right with ⟨r, free, waiting, steady, same⟩ | ⟨done, passing, ascii, same⟩
  · have reads : Sim false (mask (r ++ chunk)) (f.residual ++ decode chunk) := by
      rw [mask_append]
      exact waiting.reads.append (decode_sim chunk)
    rw [if_neg (by simp [waiting.held])]
    generalize f.residual ++ decode chunk = combined at reads ⊢
    rw [← List.append_assoc] at steady same
    split
    · rename_i plain
      have free' : lineFeed ∉ r ++ chunk := fun mem =>
        plain ((reads.mem_iff (by decide)).mp (newline_mem.mpr mem))
      split
      · rename_i prompt
        rcases prompt_cut free' steady (reads.prompt prompt) with
          ⟨noise, steady, later⟩ | ⟨loud, ascii, later⟩
        · have dull_ : dull combined = true := by simp [dull, reads.noise noise]
          obtain ⟨held, out⟩ := routeLine_dull (f := { f with residual := [] }) waiting.held dull_ []
          exact same ▸ later ▸ start_right steady held (out.trans waiting.silent) (by simp)
        · have own : Ascii (r ++ chunk) := fun b mem => ascii b (List.mem_append_left _ mem)
          have text := reads.eq_mask own
          have lively : dull combined = false := by
            simp [dull, text, loud, not_blank_of_prompt (reads.prompt prompt)]
          obtain ⟨through, out⟩ := routeLine_lively (f := { f with residual := [] }) lively []
          refine .inr ⟨r ++ chunk, ⟨through, by simp, ?_⟩, fun b mem => ascii b (by simp [mem]), later ▸ same⟩
          rw [out, List.append_nil, text, encode_mask own]
          exact congrArg (· ++ (r ++ chunk)) waiting.silent
      · exact .inl ⟨r ++ chunk, free', ⟨waiting.held, waiting.silent, reads⟩, steady, same⟩
    · rename_i broken
      rw [not_not] at broken
      have mem := newline_mem.mp ((reads.mem_iff (by decide)).mpr broken)
      obtain ⟨x, y, parts, free'⟩ := last_line mem
      have masked : mask (x ++ lineFeed :: y) = mask x ++ newline :: mask y := by
        rw [mask_append]
        rfl
      rw [parts, masked] at reads
      rw [parts, List.append_assoc, List.cons_append] at steady same
      obtain ⟨tx, ty, rfl, left, last⟩ := reads.cut (by decide)
      have plain : newline ∉ ty := fun mem => free' (newline_mem.mp ((last.mem_iff (by decide)).mpr mem))
      rw [complete_line tx plain, lastPart_line tx plain, splitLines_snoc]
      have went := route_right (f := { f with residual := ty }) waiting.held waiting.silent left steady
      have residual : (route { f with residual := ty } (split tx)).residual = ty := route_residual _
      unfold route at went residual
      generalize List.foldl _ _ _ = g at went residual ⊢
      rcases went with ⟨held, silent, steady, later⟩ | ⟨through, ascii, out⟩
      · rw [if_neg (by simp [held])]
        exact .inl ⟨y, free', ⟨held, silent, residual ▸ last⟩, steady, later.trans same⟩
      · have own : Ascii y := fun b mem => ascii b (List.mem_append_left _ mem)
        have text := last.eq_mask own
        have ahead_ : Ascii ahead := fun b mem => ascii b (List.mem_append_right _ mem)
        by_cases none : y = []
        · subst none
          rw [text] at residual
          rw [if_neg (by simp [residual, mask])]
          exact .inr ⟨g.out, ⟨through, residual, rfl⟩, ahead_, out.trans same⟩
        · have some_ : g.residual ≠ [] := by
            rw [residual, text]
            simpa [mask] using none
          rw [if_pos (by simp [through, some_])]
          refine .inr ⟨g.out ++ y, ⟨through, rfl, ?_⟩, ahead_, ?_⟩
          · rw [residual, text]
            exact congrArg (g.out ++ ·) (encode_mask own)
          · rw [List.append_assoc]
            exact out.trans same
  · rw [if_pos passing.through]
    have own : Ascii chunk := fun b mem => ascii b (List.mem_append_left _ mem)
    refine .inr ⟨done ++ chunk, ⟨passing.through, passing.empty, ?_⟩,
      fun b mem => ascii b (List.mem_append_right _ mem), by rw [List.append_assoc]; exact same⟩
    unfold passThrough
    rw [(decode_sim chunk).eq_mask own, encode_mask own, passing.wrote]

end NoiseFilter

/-- A steady stream is written as it is to be, however it arrives. -/
theorem written_of_steady {chunks : List Bytes} (steady : Steady chunks.flatten) :
    written chunks = workload chunks.flatten := by
  have all : ∀ (chunks : List Bytes) (f : NoiseFilter) (whole : Bytes), f.Right chunks.flatten whole →
      (chunks.foldl NoiseFilter.push f).Right [] whole := by
    intro chunks
    induction chunks with
    | nil => exact fun f whole right => right
    | cons chunk chunks ih => exact fun f whole right => ih _ _ (NoiseFilter.push_right right)
  exact NoiseFilter.flush_right (all chunks {} _ (NoiseFilter.start_right steady rfl rfl rfl))

end Machinen.Console
