import Machinen.Console.Lossless

/-! Chunks that are chosen against the filter: bytes that arrive one by one, and pieces of a line that end
where a prompt seems to. -/
namespace Machinen.Console

open Utf8
open Runtime.Multiplex (isSpace)

theorem csiLength_snoc (text : Text) : csiLength (text ++ [replacement]) = csiLength text := by
  have parameter : isParameter replacement = false := by decide
  have intermediate : isIntermediate replacement = false := by decide
  have final : isFinal replacement = false := by decide
  cases text with
  | nil => rfl
  | cons c text =>
    by_cases is : c = '['
    · subst is
      have params : (text ++ [replacement]).takeWhile isParameter = text.takeWhile isParameter ∧
          (text ++ [replacement]).dropWhile isParameter = text.dropWhile isParameter ++ [replacement] := by
        induction text with
        | nil => simp [parameter]
        | cons d text ih => cases here : isParameter d <;> simp [here, ih]
      have inters : ∀ rest : Text,
          (rest ++ [replacement]).takeWhile isIntermediate = rest.takeWhile isIntermediate ∧
          (rest ++ [replacement]).dropWhile isIntermediate =
            rest.dropWhile isIntermediate ++ [replacement] := by
        intro rest
        induction rest with
        | nil => simp [intermediate]
        | cons d rest ih => cases here : isIntermediate d <;> simp [here, ih]
      simp only [List.cons_append, csiLength, params, inters]
      cases (text.dropWhile isParameter).dropWhile isIntermediate with
      | nil => simp [final]
      | cons d rest => rfl
    · rw [List.cons_append, csiLength_other is, csiLength_other is]

theorem stripCsi_snoc (text : Text) :
    stripCsiFrom 0 (text ++ [replacement]) = stripCsiFrom 0 text ++ [replacement] := by
  induction length : text.length using Nat.strongRecOn generalizing text with
  | ind n ih =>
    subst length
    cases text with
    | nil => rfl
    | cons c text =>
      rw [List.cons_append, stripCsi_cons, stripCsi_cons, csiLength_snoc]
      split
      · rename_i taken found
        split at found
        · obtain ⟨own, rest, rfl, rfl, -⟩ := csiLength_some found
          rw [List.append_assoc, List.drop_left, List.drop_left]
          exact ih rest.length (by simp) rest rfl
        · cases found
      · rw [ih text.length (by simp) text rfl]
        rfl

theorem strip_snoc (text : Text) :
    stripAnsiControl (text ++ [replacement]) = stripAnsiControl text ++ [replacement] := by
  have kept : replacement ≠ CR := by decide
  unfold stripAnsiControl
  rw [stripCsi_snoc, List.filter_append]
  simp [kept]

theorem not_prompt_snoc (text : Text) : isLikelyInteractivePrompt (text ++ [replacement]) = false := by
  by_contra is
  obtain ⟨user, host, tail, whole, -, -, -, -, tailOk⟩ := (prompt_iff _).mp (by simpa using is)
  obtain ⟨body, sign, rest, rfl, ends, known, -⟩ := (promptTail_iff tail).mp tailOk
  rw [strip_snoc] at whole
  rcases ends with rfl | rfl
  · have shape : user ++ '@' :: (host ++ ':' :: (body ++ [sign])) =
        (user ++ '@' :: (host ++ ':' :: body)) ++ [sign] := by simp
    rw [shape] at whole
    have same := (List.cons.inj (List.append_inj' whole rfl).2).1
    rcases known with rfl | rfl <;> exact absurd same (by decide)
  · have shape : user ++ '@' :: (host ++ ':' :: (body ++ [sign, ' '])) =
        (user ++ '@' :: (host ++ ':' :: (body ++ [sign]))) ++ [' '] := by simp
    rw [shape] at whole
    exact absurd (List.cons.inj (List.append_inj' whole rfl).2).1 (by decide)

def ones (bytes : Bytes) : List Bytes := bytes.map fun b => [b]

theorem ones_flatten (bytes : Bytes) : (ones bytes).flatten = bytes := by
  induction bytes with
  | nil => rfl
  | cons b bytes ih => simpa [ones] using ih

theorem wide_or (b : UInt8) : b.toNat < 0x80 ∨ 0x80 ≤ b.toNat := Nat.lt_or_ge _ _

theorem encode_maskByte (b : UInt8) : encode [maskByte b] = if b.toNat < 0x80 then [b] else [0xEF, 0xBF, 0xBD] := by
  rw [encode_cons]
  rcases wide_or b with small | wide
  · rw [maskByte_ascii small, encode_ascii small, if_pos small]
    rfl
  · rw [maskByte_wide wide, encode_replacement, if_neg (by omega)]
    rfl

def wide (bytes : Bytes) : Nat := bytes.countP fun b => decide (0x80 ≤ b.toNat)

theorem wide_append (x y : Bytes) : wide (x ++ y) = wide x + wide y := List.countP_append

theorem wide_zero {bytes : Bytes} : wide bytes = 0 ↔ Ascii bytes := by
  simp [wide, Ascii, List.countP_eq_zero]

variable {stream whole a : Bytes}

theorem encode_mask_counts (bytes : Bytes) : (encode (mask bytes)).length = bytes.length + 2 * wide bytes ∧
    wide (encode (mask bytes)) = 3 * wide bytes := by
  induction bytes with
  | nil => exact ⟨rfl, rfl⟩
  | cons b bytes ih =>
    have cons : encode (mask (b :: bytes)) = encode [maskByte b] ++ encode (mask bytes) := by
      rw [← encode_append]
      rfl
    have count : wide (b :: bytes) = wide [b] + wide bytes := wide_append [b] bytes
    rw [cons, List.length_append, wide_append, ih.1, ih.2, encode_maskByte, count]
    rcases wide_or b with small | high
    · have none : wide [b] = 0 := wide_zero.mpr (by simpa [Ascii] using small)
      simp [small, none]
      omega
    · have one : wide [b] = 1 := by simp [wide, high]
      have three : wide [0xEF, 0xBF, 0xBD] = 3 := by decide
      simp [show ¬ b.toNat < 128 by omega, one, three]
      omega

namespace NoiseFilter

variable {f : NoiseFilter}

/-- What is written in the end when the chunks arrive at a filter. -/
def ending (f : NoiseFilter) (chunks : List Bytes) : Bytes := (chunks.foldl push f).flush.out

theorem ending_through (through : f.readyFired = true) (empty : f.residual = []) (bytes : Bytes) :
    f.ending (ones bytes) = f.out ++ encode (mask bytes) := by
  induction bytes generalizing f with
  | nil =>
    unfold ending ones
    simp [flush, empty, mask, encode]
  | cons b bytes ih =>
    have next : f.push [b] = f.passThrough [maskByte b] := by
      unfold push
      rw [decode_one, if_pos through]
    have rest := ih (f := f.push [b]) (by rw [next]; exact through) (by rw [next]; exact empty)
    rw [next] at rest
    have cons : encode (mask (b :: bytes)) = encode [maskByte b] ++ encode (mask bytes) := by
      rw [← encode_append]
      rfl
    calc f.ending (ones (b :: bytes)) = (f.push [b]).ending (ones bytes) := rfl
      _ = f.out ++ encode [maskByte b] ++ encode (mask bytes) := by rw [next]; exact rest
      _ = f.out ++ encode (mask (b :: bytes)) := by rw [cons, List.append_assoc]

/-- No more has been read than a piece of a line, byte by byte. -/
structure Fresh (f : NoiseFilter) (r : Bytes) : Prop where
  held : f.readyFired = false
  silent : f.out = []
  reads : f.residual = mask r

/-- Bytes that arrive one by one are written, masked, from somewhere behind a character of one byte, if
at all. -/
theorem ending_ones {r : Bytes} (free : lineFeed ∉ r) (fresh : f.Fresh r) (bytes : Bytes) :
    f.ending (ones bytes) = [] ∨ ∃ x y, r ++ bytes = x ++ y ∧
      (∀ b, x.getLast? = some b → b.toNat < 0x80) ∧ f.ending (ones bytes) = encode (mask y) := by
  induction bytes generalizing f r with
  | nil =>
    have flushed : f.ending (ones []) = f.flush.out := rfl
    rw [flushed, List.append_nil]
    unfold flush
    split
    · exact .inl fresh.silent
    · cases is : dull f.residual with
      | true =>
        exact .inl ((routeLine_dull (f := { f with residual := [] }) fresh.held is []).2.trans fresh.silent)
      | false =>
        have out := (routeLine_lively (f := { f with residual := [] }) is []).2
        refine .inr ⟨[], r, rfl, by simp, ?_⟩
        rw [out, List.append_nil, fresh.reads]
        exact congrArg (· ++ encode (mask r)) fresh.silent
  | cons b bytes ih =>
    have turn : f.ending (ones (b :: bytes)) = (f.push [b]).ending (ones bytes) := rfl
    have snoc : r ++ b :: bytes = (r ++ [b]) ++ bytes := by simp
    have grown : mask (r ++ [b]) = mask r ++ [maskByte b] := mask_append r [b]
    -- What the rest does when the bytes so far were held back, and when they were written.
    have back : lineFeed ∉ ([] : Bytes) → (f.push [b]).Fresh [] → b.toNat < 0x80 →
        f.ending (ones (b :: bytes)) = [] ∨ ∃ x y, r ++ b :: bytes = x ++ y ∧
          (∀ c, x.getLast? = some c → c.toNat < 0x80) ∧ f.ending (ones (b :: bytes)) = encode (mask y) := by
      intro none held small
      rw [turn]
      rcases ih none held with silent | ⟨x, y, parts, last, out⟩
      · exact .inl silent
      refine .inr ⟨r ++ [b] ++ x, y, ?_, ?_, out⟩
      · rw [List.nil_append] at parts
        rw [snoc, parts]
        simp
      · intro c found
        cases x with
        | nil =>
          have same : b = c := by simpa using found
          exact same ▸ small
        | cons d x =>
          exact last c (by simpa [List.getLast?_append, List.getLast?_cons] using found)
    have forth : (f.push [b]).readyFired = true → (f.push [b]).residual = [] →
        (f.push [b]).out = encode (mask (r ++ [b])) →
        f.ending (ones (b :: bytes)) = [] ∨ ∃ x y, r ++ b :: bytes = x ++ y ∧
          (∀ c, x.getLast? = some c → c.toNat < 0x80) ∧ f.ending (ones (b :: bytes)) = encode (mask y) := by
      intro through empty out
      refine .inr ⟨[], r ++ b :: bytes, rfl, by simp, ?_⟩
      rw [turn, ending_through through empty, out, ← encode_append, ← mask_append, ← snoc]
    have step : f.push [b] = if newline ∉ mask (r ++ [b]) then
          if isLikelyInteractivePrompt (mask (r ++ [b])) then
            { f with residual := [] }.routeLine (mask (r ++ [b])) []
          else { f with residual := mask (r ++ [b]) }
        else (f.push [b]) := by
      unfold push
      dsimp only
      rw [if_neg (by simp [fresh.held]), decode_one, fresh.reads, ← grown]
      split <;> rfl
    by_cases is : b = lineFeed
    · subst is
      have one : mask (r ++ [lineFeed]) = mask r ++ [newline] := grown
      have line : f.push [lineFeed] = { f with residual := [] }.routeLine (mask r) [newline] := by
        have plain : newline ∉ ([] : Text) := by simp
        have whole : split (mask r) = [mask r] := split_free fun mem => free (newline_mem.mp mem)
        unfold push
        dsimp only
        rw [if_neg (by simp [fresh.held]), decode_one, fresh.reads, ← grown, one, if_neg (by simp),
          complete_line (mask r) plain, lastPart_line (mask r) plain, splitLines_snoc, whole]
        rw [if_neg (by simp)]
        rfl
      cases is : dull (mask r) with
      | true =>
        obtain ⟨held, out⟩ := routeLine_dull (f := { f with residual := [] }) fresh.held is [newline]
        exact back (by simp) ⟨line ▸ held, line ▸ out.trans fresh.silent, by rw [line]; simp [mask]⟩ (by decide)
      | false =>
        obtain ⟨through, out⟩ := routeLine_lively (f := { f with residual := [] }) is [newline]
        refine forth (line ▸ through) (by rw [line]; simp) ?_
        rw [line, out, one]
        exact congrArg (· ++ encode (mask r ++ [newline])) fresh.silent
    · have plain : lineFeed ∉ r ++ [b] := by simp [free, Ne.symm is]
      rw [if_pos fun mem => plain (newline_mem.mp mem)] at step
      split at step
      · rename_i prompt
        have small : b.toNat < 0x80 := by
          refine (wide_or b).resolve_right fun high => ?_
          rw [grown, maskByte_wide high, not_prompt_snoc] at prompt
          cases prompt
        cases is : dull (mask (r ++ [b])) with
        | true =>
          obtain ⟨held, out⟩ := routeLine_dull (f := { f with residual := [] }) fresh.held is []
          exact back (by simp) ⟨step ▸ held, step ▸ out.trans fresh.silent, by rw [step]; simp [mask]⟩ small
        | false =>
          obtain ⟨through, out⟩ := routeLine_lively (f := { f with residual := [] }) is []
          refine forth (step ▸ through) (by rw [step]; simp) ?_
          rw [step, out, List.append_nil]
          exact congrArg (· ++ encode (mask (r ++ [b]))) fresh.silent
      · rw [turn, snoc]
        exact ih plain ⟨by rw [step]; exact fresh.held, by rw [step]; exact fresh.silent, by rw [step]⟩

theorem ending_ones_le {bytes : Bytes} (ascii : Ascii bytes) (held : f.readyFired = false) (silent : f.out = [])
    (empty : f.residual = []) : (f.ending (ones bytes)).length ≤ bytes.length := by
  rcases ending_ones (r := []) (by simp) ⟨held, silent, empty⟩ bytes with none | ⟨x, y, parts, -, out⟩
  · simp [none]
  · rw [List.nil_append] at parts
    have own : Ascii y := fun b mem => ascii b (by simp [parts, mem])
    rw [out, encode_mask own, parts, List.length_append]
    omega

theorem ending_through_le (through : f.readyFired = true) (empty : f.residual = []) (bytes : Bytes) :
    f.out.length + bytes.length ≤ (f.ending (ones bytes)).length := by
  rw [ending_through through empty, List.length_append, (encode_mask_counts bytes).1]
  omega

theorem decode_ascii_append {own : Bytes} (ascii : Ascii own) (rest : Bytes) :
    decode (own ++ rest) = mask own ++ decode rest := by
  induction own with
  | nil => rfl
  | cons b own ih =>
    have small := ascii b List.mem_cons_self
    have front := decode_ascii small [] (own ++ rest)
    rw [List.nil_append] at front
    rw [List.cons_append, front, ih fun c mem => ascii c (List.mem_cons_of_mem b mem), ← maskByte_ascii small]
    rfl

/-- Bytes are pieces that end in one that is no character of its own, and a rest of characters. Such
pieces are only held back. -/
theorem pieces (bytes : Bytes) (free : lineFeed ∉ bytes) : ∃ chunks last, bytes = List.flatten chunks ++ last ∧
    Ascii last ∧ (last = [] → isLikelyInteractivePrompt (mask bytes) = false) ∧
    ∀ f : NoiseFilter, f.readyFired = false → newline ∉ f.residual →
      chunks.foldl push f = { f with residual := f.residual ++ mask chunks.flatten } := by
  induction bytes using List.reverseRecOn with
  | nil => exact ⟨[], [], rfl, by simp [Ascii], fun _ => by decide, fun f _ _ => by simp [mask]⟩
  | append_singleton bytes b ih =>
    have free' : lineFeed ∉ bytes := fun mem => free (by simp [mem])
    obtain ⟨chunks, last, rfl, ascii, -, held⟩ := ih free'
    rcases wide_or b with small | high
    · refine ⟨chunks, last ++ [b], by simp, ?_, by simp, held⟩
      intro c mem
      rcases List.mem_append.mp mem with mem | mem
      · exact ascii c mem
      · rwa [List.mem_singleton.mp mem]
    · refine ⟨chunks ++ [last ++ [b]], [], by simp, by simp [Ascii], fun _ => ?_, fun f waits plain => ?_⟩
      · have one : mask [b] = [replacement] := by simp [mask, maskByte_wide high]
        rw [mask_append, one]
        exact not_prompt_snoc _
      have text : decode (last ++ [b]) = mask last ++ [replacement] := by
        rw [decode_ascii_append ascii, decode_one, maskByte_wide high]
      have masked : mask (last ++ [b]) = mask last ++ [replacement] := by
        rw [mask_append, ← maskByte_wide high]
        rfl
      have none : newline ∉ f.residual ++ mask chunks.flatten ++ (mask last ++ [replacement]) := by
        rw [← masked, List.append_assoc, ← mask_append]
        intro mem
        rcases List.mem_append.mp mem with mem | mem
        · exact plain mem
        · exact free (by simpa using newline_mem.mp mem)
      have bare := not_prompt_snoc (f.residual ++ mask chunks.flatten ++ mask last)
      rw [List.append_assoc] at bare
      rw [List.foldl_append, held f waits plain, List.foldl_cons, List.foldl_nil]
      unfold push
      dsimp only
      rw [if_neg (by simp [waits]), text, if_pos none, if_neg (by rw [bare]; exact Bool.false_ne_true),
        List.flatten_append, mask_append, List.flatten_singleton, masked, List.append_assoc]

/-- Whatever way the stream arrives, the same is written. -/
def Always (f : NoiseFilter) (stream whole : Bytes) : Prop :=
  ∀ chunks : List Bytes, chunks.flatten = stream → f.ending chunks = whole

theorem Always.push {p : Bytes} (always : f.Always (p ++ stream) whole) :
    (f.push p).Always stream whole :=
  fun chunks same => always (p :: chunks) (by simp [same])

theorem Always.pushes {chunks : List Bytes} (always : f.Always (chunks.flatten ++ stream) whole) :
    (chunks.foldl NoiseFilter.push f).Always stream whole := by
  induction chunks generalizing f with
  | nil => exact always
  | cons p chunks ih =>
    rw [List.flatten_cons, List.append_assoc] at always
    exact ih always.push

theorem Always.not_through (always : f.Always stream whole) (through : f.readyFired = true)
    (empty : f.residual = []) : f.out.length + stream.length ≤ whole.length := by
  rw [← always (ones stream) (ones_flatten stream)]
  exact ending_through_le through empty stream

theorem encode_mask_pos {bytes : Bytes} (some_ : bytes ≠ []) : 0 < (encode (mask bytes)).length := by
  rw [(encode_mask_counts bytes).1]
  have := List.length_pos_iff.mpr some_
  omega

theorem Always.cut {p : Bytes} (always : f.Always (p ++ stream) whole) (short : whole.length ≤ stream.length)
    (free : lineFeed ∉ p) (fresh : f.Fresh []) (is : isLikelyInteractivePrompt (mask p) = true) :
    isBootNoiseLine (mask p) = true ∧ ∃ g : NoiseFilter, g.Fresh [] ∧ g.Always stream whole := by
  obtain ⟨chunks, last, rfl, ascii, ends, held⟩ := pieces p free
  have empty : f.residual = [] := fresh.reads
  have some_ : last ≠ [] := by
    intro none
    rw [ends none] at is
    cases is
  rw [List.append_assoc] at always
  have later := always.pushes.push
  rw [held f fresh.held (by simp [empty]), empty, List.nil_append] at later
  have plain : newline ∉ mask (chunks.flatten ++ last) := fun mem => free (newline_mem.mp mem)
  have turn : NoiseFilter.push { f with residual := mask chunks.flatten } last =
      { f with residual := [] }.routeLine (mask (chunks.flatten ++ last)) [] := by
    unfold NoiseFilter.push
    dsimp only
    rw [if_neg (by simp [fresh.held]), (decode_sim last).eq_mask ascii, ← mask_append, if_pos plain, if_pos is]
  rw [turn] at later
  cases noise : isBootNoiseLine (mask (chunks.flatten ++ last)) with
  | true =>
    have is : dull (mask (chunks.flatten ++ last)) = true := by simp [dull, noise]
    obtain ⟨waits, out⟩ := routeLine_dull (f := { f with residual := [] }) fresh.held is []
    exact ⟨rfl, _, ⟨waits, out.trans fresh.silent, by simp [mask]⟩, later⟩
  | false =>
    have lively : dull (mask (chunks.flatten ++ last)) = false := by simp [dull, noise, not_blank_of_prompt is]
    obtain ⟨through, out⟩ := routeLine_lively (f := { f with residual := [] }) lively []
    have much := later.not_through through (by simp)
    have wrote : 0 < (encode (mask (chunks.flatten ++ last))).length := encode_mask_pos (by simp [some_])
    rw [out, List.append_nil, List.length_append] at much
    omega

theorem Always.line {tail : Bytes} (always : f.Always (a ++ tail) whole) (short : whole.length ≤ tail.length)
    (free : lineFeed ∉ a) (fresh : f.Fresh [])
    (ends : tail = [] ∨ ∃ b, tail = lineFeed :: b ∧ whole.length ≤ b.length) :
    dull (mask a) = true := by
  obtain ⟨chunks, last, rfl, ascii, -, held⟩ := pieces a free
  have empty : f.residual = [] := fresh.reads
  have plain : newline ∉ mask (chunks.flatten ++ last) := fun mem => free (newline_mem.mp mem)
  have text := (decode_sim last).eq_mask ascii
  rw [List.append_assoc] at always
  have later := always.pushes
  rw [held f fresh.held (by simp [empty]), empty, List.nil_append] at later
  by_contra lively
  have lively : dull (mask (chunks.flatten ++ last)) = false := by simpa using lively
  have some_ : chunks.flatten ++ last ≠ [] := by
    intro none
    rw [none] at lively
    exact absurd lively (by decide)
  have wrote : 0 < (encode (mask (chunks.flatten ++ last))).length := encode_mask_pos some_
  obtain ⟨through, out⟩ := routeLine_lively (f := { f with residual := [] }) lively []
  rcases ends with rfl | ⟨b, rfl, shorter⟩
  · have ended := later [last] (by simp)
    have turn : ending { f with residual := mask chunks.flatten } [last] =
        (routeLine { f with residual := [] } (mask (chunks.flatten ++ last)) []).out := by
      have text_ : mask (chunks.flatten ++ last) ≠ [] := by simpa [mask] using some_
      unfold ending
      rw [List.foldl_cons, List.foldl_nil]
      unfold NoiseFilter.push
      dsimp only
      rw [if_neg (by simp [fresh.held]), text, ← mask_append, if_pos plain]
      split
      · unfold flush
        rw [if_pos (by simp)]
      · unfold flush
        rw [if_neg text_]
    rw [turn] at ended
    have much := congrArg List.length ended
    rw [out, List.append_nil, List.length_append] at much
    simp only [List.length_nil] at short
    omega
  · have first : NoiseFilter.push { f with residual := mask chunks.flatten } (last ++ [lineFeed]) =
        { f with residual := [] }.routeLine (mask (chunks.flatten ++ last)) [newline] := by
      have none : newline ∉ ([] : Text) := by simp
      have small : Ascii (last ++ [lineFeed]) := by
        intro c mem
        rcases List.mem_append.mp mem with mem | mem
        · exact ascii c mem
        · rw [List.mem_singleton.mp mem]
          decide
      have combined : mask chunks.flatten ++ decode (last ++ [lineFeed]) =
          mask (chunks.flatten ++ last) ++ newline :: [] := by
        rw [(decode_sim _).eq_mask small, mask_append, mask_append, ← List.append_assoc]
        rfl
      unfold NoiseFilter.push
      dsimp only
      rw [if_neg (by simp [fresh.held]), combined, if_neg (by simp), complete_line _ none, lastPart_line _ none,
        splitLines_snoc, split_free plain]
      rw [if_neg (by simp)]
      rfl
    have parts : last ++ lineFeed :: b = (last ++ [lineFeed]) ++ b := by simp
    rw [parts] at later
    have later := later.push
    rw [first] at later
    obtain ⟨through, out⟩ := routeLine_lively (f := { f with residual := [] }) lively [newline]
    have much := later.not_through through (by simp)
    rw [out, List.length_append, encode_append, List.length_append] at much
    omega

theorem Always.quiet {tail : Bytes} (always : f.Always (a ++ tail) whole) (fresh : f.Fresh [])
    (free : lineFeed ∉ a) (ends : tail = [] ∧ whole = [] ∨ ∃ b, tail = lineFeed :: b ∧ whole.length ≤ b.length) :
    Quiet (mask a) := by
  have short : whole.length ≤ tail.length := by
    rcases ends with ⟨rfl, rfl⟩ | ⟨b, rfl, shorter⟩
    · exact Nat.le_refl _
    · exact Nat.le_succ_of_le shorter
  intro cuts rest parts prompts
  induction cuts generalizing a f with
  | nil =>
    rw [List.flatten_nil, List.nil_append] at parts
    refine ⟨by simp, parts ▸ always.line short free fresh (ends.imp And.left id)⟩
  | cons p cuts ih =>
    obtain ⟨looks, later⟩ := List.forall_mem_cons.mp prompts
    rw [List.flatten_cons, List.append_assoc] at parts
    obtain ⟨u, v, rfl, front, back⟩ := List.map_eq_append_iff.mp parts
    have free' : lineFeed ∉ u ∧ lineFeed ∉ v := by simpa [not_or] using free
    rw [List.append_assoc] at always
    have look : isLikelyInteractivePrompt (mask u) = true := by rwa [mask, front]
    obtain ⟨noise, g, fresh', always'⟩ :=
      always.cut (Nat.le_trans short (by simp)) free'.1 fresh look
    obtain ⟨noises, dull_⟩ := ih always' fresh' free'.2 back later
    refine ⟨List.forall_mem_cons.mpr ⟨?_, noises⟩, dull_⟩
    rwa [mask, front] at noise

theorem push_line (fresh : f.Fresh []) (free : lineFeed ∉ a) (is : dull (decode a) = true) :
    (f.push (a ++ [lineFeed])).Fresh [] := by
  have none : newline ∉ ([] : Text) := by simp
  have plain : newline ∉ decode a := fun mem =>
    free (newline_mem.mp (((decode_sim a).mem_iff (by decide)).mpr mem))
  have text : decode (a ++ [lineFeed]) = decode a ++ newline :: [] := decode_ascii (by decide) a []
  have empty : f.residual = [] := fresh.reads
  have line : f.push (a ++ [lineFeed]) = { f with residual := [] }.routeLine (decode a) [newline] := by
    unfold push
    dsimp only
    rw [if_neg (by simp [fresh.held]), empty, List.nil_append, text, if_neg (by simp),
      complete_line _ none, lastPart_line _ none, splitLines_snoc, split_free plain]
    rw [if_neg (by simp)]
    rfl
  obtain ⟨held, out⟩ := routeLine_dull (f := { f with residual := [] }) fresh.held is [newline]
  rw [line]
  exact ⟨held, out.trans fresh.silent, by simp [mask]⟩

theorem Always.ascii (always : f.Always stream stream) (fresh : f.Fresh []) : Ascii stream := by
  by_cases none : stream = []
  · simp [none, Ascii]
  have out := always (ones stream) (ones_flatten stream)
  rcases ending_ones (by simp) fresh stream with nothing | ⟨x, y, parts, last, out'⟩
  · exact absurd (out.symm.trans nothing) none
  rw [List.nil_append] at parts
  have same : encode (mask y) = x ++ y := out'.symm.trans (out.trans parts)
  obtain ⟨length, count⟩ := encode_mask_counts y
  rw [same, List.length_append] at length
  rw [same, wide_append] at count
  have all : wide x = x.length := by omega
  have empty : x = [] := by
    cases found : x.getLast? with
    | none => exact List.getLast?_eq_none_iff.mp found
    | some b =>
      have high := List.countP_eq_length.mp all b (List.mem_of_getLast? found)
      have small := last b found
      simp only [decide_eq_true_eq] at high
      omega
  rw [empty, List.nil_append] at parts
  rw [empty, List.length_nil] at length
  rw [parts]
  exact wide_zero.mp (by omega)

theorem Always.outspoken {tail : Bytes} (always : f.Always (a ++ tail) (a ++ tail)) (fresh : f.Fresh [])
    (free : lineFeed ∉ a) : Outspoken (mask a) := by
  intro p front is
  have ascii := always.ascii fresh
  obtain ⟨rest, parts⟩ := front
  obtain ⟨u, v, rfl, rfl, -⟩ := List.map_eq_append_iff.mp parts.symm
  change isLikelyInteractivePrompt (mask u) = true at is
  have own : Ascii u := fun b mem => ascii b (by simp [mem])
  have rest_ : Ascii (v ++ tail) := fun b mem => ascii b (by simpa using .inr (List.mem_append.mp mem))
  have plain : newline ∉ mask u := fun mem => free (by simp [newline_mem.mp mem])
  have some_ : u ≠ [] := by
    rintro rfl
    exact absurd is (by decide)
  by_contra loud
  have noise : isBootNoiseLine (mask u) = true := by simpa [mask] using loud
  have empty : f.residual = [] := fresh.reads
  have turn : f.push u = { f with residual := [] }.routeLine (mask u) [] := by
    unfold NoiseFilter.push
    dsimp only
    rw [if_neg (by simp [fresh.held]), (decode_sim u).eq_mask own, empty, List.nil_append, if_pos plain, if_pos is]
  have dim : dull (mask u) = true := by simp [dull, noise]
  obtain ⟨held, out⟩ := routeLine_dull (f := { f with residual := [] }) fresh.held dim []
  rw [List.append_assoc] at always
  have later := always.push
  rw [turn] at later
  have few := ending_ones_le rest_ held (out.trans fresh.silent) (by simp)
  rw [later (ones (v ++ tail)) (ones_flatten _)] at few
  have much := List.length_pos_iff.mpr some_
  simp only [List.length_append] at few
  omega

theorem workload_le (stream : Bytes) : (workload stream).length ≤ stream.length := by
  have parts := congrArg List.flatten (List.takeWhile_append_dropWhile (p := isDull) (l := lines stream))
  rw [lines_flatten, List.flatten_append] at parts
  rw [workload_eq, ← congrArg List.length parts, List.length_append]
  omega

theorem Always.steady (always : f.Always stream (workload stream)) (fresh : f.Fresh []) :
    Steady stream := by
  induction length : stream.length using Nat.strongRecOn generalizing f stream with
  | ind n ih =>
    obtain ⟨a, tail, rfl, free, ends⟩ := stream_cases stream
    cases is : dull (decode a) with
    | true =>
      rcases ends with rfl | ⟨b, rfl⟩
      · obtain ⟨parts, whole⟩ := steady_last free is
        rw [List.append_nil] at always ⊢
        have always : f.Always (a ++ []) [] := by rwa [List.append_nil, ← whole]
        exact parts.mpr (always.quiet fresh free (.inl ⟨rfl, rfl⟩))
      · obtain ⟨parts, whole⟩ := steady_dull free is b
        rw [whole] at always
        refine parts.mpr ⟨always.quiet fresh free (.inr ⟨b, rfl, workload_le b⟩), ?_⟩
        have split_ : a ++ lineFeed :: b = (a ++ [lineFeed]) ++ b := by simp
        rw [split_] at always
        exact ih b.length (by rw [← length]; simp; omega) always.push (push_line fresh free is) rfl
    | false =>
      obtain ⟨parts, whole⟩ := steady_work free is ends
      rw [whole] at always
      exact parts.mpr ⟨always.ascii fresh, always.outspoken fresh free⟩

end NoiseFilter

/-- Every way of cutting a stream into chunks writes the workload, and so the same, just when the stream
is steady. -/
theorem noise_filter_lossless_iff (stream : Bytes) :
    (∀ chunks chunks' : List Bytes, chunks.flatten = stream → chunks'.flatten = stream →
      written chunks = written chunks' ∧ written chunks = workload stream) ↔ Steady stream := by
  constructor
  · intro same
    have always : NoiseFilter.Always {} stream (workload stream) :=
      fun chunks whole => (same chunks chunks whole whole).2
    exact always.steady ⟨rfl, rfl, rfl⟩
  · rintro steady chunks chunks' rfl whole
    have right := written_of_steady steady
    exact ⟨right.trans (whole ▸ written_of_steady (whole ▸ steady)).symm, right⟩

/-- A letter of two bytes that arrives in two chunks is written as two replacement characters. -/
theorem letter_in_two_chunks_is_altered :
    written [[0xC3, 0xA9, 10]] = [0xC3, 0xA9, 10] ∧
      written [[0xC3], [0xA9, 10]] = [0xEF, 0xBF, 0xBD, 0xEF, 0xBF, 0xBD, 10] ∧
      workload [0xC3, 0xA9, 10] = [0xC3, 0xA9, 10] := by
  decide +kernel

end Machinen.Console
