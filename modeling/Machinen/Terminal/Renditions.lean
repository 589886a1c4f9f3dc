import Machinen.Terminal.Sequences
import Mathlib.Tactic.IntervalCases

/-! What an emitted rendition does to the parser that reads it. It is read back as it was as
long as its parameters fit in the sixteen of the parser; otherwise its last colour is lost. -/
namespace Machinen.Vt

open Builder

def Rendition.Fits (rendition : Rendition) : Prop := (renditionParameters rendition).length < maxParams

instance (rendition : Rendition) : Decidable rendition.Fits := inferInstanceAs (Decidable (_ < _))

theorem indexedColor_toNat (index : UInt8) : indexedColor index.toNat = .indexed index := by
  unfold indexedColor
  rw [Nat.min_eq_left (by have := index.toNat_lt; omega), UInt8.ofNat_toNat]

theorem rgbColor_toNat (red green blue : UInt8) :
    rgbColor red.toNat green.toNat blue.toNat = .rgb red green blue := by
  have small : ∀ part : UInt8, min part.toNat 255 = part.toNat :=
    fun part => Nat.min_eq_left (by have := part.toNat_lt; omega)
  unfold rgbColor
  rw [small, small, small, UInt8.ofNat_toNat, UInt8.ofNat_toNat, UInt8.ofNat_toNat]

theorem applyCode_style (style : Attribute) (rendition : Rendition) :
    colorTarget (attributeCode style) = none ∧
      applyCode (attributeCode style) rendition = rendition.set style true := by
  cases style <;> exact ⟨rfl, rfl⟩

theorem applyCode_color (rendition : Rendition) (index : UInt8) :
    (index.toNat < 8 → colorTarget (30 + index.toNat) = none ∧
      applyCode (30 + index.toNat) rendition = rendition.setColor .foreground (.indexed index)) ∧
    (8 ≤ index.toNat → index.toNat < 16 → colorTarget (90 + index.toNat - 8) = none ∧
      applyCode (90 + index.toNat - 8) rendition = rendition.setColor .foreground (.indexed index)) ∧
    (index.toNat < 8 → colorTarget (40 + index.toNat) = none ∧
      applyCode (40 + index.toNat) rendition = rendition.setColor .background (.indexed index)) ∧
    (8 ≤ index.toNat → index.toNat < 16 → colorTarget (100 + index.toNat - 8) = none ∧
      applyCode (100 + index.toNat - 8) rendition = rendition.setColor .background (.indexed index)) := by
  rw [← indexedColor_toNat]
  generalize index.toNat = n
  refine ⟨fun small => ?_, fun low small => ?_, fun small => ?_, fun low small => ?_⟩ <;>
    interval_cases n <;> exact ⟨rfl, rfl⟩

variable {value : Nat} {target : ColorTarget}

/-- The loop over the parameters ends in `P`, whatever fuel beyond the parameters it has. -/
def Ends (b : Builder) (index : Nat) (rendition : Rendition) (P : Rendition → Prop) : Prop :=
  ∀ fuel, b.paramCount ≤ fuel + index → P (b.applyFrom fuel index rendition)

namespace Ends

variable {b : Builder} {index : Nat} {rendition : Rendition} {P : Rendition → Prop}

theorem done (exceeds : b.paramCount ≤ index) (now : P rendition) : Ends b index rendition P := by
  intro fuel _
  cases fuel with
  | zero => exact now
  | succ fuel =>
    unfold applyFrom
    rw [if_neg (Nat.not_lt.mpr exceeds)]
    exact now

theorem step (used : Nat) {next : Rendition} (inside : index < b.paramCount)
    (applied : b.applyParameter index rendition = (used, next)) (forward : index ≤ used)
    (rest : Ends b (used + 1) next P) : Ends b index rendition P := by
  intro fuel enough
  cases fuel with
  | zero => omega
  | succ fuel =>
    unfold applyFrom
    rw [if_pos inside, applied]
    exact rest fuel (by omega)

theorem code (plain : ∀ index, b.paramSeparators index ≠ 0x3a) (inside : index < b.paramCount)
    (here : b.params index = value) (alone : colorTarget value = none)
    (rest : Ends b (index + 1) (applyCode value rendition) P) : Ends b index rendition P := by
  refine step index inside ?_ (Nat.le_refl _) rest
  simp only [applyParameter, here, alone, plain, and_false, if_false]

theorem styles (plain : ∀ index, b.paramSeparators index ≠ 0x3a) (styles : List Attribute)
    (here : ∀ k value, (styles.map attributeCode)[k]? = some value → b.params (index + k) = value)
    (inside : index + styles.length ≤ b.paramCount)
    (rest : Ends b (index + styles.length)
      (styles.foldl (fun rendition style => rendition.set style true) rendition) P) :
    Ends b index rendition P := by
  induction styles generalizing index rendition with
  | nil => exact rest
  | cons style styles ih =>
    rw [List.length_cons] at inside rest
    obtain ⟨alone, set⟩ := applyCode_style style rendition
    refine code plain (by omega) (here 0 _ rfl) alone ?_
    rw [set]
    refine ih (fun k value listed => ?_) (by omega) ?_
    · rw [Nat.add_right_comm]
      exact here (k + 1) value listed
    · rw [Nat.add_right_comm]
      exact rest

theorem extended (inside : index + 2 < b.paramCount)
    (here : b.params index = extendedCode target) (mode : b.params (index + 1) = 5)
    (rest : Ends b (index + 3) (rendition.setColor target (indexedColor (b.params (index + 2)))) P) :
    Ends b index rendition P := by
  refine step (index + 2) (by omega) ?_ (by omega) rest
  have known : colorTarget (extendedCode target) = some target := by cases target <;> rfl
  simp only [applyParameter, here, known, applyExtendedColor, mode]
  rw [if_neg (by omega), if_pos trivial, if_neg (by omega)]

/-- The three numbers of a colour come behind the slot of the colour space, if the parser sees one. -/
theorem applyParameter_rgb {slot : Nat}
    (slots : (if b.paramSeparators (index + 1) = 0x3a ∧ b.paramCount - index ≥ 6 then 1 else 0) = slot)
    (inside : index + slot + 4 < b.paramCount) (here : b.params index = extendedCode target)
    (mode : b.params (index + 1) = 2) (rendition : Rendition) :
    b.applyParameter index rendition = (index + slot + 4, rendition.setColor target
      (rgbColor (b.params (index + slot + 2)) (b.params (index + slot + 3))
        (b.params (index + slot + 4)))) := by
  have known : colorTarget (extendedCode target) = some target := by cases target <;> rfl
  have red : (if b.paramSeparators (index + 1) = 0x3a ∧
    b.paramCount - index ≥ 6 then index + 1 + 1 + 1 else index + 1 + 1) =
      index + slot + 2 := by
    rw [← slots]
    split <;> rfl
  simp only [applyParameter, here, known, applyExtendedColor, mode, red]
  rw [if_neg (by omega), if_neg (by decide), if_neg (by decide), if_neg (by omega)]

theorem rgb {slot : Nat}
    (slots : (if b.paramSeparators (index + 1) = 0x3a ∧ b.paramCount - index ≥ 6 then 1 else 0) = slot)
    (inside : index + slot + 4 < b.paramCount) (here : b.params index = extendedCode target)
    (mode : b.params (index + 1) = 2)
    (rest : Ends b (index + slot + 5) (rendition.setColor target
      (rgbColor (b.params (index + slot + 2)) (b.params (index + slot + 3)) (b.params (index + slot + 4))))
        P) :
    Ends b index rendition P :=
  step (index + slot + 4) (by omega) (applyParameter_rgb slots inside here mode rendition) (by omega) rest

theorem truecolor (plain : ∀ index, b.paramSeparators index ≠ 0x3a)
    (inside : index + 4 < b.paramCount) (here : b.params index = extendedCode target)
    (mode : b.params (index + 1) = 2)
    (rest : Ends b (index + 5) (rendition.setColor target
      (rgbColor (b.params (index + 2)) (b.params (index + 3)) (b.params (index + 4)))) P) :
    Ends b index rendition P :=
  rgb (if_neg fun both => plain _ both.1) inside here mode rest

theorem color (plain : ∀ index, b.paramSeparators index ≠ 0x3a) (target : ColorTarget) (color : Color)
    (here : ∀ k value, (colorParameters color target)[k]? = some value → b.params (index + k) = value)
    (inside : index + (colorParameters color target).length ≤ b.paramCount)
    (clear : rendition.setColor target .default = rendition)
    (rest : Ends b (index + (colorParameters color target).length) (rendition.setColor target color) P) :
    Ends b index rendition P := by
  cases color with
  | default => exact clear ▸ rest
  | rgb red green blue =>
    have two : b.params (index + 2) = red.toNat := here 2 _ rfl
    have three : b.params (index + 3) = green.toNat := here 3 _ rfl
    have four : b.params (index + 4) = blue.toNat := here 4 _ rfl
    refine truecolor plain (by exact inside) (here 0 _ rfl) (here 1 _ rfl) ?_
    rw [two, three, four, rgbColor_toNat]
    exact rest
  | indexed palette =>
    obtain ⟨low, high, lowBack, highBack⟩ := applyCode_color rendition palette
    unfold colorParameters at here inside rest
    simp only at here inside rest
    split at here
    · rename_i bound
      obtain ⟨rfl, small⟩ := bound
      rw [if_pos ⟨rfl, small⟩] at inside rest
      obtain ⟨alone, set⟩ := low small
      exact code plain inside (here 0 _ rfl) alone (set ▸ rest)
    split at here
    · rename_i notLow bound
      obtain ⟨rfl, small⟩ := bound
      rw [if_neg notLow, if_pos ⟨rfl, small⟩] at inside rest
      obtain ⟨alone, set⟩ := high (Nat.not_lt.mp fun less => notLow ⟨rfl, less⟩) small
      exact code plain inside (here 0 _ rfl) alone (set ▸ rest)
    split at here
    · rename_i notLow notHigh bound
      obtain ⟨rfl, small⟩ := bound
      rw [if_neg notLow, if_neg notHigh, if_pos ⟨rfl, small⟩] at inside rest
      obtain ⟨alone, set⟩ := lowBack small
      exact code plain inside (here 0 _ rfl) alone (set ▸ rest)
    split at here
    · rename_i notLow notHigh notLowBack bound
      obtain ⟨rfl, small⟩ := bound
      rw [if_neg notLow, if_neg notHigh, if_neg notLowBack, if_pos ⟨rfl, small⟩] at inside rest
      obtain ⟨alone, set⟩ := highBack (Nat.not_lt.mp fun less => notLowBack ⟨rfl, less⟩) small
      exact code plain inside (here 0 _ rfl) alone (set ▸ rest)
    · rename_i notLow notHigh notLowBack notHighBack
      rw [if_neg notLow, if_neg notHigh, if_neg notLowBack, if_neg notHighBack] at inside rest
      have two : b.params (index + 2) = palette.toNat := here 2 _ rfl
      refine extended (by exact inside) (here 0 _ rfl) (here 1 _ rfl) ?_
      rw [two, indexedColor_toNat]
      exact rest

end Ends

/-- What the last two parameters of a full list can still do. -/
structure Stray (rendition result : Rendition) : Prop where
  underline : result.underlineColor = rendition.underlineColor ∨ result.underlineColor = .default
  background : result.background = rendition.background ∨ ∀ red green blue,
    result.background ≠ .rgb red green blue

namespace Stray

theorem refl (rendition : Rendition) : Stray rendition rendition := ⟨.inl rfl, .inl rfl⟩

theorem clear {rendition result : Rendition} (stray : Stray rendition result)
    (clear : rendition.underlineColor = .default) : result.underlineColor = .default :=
  stray.underline.elim (·.trans clear) id

theorem trans {rendition middle result : Rendition} (first : Stray rendition middle)
    (second : Stray middle result) : Stray rendition result where
  underline := by
    rcases second.underline with same | lost
    · rw [same]
      exact first.underline
    · exact .inr lost
  background := by
    rcases second.background with same | other
    · rw [same]
      exact first.background
    · exact .inr other

theorem code (value : Nat) (rendition : Rendition) : Stray rendition (applyCode value rendition) := by
  have cleared : ∀ red green blue, Color.default ≠ .rgb red green blue := fun _ _ _ => nofun
  have palette : ∀ index red green blue, indexedColor index ≠ .rgb red green blue := fun _ _ _ _ => nofun
  unfold applyCode
  split
  case h_1 => exact ⟨.inr rfl, .inr cleared⟩
  case h_20 => exact ⟨.inl rfl, .inr cleared⟩
  case h_23 => exact ⟨.inr rfl, .inl rfl⟩
  case h_24 =>
    split
    · exact ⟨.inl rfl, .inl rfl⟩
    split
    · exact ⟨.inl rfl, .inr (palette _)⟩
    split
    · exact ⟨.inl rfl, .inl rfl⟩
    split
    · exact ⟨.inl rfl, .inr (palette _)⟩
    · exact refl rendition
  all_goals exact ⟨.inl rfl, .inl rfl⟩

variable {b : Builder} {index : Nat}

/-- An extended colour needs three parameters, and here are two at the most. -/
theorem parameter (full : b.paramCount ≤ maxParams) (late : maxParams ≤ index + 2) (rendition : Rendition) :
    index ≤ (b.applyParameter index rendition).1 ∧
      Stray rendition (b.applyParameter index rendition).2 := by
  unfold maxParams at full late
  unfold applyParameter
  dsimp only
  split
  · unfold applyExtendedColor
    simp only
    split
    · exact ⟨Nat.le_refl _, refl _⟩
    split
    · rw [if_pos (by omega)]
      exact ⟨Nat.le_succ _, refl _⟩
    split
    · exact ⟨Nat.le_succ _, refl _⟩
    · rw [if_pos (by split <;> omega)]
      exact ⟨Nat.le_succ _, refl _⟩
  · refine ⟨?_, code _ _⟩
    split <;> omega

theorem applyFrom (full : b.paramCount ≤ maxParams) (fuel : Nat) {index : Nat}
    (late : maxParams ≤ index + 2)
    (rendition : Rendition) : Stray rendition (b.applyFrom fuel index rendition) := by
  induction fuel generalizing index rendition with
  | zero => exact refl rendition
  | succ fuel ih =>
    obtain ⟨forward, stray⟩ := parameter full late rendition
    unfold Builder.applyFrom
    generalize b.applyParameter index rendition = turn at forward stray ⊢
    obtain ⟨used, next⟩ := turn
    split
    · exact stray.trans (ih (show maxParams ≤ used + 1 + 2 by have : index ≤ used := forward; omega) next)
    · exact refl rendition

end Stray

theorem Ends.stray {b : Builder} {index : Nat} {rendition : Rendition} {P : Rendition → Prop}
    (full : b.paramCount ≤ maxParams) (late : maxParams ≤ index + 2)
    (all : ∀ result, Stray rendition result → P result) : Ends b index rendition P :=
  fun fuel _ => all _ (Stray.applyFrom full fuel late rendition)

theorem getElem?_chunk (pre post : List Nat) {chunk : List Nat} {k : Nat}
    (listed : chunk[k]? = some value) : (pre ++ (chunk ++ post))[pre.length + k]? = some value := by
  have inside := (List.getElem?_eq_some_iff.mp listed).1
  rw [List.getElem?_append_right (Nat.le_add_right _ _), Nat.add_sub_cancel_left,
    List.getElem?_append_left inside]
  exact listed

theorem colorParameters_cases (color : Color) (target : ColorTarget) :
    color = .default ∧ colorParameters color target = [] ∨
    target ≠ .underline ∧ (∃ code, colorParameters color target = [code]) ∨
    (∃ index, color = .indexed index ∧ colorParameters color target =
      [extendedCode target, 5, index.toNat]) ∨
    ∃ red green blue, color = .rgb red green blue ∧
      colorParameters color target = [extendedCode target, 2, red.toNat, green.toNat, blue.toNat] := by
  cases color with
  | default => exact .inl ⟨rfl, rfl⟩
  | rgb red green blue => exact .inr (.inr (.inr ⟨red, green, blue, rfl, rfl⟩))
  | indexed index =>
    refine .inr ?_
    unfold colorParameters
    dsimp only
    split
    · rename_i bound
      exact .inl ⟨by rw [bound.1]; exact nofun, _, rfl⟩
    split
    · rename_i bound
      exact .inl ⟨by rw [bound.1]; exact nofun, _, rfl⟩
    split
    · rename_i bound
      exact .inl ⟨by rw [bound.1]; exact nofun, _, rfl⟩
    split
    · rename_i bound
      exact .inl ⟨by rw [bound.1]; exact nofun, _, rfl⟩
    · exact .inr (.inl ⟨index, rfl, rfl⟩)

theorem colorParameters_length (color : Color) (target : ColorTarget) :
    (colorParameters color target).length ≤ 5 := by
  rcases colorParameters_cases color target with ⟨-, same⟩ | ⟨-, code, same⟩ | ⟨index, -, same⟩ | ⟨_, _, _,
    -, same⟩ <;> rw [same] <;> simp

theorem styles_set (styles : List Attribute) (rendition : Rendition) :
    styles.foldl (fun rendition style => rendition.set style true) rendition =
      { rendition with attributes := fun style => decide (style ∈ styles) || rendition.attributes style } := by
  induction styles generalizing rendition with
  | nil => rfl
  | cons first styles ih =>
    rw [List.foldl_cons, ih]
    congr 1
    funext style
    by_cases same : style = first
    · subst same
      simp [Rendition.set]
    · simp [Rendition.set, same]

theorem styles_length (rendition : Rendition) : (attributeOrder.filter rendition.attributes).length ≤ 9 :=
  List.length_filter_le _ _

section Reread

variable {b : Builder} {rendition : Rendition} {P : Rendition → Prop}

/-- Where the parameters of the background start. -/
def backgroundAt (rendition : Rendition) : Nat :=
  1 + (attributeOrder.filter rendition.attributes).length + (colorParameters
    rendition.foreground .foreground).length

theorem backgroundAt_le (rendition : Rendition) : backgroundAt rendition + 1 ≤ maxParams := by
  have := styles_length rendition
  have := colorParameters_length rendition.foreground .foreground
  unfold backgroundAt maxParams
  omega

theorem renditionParameters_length (rendition : Rendition) :
    (0 :: renditionParameters rendition).length = backgroundAt rendition +
      (colorParameters rendition.background .background).length +
      (colorParameters rendition.underlineColor .underline).length := by
  unfold renditionParameters backgroundAt
  simp only [List.length_cons, List.length_append, List.length_map]
  omega

/-- The styles and the foreground are read back in any case. -/
theorem reads_foreground (reads : Reads (0 :: renditionParameters rendition) b.params b.paramSeparators
    b.paramCount) (old : Rendition)
    (rest : Ends b (backgroundAt rendition)
      { attributes := rendition.attributes, foreground := rendition.foreground } P) :
    Ends b 0 old P := by
  have counted := reads.counted
  rw [renditionParameters_length] at counted
  have early := backgroundAt_le rendition
  have length := styles_length rendition
  unfold backgroundAt at early counted rest
  unfold maxParams at early counted
  refine Ends.code reads.plain (by omega) (reads.exact 0 0 rfl (.inl (by decide))) rfl ?_
  refine Ends.styles reads.plain (attributeOrder.filter rendition.attributes) (fun k value listed => ?_)
    (by omega) ?_
  · have bound := (List.getElem?_eq_some_iff.mp listed).1
    rw [List.length_map] at bound
    refine reads.exact _ value ?_ (.inl (by unfold maxParams; omega))
    unfold renditionParameters
    rw [List.append_assoc, List.append_assoc]
    exact getElem?_chunk [0] _ listed
  · rw [styles_set]
    refine Ends.color reads.plain .foreground rendition.foreground (fun k value listed => ?_) (by omega)
      rfl ?_
    · have bound := (List.getElem?_eq_some_iff.mp listed).1
      refine reads.exact _ value ?_ (.inl (by unfold maxParams; omega))
      have at_ := getElem?_chunk (0 :: (attributeOrder.filter rendition.attributes).map attributeCode)
        (colorParameters rendition.background .background ++
          colorParameters rendition.underlineColor .underline) listed
      rw [List.length_cons, List.length_map] at at_
      unfold renditionParameters
      simp only [List.cons_append, List.append_assoc] at at_ ⊢
      rw [show 0 + 1 + (attributeOrder.filter rendition.attributes).length + k =
        (attributeOrder.filter rendition.attributes).length + 1 + k by omega]
      exact at_
    · have all : (fun style => decide (style ∈ attributeOrder.filter rendition.attributes) ||
          ({} : Rendition).attributes style) = rendition.attributes := by
        funext style
        have known : style ∈ attributeOrder := by cases style <;> decide
        cases on : rendition.attributes style <;> simp [on, known]
      have same : (applyCode 0 old) = {} := rfl
      rw [same]
      simp only [all, Nat.zero_add]
      exact rest

theorem applyCode_large (large : 108 ≤ value) (rendition : Rendition) :
    colorTarget value = none ∧ applyCode value rendition = rendition := by
  constructor
  · unfold colorTarget
    split <;> first | omega | rfl
  · unfold applyCode
    split <;> first | omega | skip
    rw [if_neg (by omega), if_neg (by omega), if_neg (by omega), if_neg (by omega)]

/-- A true colour whose last parameter is missing is skipped with its mode. -/
theorem Ends.short {index : Nat} (plain : ∀ index, b.paramSeparators index ≠ 0x3a)
    (inside : index + 1 < b.paramCount) (cut : b.paramCount ≤ index + 4)
    (here : b.params index = extendedCode target) (mode : b.params (index + 1) = 2)
    (rest : Ends b (index + 2) rendition P) : Ends b index rendition P := by
  refine Ends.step (index + 1) (by omega) ?_ (by omega) rest
  have known : colorTarget (extendedCode target) = some target := by cases target <;> rfl
  simp only [applyParameter, here, known, applyExtendedColor, mode, plain, false_and, if_false]
  rw [if_neg (by omega), if_neg (by decide), if_neg (by decide), if_pos (by omega)]

variable {index : Nat} (plain : ∀ index, b.paramSeparators index ≠ 0x3a) (full : b.paramCount = maxParams)
include plain full

theorem lost_underline {color : Color} (some_ : color ≠ .default)
    (here : ∀ k value, (colorParameters color .underline)[k]? = some value → index + k + 1 < maxParams →
      b.params (index + k) = value)
    (exceeds : maxParams < index + (colorParameters color .underline).length)
    (clear : rendition.underlineColor = .default) :
    Ends b index rendition fun result => result.underlineColor = .default := by
  have all : ∀ result, Stray rendition result → result.underlineColor = .default :=
    fun _ stray => stray.clear clear
  by_cases late : maxParams ≤ index + 2
  · exact Ends.stray (Nat.le_of_eq full) late all
  · unfold maxParams at *
    rcases colorParameters_cases color .underline with ⟨none_, -⟩ | ⟨ne, -⟩ | ⟨_, -, same⟩ | ⟨_, _, _, -,
      same⟩
    · exact absurd none_ some_
    · exact absurd rfl ne
    · rw [same, List.length_cons, List.length_cons, List.length_singleton] at exceeds
      omega
    · rw [same] at here
      rw [same] at exceeds
      simp only [List.length_cons, List.length_nil] at exceeds
      refine Ends.short plain (by omega) (by omega) (here 0 _ rfl (by omega)) (here 1 _ rfl (by omega)) ?_
      exact Ends.stray (Nat.le_of_eq full) (by unfold maxParams; omega) all

/-- A background that reaches the end of the list leaves no room for an underline colour. -/
theorem crowded_underline {color : Color} (early : index < maxParams)
    (here : ∀ k value, (colorParameters color .background)[k]? = some value → index + k + 1 < maxParams →
      b.params (index + k) = value)
    (exceeds : maxParams ≤ index + (colorParameters color .background).length)
    (clear : rendition.underlineColor = .default) :
    Ends b index rendition fun result => result.underlineColor = .default := by
  have all : ∀ result, Stray rendition result → result.underlineColor = .default :=
    fun _ stray => stray.clear clear
  by_cases late : maxParams ≤ index + 2
  · exact Ends.stray (Nat.le_of_eq full) late all
  · unfold maxParams at *
    rcases colorParameters_cases color .background with ⟨-, same⟩ | ⟨-, _, same⟩ | ⟨_, -, same⟩ | ⟨_, _, _,
      -, same⟩ <;> rw [same] at here exceeds <;> simp only [List.length_cons, List.length_nil] at exceeds
    · omega
    · omega
    · refine Ends.extended (by omega) (here 0 _ rfl (by omega)) (here 1 _ rfl (by omega)) ?_
      exact Ends.done (by omega) clear
    · by_cases room : index = 11
      · subst room
        refine Ends.truecolor plain (by omega) (here 0 _ rfl (by omega)) (here 1 _ rfl (by omega)) ?_
        exact Ends.done (by omega) clear
      · refine Ends.short plain (by omega) (by omega) (here 0 _ rfl (by omega)) (here 1 _ rfl (by omega)) ?_
        exact Ends.stray (Nat.le_of_eq full) (by unfold maxParams; omega) all

theorem lost_background {color : Color} (early : index < maxParams)
    (here : ∀ k value, (colorParameters color .background)[k]? = some value → index + k + 1 < maxParams →
      b.params (index + k) = value)
    (merged : ∀ k value, (colorParameters color .background)[k]? = some value → index + k + 1 = maxParams →
      10 * value ≤ b.params (index + k))
    (exceeds : maxParams < index + (colorParameters color .background).length)
    (clear : rendition.background = .default) :
    Ends b index rendition fun result => result.background ≠ color := by
  unfold maxParams at *
  rcases colorParameters_cases color .background with ⟨-, same⟩ | ⟨-, _, same⟩ | ⟨palette, rfl, same⟩ |
      ⟨red, green, blue, rfl, same⟩ <;>
    rw [same] at here exceeds merged <;> simp only [List.length_cons, List.length_nil] at exceeds
  · omega
  · omega
  · have none_ : rendition.background ≠ .indexed palette := by
      rw [clear]
      exact nofun
    by_cases last : index = 15
    · subst last
      have large : 480 ≤ b.params 15 := merged 0 _ rfl rfl
      obtain ⟨alone, same⟩ := applyCode_large (show 108 ≤ b.params 15 by omega) rendition
      refine Ends.code plain (by omega) rfl alone ?_
      rw [same]
      exact Ends.done (by omega) none_
    · have at_ : index = 14 := by omega
      subst at_
      have mode : 50 ≤ b.params (14 + 1) := merged 1 _ rfl rfl
      refine Ends.step 15 (by omega) ?_ (by omega) (Ends.done (by omega) none_)
      have known : colorTarget (extendedCode .background) = some .background := rfl
      have code : b.params 14 = extendedCode .background := here 0 _ rfl (by omega)
      simp only [applyParameter, code, known, applyExtendedColor]
      rw [if_neg (by omega), if_neg (by omega), if_pos (by omega)]
  · have all : ∀ result, Stray rendition result → result.background ≠ .rgb red green blue := by
      intro result stray
      rcases stray.background with same | other
      · rw [same, clear]
        exact nofun
      · exact other red green blue
    by_cases late : maxParams ≤ index + 2
    · exact Ends.stray (Nat.le_of_eq full) late all
    · unfold maxParams at late
      refine Ends.short plain (by omega) (by omega) (here 0 _ rfl (by omega)) (here 1 _ rfl (by omega)) ?_
      exact Ends.stray (Nat.le_of_eq full) (by unfold maxParams; omega) all

end Reread
section Emitted

variable {b : Builder} {rendition : Rendition}

theorem background_listed {k : Nat}
    (listed : (colorParameters rendition.background .background)[k]? = some value) :
    (0 :: renditionParameters rendition)[backgroundAt rendition + k]? = some value := by
  have at_ := getElem?_chunk (0 :: ((attributeOrder.filter rendition.attributes).map attributeCode ++
      colorParameters rendition.foreground .foreground))
    (colorParameters rendition.underlineColor .underline) listed
  have length : (0 :: ((attributeOrder.filter rendition.attributes).map attributeCode ++
      colorParameters rendition.foreground .foreground)).length = backgroundAt rendition := by
    unfold backgroundAt
    rw [List.length_cons, List.length_append, List.length_map]
    omega
  rw [length] at at_
  unfold renditionParameters
  simpa only [List.cons_append, List.append_assoc] using at_

theorem underline_listed {k : Nat}
    (listed : (colorParameters rendition.underlineColor .underline)[k]? = some value) :
    (0 :: renditionParameters rendition)[backgroundAt rendition +
      (colorParameters rendition.background .background).length + k]? = some value := by
  have at_ := getElem?_chunk (0 :: ((attributeOrder.filter rendition.attributes).map attributeCode ++
      colorParameters rendition.foreground .foreground ++ colorParameters rendition.background .background))
    ([]) listed
  have length : (0 :: ((attributeOrder.filter rendition.attributes).map attributeCode ++
      colorParameters rendition.foreground .foreground ++
      colorParameters rendition.background .background)).length = backgroundAt rendition +
      (colorParameters rendition.background .background).length := by
    unfold backgroundAt
    rw [List.length_cons, List.length_append, List.length_append, List.length_map]
    omega
  rw [length] at at_
  unfold renditionParameters
  simpa only [List.cons_append, List.append_assoc, List.append_nil] using at_

variable (reads : Reads (0 :: renditionParameters rendition) b.params b.paramSeparators b.paramCount)
include reads

theorem fits_reread (fits : rendition.Fits) (old : Rendition) : Ends b 0 old (· = rendition) := by
  have counted := reads.counted
  have length := renditionParameters_length rendition
  have short : (0 :: renditionParameters rendition).length ≤ maxParams := fits
  rw [Nat.min_eq_left short] at counted
  refine reads_foreground reads old ?_
  refine Ends.color reads.plain .background rendition.background
    (fun k value listed => reads.exact _ value (background_listed listed) (.inr short)) (by omega) rfl ?_
  refine Ends.color reads.plain .underline rendition.underlineColor
    (fun k value listed => reads.exact _ value (underline_listed listed) (.inr short)) (by omega) rfl ?_
  exact Ends.done (by omega) rfl

theorem unfit_reread (unfit : ¬ rendition.Fits) (old : Rendition) : Ends b 0 old (· ≠ rendition) := by
  have length := renditionParameters_length rendition
  have early := backgroundAt_le rendition
  have long : maxParams < (0 :: renditionParameters rendition).length := Nat.lt_of_not_le unfit
  have full : b.paramCount = maxParams := by
    rw [reads.counted, Nat.min_eq_right (Nat.le_of_lt long)]
  have background : ∀ k value, (colorParameters rendition.background .background)[k]? = some value →
      backgroundAt rendition + k + 1 < maxParams → b.params (backgroundAt rendition + k) = value :=
    fun k value listed inside => reads.exact _ value (background_listed listed) (.inl inside)
  refine reads_foreground reads old ?_
  by_cases plainLine : rendition.underlineColor = .default
  · have none_ : (colorParameters rendition.underlineColor .underline).length = 0 := by
      rw [plainLine]
      rfl
    have merged : ∀ k value, (colorParameters rendition.background .background)[k]? = some value →
        backgroundAt rendition + k + 1 = maxParams →
          10 * value ≤ b.params (backgroundAt rendition + k) := by
      intro k value listed last
      have at_ : backgroundAt rendition + k = maxParams - 1 := by omega
      rw [at_]
      exact reads.merged value (at_ ▸ background_listed listed) long
    have lost : Ends b _ ⟨rendition.attributes, rendition.foreground, .default, .default⟩ _ :=
      lost_background
      reads.plain full (by omega) background merged (by omega) rfl
    exact fun fuel enough same => lost fuel enough (congrArg Rendition.background same)
  · have away : ∀ result : Rendition, result.underlineColor = .default → result ≠ rendition :=
      fun result lost same => plainLine (same ▸ lost)
    by_cases crowded : maxParams ≤ backgroundAt
      rendition + (colorParameters rendition.background .background).length
    · have lost : Ends b _ ⟨rendition.attributes, rendition.foreground, .default, .default⟩ _ :=
        crowded_underline
        reads.plain full (by omega) background crowded rfl
      exact fun fuel enough => away _ (lost fuel enough)
    · refine Ends.color reads.plain .background rendition.background
        (fun k value listed => background k value listed ?_) (by omega) rfl ?_
      · have inside := (List.getElem?_eq_some_iff.mp listed).1
        omega
      · have lost : Ends b _ ⟨rendition.attributes, rendition.foreground, rendition.background,
          .default⟩ _ := lost_underline reads.plain full plainLine
          (fun k value listed inside => reads.exact _ value (underline_listed listed) (.inl inside))
            (by omega) rfl
        exact fun fuel enough => away _ (lost fuel enough)

theorem reread_iff (old : Rendition) : b.applyFrom b.paramCount 0 old = rendition ↔ rendition.Fits := by
  constructor
  · intro same
    by_contra unfit
    exact unfit_reread reads unfit old b.paramCount (Nat.le_refl _) same
  · intro fits
    exact fits_reread reads fits old b.paramCount (Nat.le_refl _)

end Emitted
theorem renditionParameters_small (rendition : Rendition) :
    ∀ value ∈ 0 :: renditionParameters rendition, 10 * value ≤ maxParameter := by
  have color : ∀ color target, ∀ value ∈ colorParameters color target, value ≤ 255 := by
    intro color target value listed
    cases color with
    | default => exact nomatch listed
    | rgb red green blue =>
      have := red.toNat_lt
      have := green.toNat_lt
      have := blue.toNat_lt
      have : extendedCode target ≤ 255 := by cases target <;> decide
      simp only [colorParameters, List.mem_cons, List.not_mem_nil, or_false] at listed
      omega
    | indexed index =>
      have := index.toNat_lt
      have : extendedCode target ≤ 255 := by cases target <;> decide
      unfold colorParameters at listed
      dsimp only at listed
      split at listed
      · have := List.mem_singleton.mp listed
        omega
      split at listed
      · have := List.mem_singleton.mp listed
        omega
      split at listed
      · have := List.mem_singleton.mp listed
        omega
      split at listed
      · have := List.mem_singleton.mp listed
        omega
      · simp only [List.mem_cons, List.not_mem_nil, or_false] at listed
        omega
  have style : ∀ style, attributeCode style ≤ 255 := by intro style; cases style <;> decide
  intro value listed
  have bound : value ≤ 255 := by
    rcases List.mem_cons.mp listed with rfl | listed
    · exact Nat.zero_le _
    · unfold renditionParameters at listed
      simp only [List.mem_append, List.mem_map] at listed
      rcases listed with ((⟨other, -, rfl⟩ | listed) | listed) | listed
      · exact style other
      · exact color _ _ value listed
      · exact color _ _ value listed
      · exact color _ _ value listed
  unfold maxParameter maxU16
  omega

/-- A list that starts with 0 forgets the rendition before it. -/
theorem applyFrom_zero {b : Builder} (zero : b.params 0 = 0)
    (plain : ∀ index, b.paramSeparators index ≠ 0x3a) (some_ : 0 < b.paramCount) (old new : Rendition) :
    b.applyFrom b.paramCount 0 old = b.applyFrom b.paramCount 0 new := by
  have turn : ∀ rendition, b.applyParameter 0 rendition = (0, {}) := by
    intro rendition
    simp only [applyParameter, zero, plain, and_false, if_false]
    rfl
  cases count : b.paramCount with
  | zero => omega
  | succ fuel =>
    unfold applyFrom
    rw [turn, turn, if_pos some_, if_pos some_]

theorem feed_ground (rendition : Rendition) :
    ∃ (reread : Rendition) (params : Nat → Nat) (separators : Nat → UInt8) (count : Nat),
    (reread = rendition ↔ rendition.Fits) ∧
      ∀ {b : Builder}, b.state = .ground → b.feed (renditionBytes rendition) = some { b with
        state := .ground
        utf8Remaining := 0
        lastCell := none
        params := params
        paramSeparators := separators
        paramCount := count
        csiPrivate := false
        rendition := reread } := by
  obtain ⟨params, separators, count, second, reads⟩ := (Reads.start 0
    (Function.update (fun _ => 0) 0 (readNumber 0 [0x30])) (fun _ => 0) (by rw [Function.update_self]; rfl)
    (fun index le => Function.update_of_ne (by omega) ..) (fun _ => by decide)).list
      (renditionParameters rendition) (renditionParameters_small rendition)
  rw [List.singleton_append] at reads
  let holding : Builder :=
    { cells := [], inactiveCells := [], rows := 1, columns := 1, params,
      paramSeparators := separators, paramCount := count }
  refine ⟨holding.applyFrom count 0 {}, params, separators, count, reread_iff (b := holding) reads {}, ?_⟩
  intro b ground
  have bytes : renditionBytes rendition =
      [0x1b, 0x5b] ++ ([0x30] ++ ((renditionParameters rendition).flatMap sgrParameter ++ [0x6d])) := by
    simp only [renditionBytes, List.cons_append, List.nil_append]
  have some_ : 0 < count := by
    rw [reads.counted, List.length_cons]
    unfold maxParams
    omega
  have applied {c : Builder} (same : c.params = params) (same' : c.paramSeparators = separators)
    (same'' : c.paramCount = count) :
      c.applyFrom count 0 b.rendition = holding.applyFrom count 0 {} :=
    (applyFrom_congr (b := holding) same same' same'' count 0 b.rendition).trans
      (applyFrom_zero (b := holding) (reads.exact 0 0 rfl (.inl (by decide))) reads.plain some_ ..)
  rw [bytes, feed_append, feed_introducer ground, Option.bind_some, feed_append,
    feed_digits rfl (fun digit listed => List.mem_singleton.mp listed ▸ rfl), Option.bind_some, feed_append,
    second _ rfl rfl rfl rfl, Option.bind_some, feed_final rfl (by decide) (by decide)]
  rw [← applied (c := { b with
    state := .csi
    utf8Remaining := 0
    lastCell := none
    params := params
    paramSeparators := separators
    paramCount := count
    csiPrivate := false }) rfl rfl rfl]
  rfl

theorem feed_rendition (rendition : Rendition) :
    ∃ reread : Rendition, (reread = rendition ↔ rendition.Fits) ∧
      ∀ {b : Builder} {rows columns : Nat} {cells : List Cell} {row column : Nat} {old : Rendition},
        Shows b rows columns cells row column old →
        ∃ c, b.feed (renditionBytes rendition) = some c ∧ Shows c rows columns cells row column reread := by
  obtain ⟨reread, params, separators, count, exact_, fed⟩ := feed_ground rendition
  exact ⟨reread, exact_, fun shows_ => ⟨_, fed shows_.state, shows_.rows, shows_.columns, shows_.cells,
    shows_.row, shows_.column, rfl, rfl, shows_.primary⟩⟩

end Machinen.Vt
