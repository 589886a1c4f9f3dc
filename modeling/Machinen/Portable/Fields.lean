import Machinen.Portable.Validate

/-! What the checks of single fields establish, said through the schemas with their refusals of
unlisted fields left out. -/
namespace Machinen.Portable

open Schema

/-- The value is there, and the opened schema accepts it. -/
def Has (s : Schema) (value : Unknown) : Prop := value.isSome = true ∧ value.all s.opened.accepts = true

def May (s : Schema) (value : Unknown) : Prop := value.all s.opened.accepts = true

@[simp] theorem has_some (s : Schema) (v : Json) : Has s (some v) ↔ s.opened.accepts v = true := by
  simp [Has]

@[simp] theorem not_has_none (s : Schema) : ¬ Has s none := by
  simp [Has]

@[simp] theorem may_none (s : Schema) : May s none := rfl

@[simp] theorem may_some (s : Schema) (v : Json) : May s (some v) ↔ s.opened.accepts v = true := by
  simp [May]

@[simp] theorem report_nil {ok : Bool} {error : String} : report ok error = [] ↔ ok = true := by
  cases ok <;> simp [report]

theorem expectRecord_nil {path : String} {value : Unknown} {next : Json → Errors} :
    expectRecord path value next = [] ↔ ∃ fields, value = some (.object fields) ∧ next (.object fields) = [] := by
  constructor
  · intro none
    unfold expectRecord at none
    split at none
    · exact ⟨_, rfl, none⟩
    · exact nomatch none
  · rintro ⟨fields, rfl, none⟩
    exact none

theorem expectArray_nil {path : String} {value : Unknown} {next : List Json → Errors} :
    expectArray path value next = [] ↔ ∃ items, value = some (.array items) ∧ next items = [] := by
  constructor
  · intro none
    unfold expectArray at none
    split at none
    · exact ⟨_, rfl, none⟩
    · exact nomatch none
  · rintro ⟨items, rfl, none⟩
    exact none

theorem whenDefined_nil {check : Unknown → Errors} {s : Schema}
    (checks : ∀ value, check value = [] ↔ Has s value) (value : Unknown) :
    whenDefined check value = [] ↔ May s value := by
  cases value with
  | none => simp [whenDefined]
  | some v =>
    simp only [whenDefined, may_some]
    rw [checks, has_some]

theorem forEachFrom_nil {check : String → Unknown → Errors} {ok : Json → Prop}
    (checks : ∀ path v, check path (some v) = [] ↔ ok v) (path : String) (i : Nat) (items : List Json) :
    forEachFrom path check i items = [] ↔ ∀ v ∈ items, ok v := by
  induction items generalizing i with
  | nil => simp [forEachFrom]
  | cons v items ih => simp [forEachFrom, checks, ih]

theorem expectArray_with {s : Schema} {path : String} {next : List Json → Errors} {extra : List Json → Prop}
    (checks : ∀ xs, next xs = [] ↔ (∀ v ∈ xs, s.opened.accepts v = true) ∧ extra xs) (value : Unknown) :
    expectArray path value next = [] ↔ Has (arrayOf s) value ∧ ∀ xs, value = some (.array xs) → extra xs := by
  rw [expectArray_nil]
  constructor
  · rintro ⟨xs, rfl, none⟩
    obtain ⟨each, more⟩ := (checks xs).mp none
    refine ⟨by simpa using each, fun ys same => ?_⟩
    cases same
    exact more
  · rintro ⟨has, more⟩
    cases value with
    | none => simp at has
    | some v =>
      cases v with
      | array xs => exact ⟨xs, rfl, (checks xs).mpr ⟨by simpa using has, more xs rfl⟩⟩
      | _ => simp [arrayOf, opened, accepts, JsonType.has] at has

theorem forEach_has {check : String → Unknown → Errors} {s : Schema}
    (checks : ∀ path value, check path value = [] ↔ Has s value) (path : String) (value : Unknown) :
    expectArray path value (forEach path check) = [] ↔ Has (arrayOf s) value := by
  have bare : expectArray path value (forEach path check) = [] ↔
      Has (arrayOf s) value ∧ ∀ xs, value = some (.array xs) → True := by
    refine expectArray_with (fun xs => ?_) value
    rw [forEach, forEachFrom_nil fun path v => (checks path (some v)).trans (has_some s v)]
    simp
  simpa using bare

section Records

variable {names : List String} {properties : List (String × Schema)} {path : String} {next : Json → Errors}

/-- A record whose fields are checked as its description says, with a check of its own besides. -/
theorem expectRecord_with {extra : Json → Prop}
    (checks : ∀ v, next v = [] ↔ ((∀ name ∈ names, (v.get name).isSome = true) ∧
      ∀ p ∈ properties, May p.2 (v.get p.1)) ∧ extra v) (value : Unknown) :
    expectRecord path value next = [] ↔
      Has (object names properties never) value ∧ ∀ v, value = some v → extra v := by
  rw [expectRecord_nil]
  cases value with
  | none => simp
  | some v =>
    rw [has_some, accepts_object_opened]
    constructor
    · rintro ⟨fields, same, none⟩
      cases same
      obtain ⟨fits, more⟩ := (checks _).mp none
      exact ⟨⟨⟨fields, rfl⟩, fits⟩, fun w same => Option.some.inj same ▸ more⟩
    · rintro ⟨⟨⟨fields, rfl⟩, fits⟩, more⟩
      exact ⟨fields, rfl, (checks _).mpr ⟨fits, more _ rfl⟩⟩

theorem expectRecord_has (checks : ∀ v, next v = [] ↔ (∀ name ∈ names, (v.get name).isSome = true) ∧
      ∀ p ∈ properties, May p.2 (v.get p.1)) (value : Unknown) :
    expectRecord path value next = [] ↔ Has (object names properties never) value := by
  have bare : expectRecord path value next = [] ↔
      Has (object names properties never) value ∧ ∀ v, value = some v → True :=
    expectRecord_with (fun v => by simp [checks]) value
  simpa using bare

end Records

theorem validateEnum_nil (allowed : List String) (path : String) (value : Unknown) :
    validateEnum allowed path value = [] ↔ Has (oneOf allowed) value := by
  have opened : (oneOf allowed).opened = oneOf allowed := rfl
  cases value with
  | none => simp [validateEnum, stringOf]
  | some v =>
    rw [has_some, opened, accepts_oneOf]
    cases v <;> simp [validateEnum, stringOf, Json.string?]

theorem validateString_nil (path : String) (value : Unknown) :
    validateString path value = [] ↔ Has text value := by
  cases value with
  | none => simp [validateString, stringOf]
  | some v => cases v <;> simp [validateString, stringOf, Json.string?, text, Schema.opened, accepts, JsonType.has]

theorem validateNonEmptyString_nil (path : String) (value : Unknown) :
    validateNonEmptyString path value = [] ↔ Has nonEmpty value := by
  cases value with
  | none => simp [validateNonEmptyString, stringOf]
  | some v =>
    cases v <;> simp [validateNonEmptyString, stringOf, Json.string?, nonEmpty, text, Schema.opened, accepts,
      JsonType.has, Nat.one_le_iff_ne_zero]

theorem matching_nil (test : String → Bool) (error : String) (value : Unknown) :
    report ((stringOf value).any test) error = [] ↔ Has (matching test) value := by
  cases value with
  | none => simp [stringOf]
  | some v =>
    cases v <;> simp [stringOf, Json.string?, matching, text, Schema.opened, accepts, JsonType.has]

theorem validateInteger_nil (path : String) (value : Unknown) :
    validateInteger path value = [] ↔ Has (type .integer) value := by
  cases value with
  | none => simp [validateInteger, integerOf]
  | some v =>
    cases v with
    | number n => cases whole : n.isInteger <;>
        simp [validateInteger, integerOf, Schema.opened, accepts, JsonType.has, whole]
    | _ => simp [validateInteger, integerOf, Schema.opened, accepts, JsonType.has]

/-- The checks of an integer against a least value. -/
theorem integerFrom_nil (bound : Int) (error : String) (value : Unknown) :
    report ((integerOf value).any fun n => decide (bound ≤ n)) error = [] ↔ Has (integerFrom bound) value := by
  cases value with
  | none => simp [integerOf]
  | some v =>
    cases v with
    | number n =>
      cases whole : n.isInteger with
      | false => simp [integerOf, integerFrom, Schema.opened, accepts, JsonType.has, whole]
      | true => simp [integerOf, integerFrom, Schema.opened, accepts, JsonType.has, whole,
          Number.atLeast_integer whole]
    | _ => simp [integerOf, integerFrom, Schema.opened, accepts, JsonType.has]

theorem validateNonNegativeInteger_nil (path : String) (value : Unknown) :
    validateNonNegativeInteger path value = [] ↔ Has (integerFrom 0) value :=
  integerFrom_nil 0 _ value

theorem validateHexAddress_nil (path : String) (value : Unknown) :
    validateHexAddress path value = [] ↔ Has addressSchema value :=
  matching_nil addressPattern _ value

theorem const_nil (c : Json) (error : String) (value : Unknown) :
    report (value.any c.same) error = [] ↔ Has (const c) value := by
  cases value <;> simp [Schema.opened, accepts]

end Machinen.Portable
