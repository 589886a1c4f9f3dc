import Machinen.Lib.Json

/-! Declarative descriptions of JSON values. A keyword says nothing about a value that is not of its
kind, and a schema is opened by allowing in its objects what it does not list. -/
namespace Machinen

inductive JsonType where
  | boolean | number | integer | string | array | object
deriving DecidableEq, Repr

def JsonType.has : JsonType → Json → Bool
  | .boolean, .bool _ => true
  | .number, .number _ => true
  | .integer, .number n => n.isInteger
  | .string, .string _ => true
  | .array, .array _ => true
  | .object, .object _ => true
  | _, _ => false

inductive Schema where
  | any
  | never
  | const (value : Json)
  | enum (values : List Json)
  | type (t : JsonType)
  | minLength (least : Nat)
  | pattern (accepts : String → Bool)
  | minimum (bound : Int)
  | maximum (bound : Int)
  | minItems (least : Nat)
  | uniqueItems
  | items (s : Schema)
  | required (name : String)
  | property (name : String) (s : Schema)
  | additional (listed : List String) (s : Schema)
  | both (s t : Schema)
  | either (s t : Schema)

namespace Schema

def all (parts : List Schema) : Schema := parts.foldr both any

def anyOf (options : List Schema) : Schema := options.foldr either never

/-- One of a few strings. -/
def oneOf (names : List String) : Schema := enum (names.map Json.string)

/-- The keywords of a description of objects. -/
def object (names : List String) (properties : List (String × Schema)) (extra : Schema) : Schema :=
  all [type .object, all (names.map required), all (properties.map fun p => property p.1 p.2),
    additional (properties.map Prod.fst) extra]

def text : Schema := type .string

def nonEmpty : Schema := all [text, minLength 1]

def matching (accepts : String → Bool) : Schema := all [text, pattern accepts]

def integerFrom (bound : Int) : Schema := all [type .integer, minimum bound]

def arrayOf (s : Schema) : Schema := all [type .array, items s]

def accepts : Schema → Json → Bool
  | any, _ => true
  | never, _ => false
  | const value, v => value.same v
  | enum values, v => values.any fun value => value.same v
  | type t, v => t.has v
  | minLength least, .string s => decide (least ≤ s.length)
  | pattern p, .string s => p s
  | minimum bound, .number n => n.atLeast bound
  | maximum bound, .number n => n.atMost bound
  | minItems least, .array xs => decide (least ≤ xs.length)
  | uniqueItems, .array xs => decide (xs.Pairwise fun x y => x.same y = false)
  | items s, v => v.elements.all s.accepts
  | required name, .object fields => (fields.lookup name).isSome
  | property name s, v => (v.get name).all s.accepts
  | additional listed s, v => v.entries.all fun e => listed.contains e.1 || s.accepts e.2
  | both s t, v => s.accepts v && t.accepts v
  | either s t, v => s.accepts v || t.accepts v
  | _, _ => true

/-! The equations of `accepts` are made here, before the proofs that all ask for them. -/
section
attribute [local simp] accepts
end

@[simp] theorem accepts_all (parts : List Schema) (v : Json) :
    (all parts).accepts v = parts.all fun s => s.accepts v := by
  induction parts with
  | nil => rfl
  | cons s parts ih =>
    unfold all at ih
    simp [all, accepts, ih]

@[simp] theorem accepts_oneOf (names : List String) (v : Json) :
    (oneOf names).accepts v = true ↔ ∃ s ∈ names, v = .string s := by
  simp [oneOf, accepts, Json.string?_eq_some]

/-- What the schema refuses outright is let through, except below alternatives. -/
def opened : Schema → Schema
  | never => any
  | items s => items s.opened
  | property name s => property name s.opened
  | additional listed s => additional listed s.opened
  | both s t => both s.opened t.opened
  | s => s

@[simp] theorem opened_all (parts : List Schema) : (all parts).opened = all (parts.map opened) := by
  induction parts with
  | nil => rfl
  | cons s parts ih =>
    unfold all at ih
    simp [all, opened, ih]

@[simp] theorem accepts_text (v : Json) : text.accepts v = true ↔ ∃ s, v = .string s := by
  cases v <;> simp [text, accepts, JsonType.has]

@[simp] theorem opened_text : text.opened = text := rfl

@[simp] theorem accepts_arrayOf_opened (s : Schema) (xs : List Json) :
    (arrayOf s).opened.accepts (.array xs) = true ↔ ∀ v ∈ xs, s.opened.accepts v = true := by
  simp [arrayOf, opened, accepts, JsonType.has, Json.elements]

@[simp] theorem opened_required (name : String) : (required name).opened = required name := rfl

theorem accepts_object (names : List String) (properties : List (String × Schema)) (v : Json) :
    (object names properties any).accepts v = true ↔ (∃ fields, v = .object fields) ∧
      (∀ name ∈ names, (v.get name).isSome = true) ∧ ∀ p ∈ properties, (v.get p.1).all p.2.accepts = true := by
  cases v with
  | object fields => simp [object, accepts, JsonType.has, Json.get]
  | _ => simp [object, accepts, JsonType.has]

theorem accepts_object_opened (names : List String) (properties : List (String × Schema)) (v : Json) :
    (object names properties never).opened.accepts v = true ↔ (∃ fields, v = .object fields) ∧
      (∀ name ∈ names, (v.get name).isSome = true) ∧
      ∀ p ∈ properties, (v.get p.1).all p.2.opened.accepts = true := by
  cases v with
  | object fields =>
    simp [object, opened, accepts, JsonType.has, Json.get]
  | _ => simp [object, opened, accepts, JsonType.has]

/-- Nothing stands where the schema refuses everything: no object has a field that is not listed. -/
def closed : Schema → Json → Bool
  | never, _ => false
  | items s, v => v.elements.all s.closed
  | property name s, v => (v.get name).all s.closed
  | additional listed s, v => v.entries.all fun e => listed.contains e.1 || s.closed e.2
  | both s t, v => s.closed v && t.closed v
  | _, _ => true

theorem all_and {α : Type} (xs : List α) (p q : α → Bool) :
    (xs.all fun x => p x && q x) = (xs.all p && xs.all q) := by
  induction xs with
  | nil => rfl
  | cons x xs ih =>
    simp only [List.all_cons, ih]
    cases p x <;> cases q x <;> simp

/-- A schema accepts what it accepts when opened, if nothing has been added. -/
theorem accepts_eq (s : Schema) (v : Json) : s.accepts v = (s.opened.accepts v && s.closed v) := by
  induction s generalizing v with
  | never => rfl
  | items s ih => simp only [accepts, opened, closed, ← all_and, ← ih]
  | property name s ih =>
    simp only [accepts, opened, closed]
    cases v.get name with
    | none => rfl
    | some x => exact ih x
  | additional listed s ih =>
    simp only [accepts, opened, closed, ← all_and, ← Bool.or_and_distrib_left, ← ih]
  | both s t ihs iht =>
    simp only [accepts, opened, closed, ihs v, iht v]
    cases s.opened.accepts v <;> cases t.opened.accepts v <;> simp
  | _ => simp [opened, closed]

end Schema
end Machinen
