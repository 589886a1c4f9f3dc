import Machinen.Lib.Bytes
import Machinen.Lib.Relay
import Mathlib.Data.List.Infix

/-! The guest's file agent: the request line, and the loop that both transfers share. `tar` is
known by its exits alone. -/
namespace Machinen.Files

open Relay

def newline : UInt8 := 10
def space : UInt8 := 32
def lineLen : Nat := 4096
def chunk : Nat := 64 * 1024

/-- How a process ends: with a code, or by a signal. -/
abbrev Exit := Option Nat

/-- `read_line` with the room that is left; nothing when the bytes end before the line does, and
`some none` when the line is too long. -/
def readLine : Nat → Bytes → Option (Option Bytes)
  | 0, _ => some none
  | _ + 1, [] => none
  | room + 1, b :: bytes => if b = newline then some (some []) else (readLine room bytes).map (Option.map (b :: ·))

inductive Command where
  | push (path : Bytes)
  | pull (path : Bytes)
  deriving DecidableEq

def pushWord : Bytes := [80, 85, 83, 72]
def pullWord : Bytes := [80, 85, 76, 76]

def parseCommand (line : Bytes) : Option Command :=
  if space ∈ line then
    let op := line.takeWhile (· ≠ space)
    let path := line.drop (op.length + 1)
    if op = pushWord then some (.push path) else if op = pullWord then some (.pull path) else none
  else none

def request (word path : Bytes) : Bytes := word ++ [space] ++ path ++ [newline]

inductive AgentPc where
  | header
  | copying
  | waiting
  | closed
  deriving DecidableEq

/-- Some archive has been written or read to its end; `whole` knows an archive by its end marker. -/
def archived (whole : Bytes → Bool) (stream : Bytes) : Bool := stream.inits.any whole

theorem archived_iff {whole : Bytes → Bool} {stream : Bytes} :
    archived whole stream ↔ ∃ archive, whole archive ∧ archive <+: stream := by
  unfold archived
  rw [List.any_eq_true]
  simp only [List.mem_inits]
  exact ⟨fun ⟨x, before, whole⟩ => ⟨x, whole, before⟩, fun ⟨x, whole, before⟩ => ⟨x, before, whole⟩⟩

/-- What a call comes to: an error event that nobody listens to ends the host process. -/
inductive Outcome where
  | resolved
  | rejected
  | crashed
  deriving DecidableEq

def unfailed (exit : Option Exit) : Prop := exit = none ∨ exit = some (some 0)

instance (exit : Option Exit) : Decidable (unfailed exit) := inferInstanceAs (Decidable (_ ∨ _))

def mayExit (whole : Bytes → Bool) (stream : Bytes) (exit : Exit) : Prop :=
  exit = some 0 → archived whole stream

instance (whole : Bytes → Bool) (stream : Bytes) (exit : Exit) : Decidable (mayExit whole stream exit) :=
  inferInstanceAs (Decidable (_ → _))

theorem readLine_spec {room : Nat} {stream line : Bytes} (read : readLine room stream = some (some line)) :
    line ++ [newline] <+: stream ∧ newline ∉ line := by
  induction stream generalizing room line with
  | nil =>
    cases room with
    | zero => exact nomatch read
    | succ room => exact nomatch read
  | cons b stream ih =>
    cases room with
    | zero => exact nomatch read
    | succ room =>
      rw [readLine] at read
      split at read
      · rename_i same
        obtain rfl := Option.some.inj (Option.some.inj read)
        exact ⟨⟨stream, by rw [same]; rfl⟩, List.not_mem_nil⟩
      · rename_i other
        obtain ⟨found, later, mapped⟩ := Option.map_eq_some_iff.mp read
        obtain ⟨tail, rfl, rfl⟩ := Option.map_eq_some_iff.mp mapped
        obtain ⟨⟨rest, split⟩, free⟩ := ih later
        refine ⟨⟨rest, by rw [← split]; rfl⟩, fun mem => ?_⟩
        rcases List.mem_cons.mp mem with same | mem
        · exact other same.symm
        · exact free mem

theorem line_unique {line line' rest : Bytes} (before : line ++ [newline] <+: line' ++ newline :: rest)
    (free : newline ∉ line) (free' : newline ∉ line') : line = line' := by
  induction line generalizing line' with
  | nil =>
    cases line' with
    | nil => rfl
    | cons b line' =>
      have same := (List.cons_prefix_cons.mp before).1
      exact absurd (same ▸ List.mem_cons_self) free'
  | cons b line ih =>
    cases line' with
    | nil =>
      have same := (List.cons_prefix_cons.mp before).1
      exact absurd (same ▸ List.mem_cons_self) free
    | cons b' line' =>
      obtain ⟨rfl, later⟩ := List.cons_prefix_cons.mp before
      rw [ih later (fun mem => free (List.mem_cons_of_mem _ mem)) fun mem =>
        free' (List.mem_cons_of_mem _ mem)]

theorem readLine_of_request {word path rest stream line : Bytes}
    (before : stream <+: request word path ++ rest)
    (read : readLine lineLen stream = some (some line)) (plain : newline ∉ word) (single : newline ∉ path) :
    line.length + 1 = (request word path).length := by
  obtain ⟨there, free⟩ := readLine_spec read
  have there := there.trans before
  have split : request word path ++ rest = (word ++ [space] ++ path) ++ newline :: rest := by simp [request]
  rw [split] at there
  have free' : newline ∉ word ++ [space] ++ path := by
    have apart : newline ≠ space := by decide
    simp [plain, single, apart]
  rw [line_unique there free free']
  simp only [request, List.length_append, List.length_cons, List.length_nil]

end Machinen.Files
