import Machinen.Console.Masked

/-! The filter between the guest console and the terminal in quiet mode. -/
namespace Machinen.Console

open Utf8

def lineFeed : UInt8 := 10

/-- `split("\n")` -/
def split : Text → List Text
  | [] => [[]]
  | c :: text =>
    if c = newline then [] :: split text
    else
      match split text with
      | [] => [[c]]
      | part :: parts => (c :: part) :: parts

def splitLines (text : Text) : List Text :=
  let parts := split text
  if parts.getLast? = some [] then parts.dropLast else parts

def lastPart (text : Text) : Text := (text.reverse.takeWhile (· ≠ newline)).reverse

def complete (text : Text) : Text := (text.reverse.dropWhile (· ≠ newline)).reverse

structure NoiseFilter where
  residual : Text := []
  readyFired : Bool := false
  /-- How often `onReady` was called. -/
  announced : Nat := 0
  buffer : List Text := []
  out : Bytes := []

namespace NoiseFilter

def keep (f : NoiseFilter) (text : Text) : NoiseFilter := { f with buffer := f.buffer ++ [text] }

def passThrough (f : NoiseFilter) (text : Text) : NoiseFilter :=
  { f with out := f.out ++ encode text, buffer := f.buffer ++ [text] }

def ready (f : NoiseFilter) : NoiseFilter :=
  if f.readyFired then f else { f with readyFired := true, announced := f.announced + 1 }

def routeLine (f : NoiseFilter) (line terminator : Text) : NoiseFilter :=
  if line = [] ∧ terminator = [] then f
  else if f.readyFired = false ∧ isBootNoiseLine line then f.keep (line ++ terminator)
  else if f.readyFired = false ∧ isBlank line then f.keep (line ++ terminator)
  else f.ready.passThrough (line ++ terminator)

def push (f : NoiseFilter) (chunk : Bytes) : NoiseFilter :=
  let text := decode chunk
  if f.readyFired then f.passThrough text
  else
    let combined := f.residual ++ text
    if newline ∉ combined then
      if isLikelyInteractivePrompt combined then { f with residual := [] }.routeLine combined []
      else { f with residual := combined }
    else
      let g := (splitLines (complete combined)).foldl (fun f line => f.routeLine line [newline])
        { f with residual := lastPart combined }
      if g.readyFired && g.residual ≠ [] then { g with residual := [] }.passThrough g.residual else g

def flush (f : NoiseFilter) : NoiseFilter :=
  if f.residual = [] then f else { f with residual := [] }.routeLine f.residual []

end NoiseFilter

def written (chunks : List Bytes) : Bytes := (chunks.foldl NoiseFilter.push {}).flush.out

/-! What is to be written -/

def lines : Bytes → List Bytes
  | [] => []
  | b :: bytes =>
    if b = lineFeed then [b] :: lines bytes
    else
      match lines bytes with
      | [] => [[b]]
      | line :: rest => (b :: line) :: rest

def contents (line : Bytes) : Bytes := line.filter (· ≠ lineFeed)

def dull (text : Text) : Bool := isBootNoiseLine text || isBlank text

/-- The stream from its first line on that is neither boot noise nor blank. -/
def workload (stream : Bytes) : Bytes :=
  ((lines stream).dropWhile fun line => dull (decode (contents line))).flatten

end Machinen.Console
