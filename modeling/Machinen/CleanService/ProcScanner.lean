import Machinen.Runtime.Multiplex
import Mathlib

/-! The scanner that reads the tables of a kernel under `/proc`, and what it decides about the mount an
application lies on. -/
namespace Machinen.CleanService

open Runtime.Multiplex (trim trimStart splitSpaces)

inductive KernelDecisionKind where
  | supported
  | irrelevant
  | refused
  deriving DecidableEq, Repr

structure KernelDecision where
  kind : KernelDecisionKind
  code : String
  message : String
  detail : List (String × Text) := []
  deriving DecidableEq

structure TcpRow where
  /-- Nothing for what is not a number. -/
  localPort : Option Int
  state : Text
  inode : Text
  deriving DecidableEq

structure UnixSocketRow where
  type : Text
  state : Text
  inode : Text
  path : Option Text
  deriving DecidableEq

structure MemoryMapRow where
  path : Option Text
  permissions : Text
  deriving DecidableEq

structure MountInfoRow where
  mountPoint : Text
  fsType : Text
  options : List Text
  optionalFields : List Text
  deriving DecidableEq

inductive Num where
  | nan
  | infinity (negative : Bool)
  | finite (value : ℚ)
  deriving DecidableEq

structure ProcessStatInfo where
  pid : Num
  ppid : Num
  pgrp : Num
  session : Num
  deriving DecidableEq

def digitValue (c : Char) : Nat :=
  if c.isDigit then c.toNat - '0'.toNat
  else if 'a' ≤ c ∧ c ≤ 'z' then c.toNat - 'a'.toNat + 10
  else if 'A' ≤ c ∧ c ≤ 'Z' then c.toNat - 'A'.toNat + 10
  else 36

def isDigitOf (radix : Nat) (c : Char) : Bool := digitValue c < radix

def digitsValue (radix : Nat) (digits : Text) : Nat := digits.foldl (fun n c => radix * n + digitValue c) 0

def sign (text : Text) : Bool × Text :=
  match text with
  | '-' :: rest => (true, rest)
  | '+' :: rest => (false, rest)
  | rest => (false, rest)

/-- `parseInt(text, 16)`. -/
def parseInt16 (text : Text) : Option Int :=
  let (negative, rest) := sign (trimStart text)
  let rest := match rest with
    | '0' :: 'x' :: rest => rest
    | '0' :: 'X' :: rest => rest
    | rest => rest
  let digits := rest.takeWhile (isDigitOf 16)
  if digits = [] then none
  else
    let value : Int := digitsValue 16 digits
    some (if negative then -value else value)

def unsignedDecimal (text : Text) : Option ℚ :=
  let whole := text.takeWhile (isDigitOf 10)
  let rest := text.dropWhile (isDigitOf 10)
  let (fraction, rest) := match rest with
    | '.' :: rest => (rest.takeWhile (isDigitOf 10), rest.dropWhile (isDigitOf 10))
    | rest => ([], rest)
  if whole ++ fraction = [] then none
  else
    let mantissa : ℚ := digitsValue 10 (whole ++ fraction) / 10 ^ fraction.length
    match rest with
    | [] => some mantissa
    | e :: rest =>
      let (negative, exponent) := sign rest
      if (e = 'e' ∨ e = 'E') ∧ exponent ≠ [] ∧ exponent.all (isDigitOf 10) then
        if negative then some (mantissa / 10 ^ digitsValue 10 exponent)
        else some (mantissa * 10 ^ digitsValue 10 exponent)
      else none

def radixLiteral (radix : Nat) (digits : Text) : Num :=
  if digits ≠ [] ∧ digits.all (isDigitOf radix) then .finite (digitsValue radix digits) else .nan

def signedDecimal (text : Text) : Num :=
  let (negative, rest) := sign text
  if rest = "Infinity".toList then .infinity negative
  else match unsignedDecimal rest with
    | none => .nan
    | some value => .finite (if negative then -value else value)

/-- `Number(text)`. -/
def number (text : Text) : Num :=
  match trim text with
  | [] => .finite 0
  | '0' :: 'x' :: digits => radixLiteral 16 digits
  | '0' :: 'X' :: digits => radixLiteral 16 digits
  | '0' :: 'o' :: digits => radixLiteral 8 digits
  | '0' :: 'O' :: digits => radixLiteral 8 digits
  | '0' :: 'b' :: digits => radixLiteral 2 digits
  | '0' :: 'B' :: digits => radixLiteral 2 digits
  | text => signedDecimal text

def Num.isFinite : Num → Bool
  | .finite _ => true
  | _ => false

/-- `line.trim().split(/\s+/u)`. -/
def columns (line : Text) : List Text := splitSpaces (trim line)

/-- `text.trim().split(/\n/u)`. -/
def tableLines (text : Text) : List Text := (trim text).splitOn '\n'

def tcpRow (cols : List Text) : TcpRow :=
  { localPort := (((cols.getD 1 []).splitOn ':')[1]?).bind parseInt16
    state := cols.getD 3 []
    inode := cols.getD 9 [] }

def parseTcpTable (text : Text) : List TcpRow :=
  ((((tableLines text).drop 1).map columns).filter (·.length > 9)).map tcpRow

def unixSocketRow (cols : List Text) : UnixSocketRow :=
  { type := cols.getD 4 []
    state := cols.getD 5 []
    inode := cols.getD 6 []
    path := cols[7]? }

def parseUnixSocketTable (text : Text) : List UnixSocketRow :=
  ((((tableLines text).drop 1).map columns).filter (·.length ≥ 7)).map unixSocketRow

/-- `text || undefined`. -/
def orUndefined (text : Text) : Option Text := if text = [] then none else some text

def memoryMapRow (cols : List Text) : MemoryMapRow :=
  { permissions := cols.getD 1 []
    path := orUndefined ([' '].intercalate (cols.drop 5)) }

def parseMaps (text : Text) : List MemoryMapRow :=
  (((tableLines text).map columns).filter (·.length ≥ 2)).map memoryMapRow

/-- How far `replaceAll` has come into a match, and what it makes of the rest. -/
def replaceFrom (old new : Text) : Nat → Text → Text
  | _, [] => []
  | skip + 1, _ :: text => replaceFrom old new skip text
  | 0, c :: text =>
    if old.isPrefixOf (c :: text) then new ++ replaceFrom old new (old.length - 1) text
    else c :: replaceFrom old new 0 text

def replaceAll (old new text : Text) : Text := replaceFrom old new 0 text

def unescapeMountPath (path : Text) : Text :=
  replaceAll "\\012".toList "\n".toList
    (replaceAll "\\011".toList "\t".toList (replaceAll "\\040".toList " ".toList path))

def mountRow (parts : List Text) : MountInfoRow :=
  let sep := parts.idxOf? "-".toList
  { mountPoint := unescapeMountPath (parts.getD 4 "/".toList)
    options := (parts.getD 5 []).splitOn ','
    optionalFields := match sep with
      | some sep => if sep > 6 then (parts.take sep).drop 6 else []
      | none => []
    fsType := match sep with
      | some sep => parts.getD (sep + 1) "unknown".toList
      | none => "unknown".toList }

def parseMountInfo (text : Text) : List MountInfoRow := (tableLines text).map fun line => mountRow (columns line)

def lastIndexOf (c : Char) (text : Text) : Option Nat :=
  (text.reverse.idxOf? c).map fun back => text.length - 1 - back

def parseProcessStat (text : Text) : Option ProcessStatInfo :=
  -- Without a space the index is -1, and the slice ends in front of the last character.
  let pid := number (match text.idxOf? ' ' with
    | some space => text.take space
    | none => text.dropLast)
  match lastIndexOf ')' text with
  | none => none
  | some at_ =>
    if pid.isFinite then
      let rest := columns (text.drop (at_ + 2))
      let field (i : Nat) := (rest[i]?).elim .nan number
      some { pid := pid, ppid := field 1, pgrp := field 2, session := field 3 }
    else none

/-- `root.replace(/\/+$/u, "")`. -/
def stripSlashes (root : Text) : Text := root.rdropWhile (· == '/')

def isPathInside (path root : Text) : Bool := path == root || (stripSlashes root ++ ['/']).isPrefixOf path

def utf16Length (text : Text) : Nat := (text.map fun c => if c.toNat < 0x10000 then 1 else 2).sum

def deepestMountForPath (path : Text) (mounts : List MountInfoRow) : Option MountInfoRow :=
  ((mounts.filter fun mount => isPathInside path mount.mountPoint || path == mount.mountPoint).mergeSort
    fun a b => decide (utf16Length b.mountPoint ≤ utf16Length a.mountPoint)).head?

def inspectMountState (appRoot : Text) (mounts : List MountInfoRow) : List KernelDecision :=
  match deepestMountForPath appRoot mounts with
  | none => []
  | some mount =>
    let detail := [("mountPoint", mount.mountPoint), ("fsType", mount.fsType)]
    if mount.mountPoint = "/mnt".toList ∨ "/mnt/".toList.isPrefixOf mount.mountPoint then
      if mount.options.contains "ro".toList then
        [{ kind := .supported
           code := "clean-service-readonly-host-mount-provenance-required"
           message := "read-only host mount can be accepted only with immutable file provenance"
           detail := detail }]
      else
        [{ kind := .refused
           code := "clean-service-mount-state-ambiguous"
           message := "writable host-mounted app state is ambiguous clean-service input"
           detail := detail }]
    else
      [{ kind := .supported
         code := "clean-service-guest-filesystem-root-captured"
         message := "app root is on the captured guest filesystem"
         detail := detail }]

end Machinen.CleanService
