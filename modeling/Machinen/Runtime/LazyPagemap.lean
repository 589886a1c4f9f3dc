import Machinen.Lib.Varint
import Mathlib.Data.Nat.Log

/-! The rewriting of a pagemap image: a stream of messages behind two magic numbers, of which every
entry that is to be loaded on demand gets a flag of its own. Numbers of the protocol are bigints, but
the flags go through a JavaScript number and its operators on 32 bits. -/
namespace Machinen.Runtime.LazyPagemap

open Bytes

inductive Thrown where
  | error (text : String)
  | rangeError
  deriving DecidableEq, Repr

def fail {A : Type} (text : String) : Except Thrown A := .error (.error text)

/-- `toString(16)`. -/
def hex (n : Nat) : String := String.ofList (Nat.toDigits 16 n)

def IMG_COMMON_MAGIC : Nat := 0x54564319
def PAGEMAP_MAGIC : Nat := 0x56084025

def PE_LAZY : Nat := 1 <<< 1
def PE_PRESENT : Nat := 1 <<< 2

/-- `Number(n)` of a bigint: the nearest number of 53 binary digits, the even one of two. -/
def number (n : Nat) : Nat :=
  if n < 2 ^ 53 then n
  else
    let unit := 2 ^ (Nat.log2 n - 52)
    let digits := n / unit
    let rest := n % unit
    if unit < 2 * rest ∨ (unit = 2 * rest ∧ digits % 2 = 1) then (digits + 1) * unit else digits * unit

def toInt32 (n : Nat) : Int :=
  let low : Nat := n % 2 ^ 32
  if low < 2 ^ 31 then low else low - 2 ^ 32

def bitAnd (a b : Nat) : Int := toInt32 (a % 2 ^ 32 &&& b % 2 ^ 32)
def bitOr (a b : Nat) : Int := toInt32 (a % 2 ^ 32 ||| b % 2 ^ 32)

structure VmaRange where
  lo : Int
  hi : Int
  deriving DecidableEq, Repr

/-- The loop of `readVarint`, which never takes more than ten turns. -/
def readVarintLoop (buf : Bytes) : Nat → Nat → Nat → Nat → Except Thrown (Nat × Nat)
  | 0, _, _, _ => fail "varint: overflow (>10 bytes)"
  | turns + 1, result, shift, p =>
    match buf[p]? with
    | none => fail "varint: truncated"
    | some b =>
      let result := result ||| (b.toNat &&& 0x7f) <<< shift
      if b.toNat &&& 0x80 = 0 then .ok (result, p + 1)
      else if 63 < shift + 7 then fail "varint: overflow (>10 bytes)"
      else readVarintLoop buf turns result (shift + 7) (p + 1)

def readVarint (buf : Bytes) (pos : Nat) : Except Thrown (Nat × Nat) := readVarintLoop buf 10 0 0 pos

/-- The loop of `encodeVarint`; five bytes hold every value of 31 bits. -/
def encodeVarint (value : Int) : Except Thrown Bytes :=
  if value < 0 then fail "varint: negative not supported here" else .ok (Varint.encode 4 value.toNat)

/-- Where a field ends. A length that a number cannot hold exactly is beyond every buffer. -/
def skipField (buf : Bytes) (pos wireType : Nat) : Except Thrown Nat :=
  match wireType with
  | 0 => (readVarint buf pos).map (·.2)
  | 1 => .ok (pos + 8)
  | 2 => (readVarint buf pos).map fun (len, next) => next + len
  | 5 => .ok (pos + 4)
  | _ => fail ("protobuf: unsupported wire type " ++ toString wireType)

structure PagemapEntryFields where
  flagsValPos : Int := -1
  flagsValLen : Nat := 0
  flags : Nat := 0
  vaddr : Option Nat := none
  nrPages : Option Nat := none
  compatNrPages : Option Nat := none
  deriving DecidableEq, Repr

def applyPagemapEntryField (fields : PagemapEntryFields) (field value valueStart valueNext : Nat) :
    PagemapEntryFields :=
  if field = 1 then { fields with vaddr := some value }
  else if field = 2 then { fields with compatNrPages := some value }
  else if field = 4 then
    { fields with flagsValPos := valueStart, flagsValLen := valueNext - valueStart, flags := number value }
  else if field = 5 then { fields with nrPages := some value }
  else fields

def readPagemapEntryField (msg : Bytes) (pos : Nat) (fields : PagemapEntryFields) :
    Except Thrown (Nat × PagemapEntryFields) := do
  let (tag, next) ← readVarint msg pos
  let wireType := tag &&& 0x7
  let field := tag >>> 3
  if wireType ≠ 0 then
    let skipped ← skipField msg next wireType
    return (skipped, fields)
  else
    let (value, valueNext) ← readVarint msg next
    return (valueNext, applyPagemapEntryField fields field value next valueNext)

/-- The loop over the fields; each takes a byte at least. -/
def parseFieldsFrom (msg : Bytes) : Nat → Nat → PagemapEntryFields → Except Thrown PagemapEntryFields
  | 0, _, fields => .ok fields
  | turns + 1, pos, fields =>
    if pos < msg.length then do
      let (next, fields) ← readPagemapEntryField msg pos fields
      parseFieldsFrom msg turns next fields
    else .ok fields

def parsePagemapEntryFields (msg : Bytes) : Except Thrown PagemapEntryFields :=
  parseFieldsFrom msg msg.length 0 {}

def entryIsAlreadyLazy (fields : PagemapEntryFields) : Bool := bitAnd fields.flags PE_LAZY != 0

def entryPageCount (fields : PagemapEntryFields) : Nat :=
  (fields.nrPages <|> fields.compatNrPages).getD 0

def vaddrInLazyRange (vaddr len : Nat) (ranges : List VmaRange) : Bool :=
  ranges.any fun r => r.lo ≤ (vaddr : Int) && ((vaddr + len : Nat) : Int) ≤ r.hi

def entryShouldBecomeLazy (fields : PagemapEntryFields) (lazyRanges : List VmaRange) : Bool :=
  match fields.vaddr with
  | none => false
  | some vaddr =>
    bitAnd fields.flags PE_PRESENT != 0 && (0 < lazyRanges.length &&
      vaddrInLazyRange vaddr (entryPageCount fields * 4096) lazyRanges)

structure EntryRewriteResult where
  out : Bytes
  changed : Bool
  alreadyLazy : Bool
  deriving DecidableEq, Repr

def unchangedEntry (msg : Bytes) (alreadyLazy : Bool) : EntryRewriteResult := ⟨msg, false, alreadyLazy⟩

def rewriteEntryFlags (msg : Bytes) (fields : PagemapEntryFields) : Except Thrown EntryRewriteResult := do
  let newFlagsBytes ← encodeVarint (bitOr fields.flags PE_LAZY)
  return ⟨msg.take fields.flagsValPos.toNat ++ newFlagsBytes ++
    msg.drop (fields.flagsValPos.toNat + fields.flagsValLen), true, false⟩

def rewriteEntry (msg : Bytes) (lazyRanges : List VmaRange) : Except Thrown EntryRewriteResult := do
  let fields ← parsePagemapEntryFields msg
  if entryIsAlreadyLazy fields then return unchangedEntry msg true
  else if !entryShouldBecomeLazy fields lazyRanges then return unchangedEntry msg false
  else rewriteEntryFlags msg fields

structure RewriteResult where
  out : Bytes
  changed : Bool := false
  entriesFlagged : Nat := 0
  entriesAlreadyLazy : Nat := 0
  deriving DecidableEq, Repr

def appendPagemapMessage (out msg : Bytes) : Except Thrown Bytes :=
  if msg.length < 2 ^ 32 then .ok (out ++ (le 4 msg.length ++ msg)) else .error .rangeError

def rewritePagemapEntryMessage (state : RewriteResult) (msg : Bytes) (lazyRanges : List VmaRange) :
    Except Thrown (RewriteResult × Bytes) := do
  let result ← rewriteEntry msg lazyRanges
  let counted := if result.alreadyLazy then
    { state with entriesAlreadyLazy := state.entriesAlreadyLazy + 1 } else state
  if result.changed then
    return ({ counted with entriesFlagged := counted.entriesFlagged + 1, changed := true }, result.out)
  else return (counted, msg)

def appendRewrittenPagemapMessage (state : RewriteResult) (msg : Bytes) (isFirst : Bool)
    (lazyRanges : List VmaRange) : Except Thrown RewriteResult := do
  let (state, outMsg) ←
    if isFirst then pure (state, msg) else rewritePagemapEntryMessage state msg lazyRanges
  let out ← appendPagemapMessage state.out outMsg
  return { state with out }

def readPagemapMessage (input : Bytes) (pos : Nat) : Except Thrown (Bytes × Nat) :=
  if input.length < pos + 4 then fail "pagemap: truncated size prefix"
  else
    let size := toNat (slice input pos 4)
    let next := pos + 4 + size
    if input.length < next then fail "pagemap: truncated message body"
    else .ok (slice input (pos + 4) size, next)

/-- The loop over the messages; each takes four bytes at least. -/
def rewriteMessages (input : Bytes) (lazyRanges : List VmaRange) :
    Nat → Nat → Bool → RewriteResult → Except Thrown RewriteResult
  | 0, _, _, state => .ok state
  | turns + 1, pos, isFirst, state =>
    if pos < input.length then do
      let (msg, next) ← readPagemapMessage input pos
      let state ← appendRewrittenPagemapMessage state msg isFirst lazyRanges
      rewriteMessages input lazyRanges turns next false state
    else .ok state

def validatePagemapHeader (input : Bytes) : Except Thrown Unit :=
  if input.length < 8 then fail "pagemap: file too short for magic header"
  else if toNat (slice input 0 4) ≠ IMG_COMMON_MAGIC then
    fail ("pagemap: bad common magic 0x" ++ hex (toNat (slice input 0 4)))
  else if toNat (slice input 4 4) ≠ PAGEMAP_MAGIC then
    fail ("pagemap: bad pagemap magic 0x" ++ hex (toNat (slice input 4 4)))
  else .ok ()

def rewritePagemap (input : Bytes) (lazyRanges : List VmaRange) : Except Thrown RewriteResult := do
  validatePagemapHeader input
  rewriteMessages input lazyRanges input.length 8 true { out := input.take 8 }

end Machinen.Runtime.LazyPagemap
