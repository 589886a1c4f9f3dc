import Machinen.Lib.Decimal
import Machinen.Exec.RunCommand

/-! The wire between the host and the guest's exec agent: the frames of the agent and the two
parsers of the host, the requests of the host and the parsers of the agent. -/
namespace Machinen.Exec.Wire

def newline : UInt8 := 0x0a
def space : UInt8 := 0x20

def tagByte : Stream → UInt8
  | .out => 0x4f
  | .err => 0x45

def sendFrame (stream : Stream) (payload : Bytes) : Bytes :=
  [tagByte stream, space] ++ Decimal.encode payload.length ++ [newline] ++ payload

def sendExit (code : Nat) : Bytes := [0x58, space] ++ Decimal.encode code ++ [newline]

/-- What the agent sends for some chunks of output and an exit status. -/
def framed (chunks : List (Stream × Bytes)) (code : Nat) : Bytes :=
  chunks.flatMap (fun chunk => sendFrame chunk.1 chunk.2) ++ sendExit code

/-- The status of an exit frame; none is not a number. -/
inductive Header where
  | exit (code : Option Int)
  | payload (stream : Stream) (length : Nat)
deriving DecidableEq, Repr

inductive ExecError where
  | unknownTag (tag : Bytes)
  | badLength (text : Option Bytes)
deriving DecidableEq, Repr

structure Parser where
  buf : Bytes := []
  awaitingBytes : Nat := 0
  payloadTag : Option Stream := none
  delivered : Stream → Bytes := fun _ => []
  exitCode : Option (Option Int) := none

def fields (line : Bytes) : Bytes × Option Bytes :=
  (line.takeWhile (· ≠ space),
    match line.dropWhile (· ≠ space) with
    | [] => none
    | _ :: rest => some (rest.takeWhile (· ≠ space)))

def parseFrameLength (stream : Stream) (text : Option Bytes) : Except ExecError Header :=
  match Decimal.leading (text.getD []) with
  | some length => if length < 0 then .error (.badLength text) else .ok (.payload stream length.toNat)
  | none => .error (.badLength text)

/-- `toString("ascii")` drops the high bit of each byte. -/
def ascii (line : Bytes) : Bytes := line.map (· &&& 0x7f)

def parseHeaderLine (tags : List Stream) (line : Bytes) : Except ExecError Header :=
  let (tag, text) := fields (ascii line)
  if tag = [0x58] then .ok (.exit (Decimal.leading (text.getD [0x30])))
  else match tags.find? fun stream => tag = [tagByte stream] with
    | some stream => parseFrameLength stream text
    | none => .error (.unknownTag tag)

def parseExecHeaderLine : Bytes → Except ExecError Header := parseHeaderLine [.out, .err]

def parsePtyHeaderLine : Bytes → Except ExecError Header := parseHeaderLine [.out]

namespace Parser

def consumePayload (p : Parser) : Parser :=
  let take := min p.awaitingBytes p.buf.length
  { p with
    buf := p.buf.drop take
    awaitingBytes := p.awaitingBytes - take
    payloadTag := if p.awaitingBytes - take = 0 then none else p.payloadTag
    delivered := match p.payloadTag with
      | some stream => Function.update p.delivered stream (p.delivered stream ++ p.buf.take take)
      | none => p.delivered }

def readHeader (p : Parser) : Option (Bytes × Parser) :=
  match p.buf.dropWhile (· ≠ newline) with
  | [] => none
  | _ :: rest => some (p.buf.takeWhile (· ≠ newline), { p with buf := rest })

/-- The loop of a parser; every turn but the last takes something from the buffer. -/
def step (header : Bytes → Except ExecError Header) : Nat → Parser → Except ExecError Parser
  | 0, p => .ok p
  | fuel + 1, p =>
    if p.awaitingBytes > 0 then
      if p.buf = [] then .ok p else step header fuel p.consumePayload
    else match p.readHeader with
      | none => .ok p
      | some (line, p) =>
        match header line with
        | .error e => .error e
        | .ok (.exit code) => .ok { p with exitCode := some code }
        | .ok (.payload stream length) =>
          step header fuel { p with awaitingBytes := length, payloadTag := some stream }

def ingest (header : Bytes → Except ExecError Header) (p : Parser) (data : Bytes) :
    Except ExecError Parser :=
  step header (p.buf.length + data.length + 1) { p with buf := p.buf ++ data }

end Parser

def stepExecParser (events : List Bytes) : Except ExecError Parser :=
  events.foldlM (Parser.ingest parseExecHeaderLine) {}

/-- The same of a PTY connection, on which only output is expected. -/
def ingestPtyOutput (events : List Bytes) : Except ExecError Parser :=
  events.foldlM (Parser.ingest parsePtyHeaderLine) {}

inductive HostRequest where
  | run (cmd : Bytes)
  | reseed (seedHex : Bytes)
  | startPty (cols rows : Nat) (cmd : Bytes) (sessionName : Option Bytes)
  | killPtySession (name : Bytes)
deriving DecidableEq, Repr

inductive HostFrame where
  | stdin (chunk : Bytes)
  | resize (cols rows : Nat)
deriving DecidableEq, Repr

def text (ascii : String) : Bytes := ascii.toList.map fun c => UInt8.ofNat c.toNat

def legacyMaxBytes : Nat := 3500

def isNameByte (byte : UInt8) : Bool :=
  (0x41 ≤ byte && byte ≤ 0x5a) || (0x61 ≤ byte && byte ≤ 0x7a) || (0x30 ≤ byte && byte ≤ 0x39) ||
    byte == 0x5f || byte == 0x2e || byte == 0x2d

def validatePtySessionName (name : Bytes) : Bool :=
  1 ≤ name.length && name.length ≤ 64 && name.all isNameByte

/-- The bytes of a request; no result is a name that the host refuses. -/
def HostRequest.write : HostRequest → Option Bytes
  | .run cmd =>
    if cmd.any (fun byte => byte == 0x0d || byte == 0x0a) || legacyMaxBytes < cmd.length then
      some (text "EXEC2 " ++ Decimal.encode cmd.length ++ [newline] ++ cmd)
    else some (text "EXEC " ++ cmd ++ [newline])
  | .reseed seedHex => some (text "RESEED " ++ Decimal.encode seedHex.length ++ [newline] ++ seedHex)
  | .startPty cols rows cmd none => some
      (text "PTY " ++ Decimal.encode cols ++ [space] ++ Decimal.encode rows ++ [space] ++
      Decimal.encode cmd.length ++ [newline] ++ cmd)
  | .startPty cols rows cmd (some name) =>
    if validatePtySessionName name then
      some (text "PTYSESSION " ++ Decimal.encode cols ++ [space] ++ Decimal.encode rows ++ [space] ++
        Decimal.encode name.length ++ [space] ++ Decimal.encode cmd.length ++ [newline] ++ name ++ cmd)
    else none
  | .killPtySession name =>
    if validatePtySessionName name then
      some (text "PTYKILL " ++ Decimal.encode name.length ++ [newline] ++ name)
    else none

def HostFrame.write : HostFrame → Bytes
  | .stdin chunk => if chunk = [] then [] else text "I " ++ Decimal.encode chunk.length ++ [newline] ++ chunk
  | .resize cols rows => text "R " ++ Decimal.encode cols ++ [space] ++ Decimal.encode rows ++ [newline]

def maxExec2Cmd : Nat := 1024 * 1024
def maxReseedHex : Nat := 128
def maxPtyInput : Nat := 64 * 1024
def maxSessionName : Nat := 64
def maxU16 : Nat := 2 ^ 16 - 1
def maxU32 : Nat := 2 ^ 32 - 1
def maxUsize : Nat := 2 ^ 64 - 1

/-- A line of fewer bytes than the buffer has room for, and what follows it. -/
def readLine : Nat → Bytes → Option (Bytes × Bytes)
  | 0, _ => none
  | _, [] => none
  | room + 1, byte :: rest =>
    if byte = newline then some ([], rest)
    else (readLine room rest).map fun (line, rest) => (byte :: line, rest)

def readExact (count : Nat) (stream : Bytes) : Option (Bytes × Bytes) :=
  if count ≤ stream.length then some (stream.take count, stream.drop count) else none

/-- The tokens between spaces; the first argument is the token so far. -/
def tokenize : Bytes → Bytes → List Bytes
  | token, [] => if token = [] then [] else [token]
  | token, byte :: rest =>
    if byte = space then (if token = [] then tokenize [] rest else token :: tokenize [] rest)
    else tokenize (token ++ [byte]) rest

inductive Request where
  | list
  | kill (name : Bytes)
  | session (cols rows : Nat) (name cmd : Bytes)
  | pty (cols rows : Nat) (cmd : Bytes)
  | sync
  | reseed (seedHex : Bytes)
  | command (cmd : Bytes)
deriving DecidableEq, Repr

/-- A request and the bytes behind it, or a refusal with the exit status that is sent. -/
inductive Parsed where
  | request (request : Request) (rest : Bytes)
  | refused (exit : Option Nat)
deriving DecidableEq, Repr

def bodyOf (refusal : Option Nat) (limit : Nat) (body : Option Nat) (stream : Bytes)
    (use : Bytes → Bytes → Parsed) : Parsed :=
  match body with
  | none => .refused refusal
  | some length =>
    if limit < length then .refused refusal
    else match readExact length stream with
      | none => .refused refusal
      | some (bytes, rest) => use bytes rest

def handlePtykill (line stream : Bytes) : Parsed :=
  bodyOf (some 1) maxSessionName (Decimal.unsigned maxU32 (line.drop 8)) stream fun name rest =>
    .request (.kill name) rest

def validSessionName (name : Bytes) : Bool :=
  !(name.length == 0 || maxSessionName < name.length) && name.all fun ch =>
    (0x41 ≤ ch && ch ≤ 0x5a) || (0x61 ≤ ch && ch ≤ 0x7a) || (0x30 ≤ ch && ch ≤ 0x39) ||
      ch == 0x2e || ch == 0x5f || ch == 0x2d

structure PtySessionHeader where
  cols : Nat
  rows : Nat
  nameLen : Nat
  cmdLen : Nat
deriving DecidableEq, Repr

def parsePtysessionHeader (line : Bytes) : Option PtySessionHeader :=
  match tokenize [] (line.drop 11) with
  | colsText :: rowsText :: nameLenText :: cmdLenText :: _ => do
    let cols ← Decimal.unsigned maxU16 colsText
    let rows ← Decimal.unsigned maxU16 rowsText
    let nameLen ← Decimal.unsigned maxU32 nameLenText
    let cmdLen ← Decimal.unsigned maxU32 cmdLenText
    if nameLen > maxSessionName ∨ cmdLen > maxExec2Cmd then none
    else some { cols, rows, nameLen, cmdLen }
  | _ => none

def handlePtysession (line stream : Bytes) : Parsed :=
  match parsePtysessionHeader line with
  | none => .refused (some 1)
  | some h =>
    match readExact h.nameLen stream with
    | none => .refused (some 1)
    | some (name, stream) =>
      match readExact h.cmdLen stream with
      | none => .refused (some 1)
      | some (cmd, rest) =>
        if validSessionName name then .request (.session h.cols h.rows name cmd) rest else .refused (some 1)

structure PtyHeader where
  cols : Nat
  rows : Nat
  cmdLen : Nat
deriving DecidableEq, Repr

def parsePtyHeader (line : Bytes) : Option PtyHeader :=
  match tokenize [] (line.drop 4) with
  | colsText :: rowsText :: cmdLenText :: _ => do
    let cols ← Decimal.unsigned maxU16 colsText
    let rows ← Decimal.unsigned maxU16 rowsText
    let cmdLen ← Decimal.unsigned maxU32 cmdLenText
    if cmdLen > maxExec2Cmd then none else some { cols, rows, cmdLen }
  | _ => none

def handlePty (line stream : Bytes) : Parsed :=
  match parsePtyHeader line with
  | none => .refused none
  | some h =>
    match readExact h.cmdLen stream with
    | none => .refused none
    | some (cmd, rest) => .request (.pty h.cols h.rows cmd) rest

def handleReseed (line stream : Bytes) : Parsed :=
  match Decimal.unsigned maxU32 (line.drop 7) with
  | some 0 => .refused (some 2)
  | length => bodyOf (some 2) maxReseedHex length stream fun seedHex rest => .request (.reseed seedHex) rest

def handleExec2 (line stream : Bytes) : Parsed :=
  bodyOf none maxExec2Cmd (Decimal.unsigned maxU32 (line.drop 6)) stream fun cmd rest =>
    .request (.command cmd) rest

def lineBuffer : Nat := 4096

def dispatch (line rest : Bytes) : Parsed :=
  if line = text "PTYLIST" then .request .list rest
  else if text "PTYKILL " <+: line then handlePtykill line rest
  else if text "PTYSESSION " <+: line then handlePtysession line rest
  else if text "PTY " <+: line then handlePty line rest
  else if line = text "SYNC" then .request .sync rest
  else if text "RESEED " <+: line then handleReseed line rest
  else if text "EXEC2 " <+: line then handleExec2 line rest
  else if line.length < 5 ∨ ¬ text "EXEC " <+: line then .refused none
  else .request (.command (line.drop 5)) rest

def handleConnection (stream : Bytes) : Parsed :=
  match readLine lineBuffer stream with
  | none => .refused none
  | some (line, rest) => dispatch line rest

/-- An argument of a program: a string that ends at its first NUL. -/
def argument (bytes : Bytes) : Bytes := bytes.takeWhile (· ≠ 0)

/-- What the shell, or the helper that reseeds, gets of a request. -/
def Request.argument : Request → Option Bytes
  | .command cmd => some (Wire.argument cmd)
  | .pty _ _ cmd => some (Wire.argument cmd)
  | .session _ _ _ cmd => some (Wire.argument cmd)
  | .reseed seedHex => some (Wire.argument seedHex)
  | _ => none

inductive Input where
  | bytes (chunk : Bytes)
  | resize (cols rows : Nat)
  | ignored
deriving DecidableEq, Repr

def frameBuffer : Nat := 256

def resizeOf (body : Bytes) : Option Input :=
  match tokenize [] body with
  | colsText :: rowsText :: _ =>
    match Decimal.unsigned maxU16 colsText, Decimal.unsigned maxU16 rowsText with
    | some cols, some rows => some (.resize cols rows)
    | _, _ => some .ignored
  | _ => none

/-- One frame; no result ends the session of the client. -/
def inputFrame (lengthLimit : Nat) (stream : Bytes) : Option (Input × Bytes) := do
  let (line, rest) ← readLine frameBuffer stream
  if text "I " <+: line then
    let length ← Decimal.unsigned lengthLimit (line.drop 2)
    if length > maxPtyInput then none
    else (readExact length rest).map fun (chunk, rest) => (.bytes chunk, rest)
  else if text "R " <+: line then (resizeOf (line.drop 2)).map fun input => (input, rest)
  else none

def ptyFrame : Bytes → Option (Input × Bytes) := inputFrame maxUsize

def brokerFrame : Bytes → Option (Input × Bytes) := inputFrame maxU32

def inputFrames (frame : Bytes → Option (Input × Bytes)) : Nat → Bytes → Option (List Input)
  | 0, _ => some []
  | _ + 1, [] => some []
  | fuel + 1, stream => do
    let (input, rest) ← frame stream
    let more ← inputFrames frame fuel rest
    some (input :: more)

end Machinen.Exec.Wire
