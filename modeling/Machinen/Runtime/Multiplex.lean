import Machinen.Lib.Utf8

/-! The supervisor that drives many sandboxes from one terminal: what is typed is a command for itself
while none is attached, and goes to the attached sandbox otherwise. -/
namespace Machinen.Runtime.Multiplex

open Utf8

/-- What `trim` removes, and what `\s` stands for. -/
def isSpace (c : Char) : Bool :=
  let n := c.toNat
  (0x09 ≤ n && n ≤ 0x0D) || n == 0x20 || n == 0xA0 || n == 0x1680 || (0x2000 ≤ n && n ≤ 0x200A) ||
    n == 0x2028 || n == 0x2029 || n == 0x202F || n == 0x205F || n == 0x3000 || n == 0xFEFF

def trimStart (text : Text) : Text := text.dropWhile isSpace
def trimEnd (text : Text) : Text := (text.reverse.dropWhile isSpace).reverse
def trim (text : Text) : Text := trimEnd (trimStart text)

def consHead (c : Char) : List Text → List Text
  | [] => [[c]]
  | part :: parts => (c :: part) :: parts

/-- `split(/\r?\n/)`. -/
def splitLines : Text → List Text
  | [] => [[]]
  | '\r' :: '\n' :: text => [] :: splitLines text
  | c :: text => if c = '\n' then [] :: splitLines text else consHead c (splitLines text)

/-- `split(/\s+/)`, and whether a separator has begun. -/
def splitSpacesFrom : Bool → Text → List Text
  | _, [] => [[]]
  | gap, c :: text =>
    if isSpace c then
      if gap then splitSpacesFrom true text else [] :: splitSpacesFrom true text
    else consHead c (splitSpacesFrom false text)

def splitSpaces (text : Text) : List Text := splitSpacesFrom false text

structure Supervisor where
  sandboxes : List Text
  commandPrefix : Text

inductive Command where
  | ls
  | attach (id : Option Text)
  | help
  | quit
  deriving DecidableEq, Repr

structure SandboxError where
  code : String
  message : Text
  deriving DecidableEq

inductive Effect where
  | sent (id : Text) (data : Bytes)
  | attached (id : Text)
  | detached (id : Text)
  | executed (command : Command)
  | printed (message : Text)
  deriving DecidableEq

structure State where
  attachedId : Option Text := none
  lastGs : Bool := false
  stopped : Bool := false
  thrown : Option SandboxError := none
  log : List Effect := []
  deriving DecidableEq

def State.record (st : State) (effect : Effect) : State := { st with log := st.log ++ [effect] }

def State.print (st : State) (message : Text) : State := st.record (.printed message)

def detach (st : State) : State :=
  match st.attachedId with
  | none => st
  | some prev =>
    ({ st with attachedId := none, lastGs := false }.record (.detached prev)).print
      ("\n-- detached from ".toList ++ prev ++ " --\n".toList)

def stop (st : State) : State :=
  if st.stopped then st else detach { st with stopped := true }

namespace Supervisor

instance (sup : Supervisor) (id : Text) : Decidable (id ∈ sup.sandboxes) := inferInstance

def attach (sup : Supervisor) (st : State) (id : Text) : State :=
  if id ∈ sup.sandboxes then
    ({ detach st with attachedId := some id }.record (.attached id)).print
      ("\n-- attached to ".toList ++ id ++ " (Ctrl-] Ctrl-] to detach) --\n".toList)
  else { detach st with thrown := some ⟨"SANDBOX_ID_UNKNOWN", "unknown sandboxes id: ".toList ++ id⟩ }

def doLs (sup : Supervisor) (st : State) : State :=
  match sup.sandboxes with
  | [] => st.print "(no sandboxes registered)\n".toList
  | rows => rows.foldl (fun st id => st.print ("  ".toList ++ id ++ "\n".toList)) st

def bannerText (sup : Supervisor) : Text :=
  "machinen supervisor — commands start with '".toList ++ sup.commandPrefix ++ ("'\n" ++
    "  /ls           list sandboxes\n" ++
    "  /attach <id>  forward terminal to/from a sandbox (Ctrl-] Ctrl-] to detach)\n" ++
    "  /quit         stop the supervisor\n" ++
    "  /help         show this message\n").toList

/-- A line as `handleCommand` takes it apart. -/
inductive Line where
  | unknownInput
  | unknownCommand (cmd : Text)
  | command (command : Command)
  deriving DecidableEq

def readLine (commandPrefix raw : Text) : Line :=
  let line := trim raw
  if commandPrefix.isPrefixOf line then
    match splitSpaces (line.drop commandPrefix.length) with
    | [] => .unknownCommand []
    | cmd :: rest =>
      if cmd = "ls".toList then .command .ls
      else if cmd = "attach".toList then .command (.attach (rest.head?.filter (· ≠ [])))
      else if cmd = "help".toList then .command .help
      else if cmd = "quit".toList ∨ cmd = "exit".toList then .command .quit
      else .unknownCommand cmd
  else .unknownInput

def execute (sup : Supervisor) (st : State) : Command → State
  | .ls => sup.doLs st
  | .attach (some id) => sup.attach st id
  | .attach none => st.print "usage: /attach <id>\n".toList
  | .help => st.print sup.bannerText
  | .quit => stop st

def handleCommand (sup : Supervisor) (st : State) (raw : Text) : State :=
  match readLine sup.commandPrefix raw with
  | .unknownInput => st.print
      ("(unknown input; commands start with '".toList ++ sup.commandPrefix ++ "'. try /help)\n".toList)
  | .unknownCommand cmd => st.print ("unknown command: ".toList ++ cmd ++ "\n".toList)
  | .command command => sup.execute (st.record (.executed command)) command

def handleDetachedLine (sup : Supervisor) (st : State) (line : Text) : State :=
  if line = [] then st else sup.handleCommand st line

/-- The loop of `ingestDetached`, which an error leaves. -/
def handleDetachedLines (sup : Supervisor) : State → List Text → State
  | st, [] => st
  | st, line :: lines =>
    let st := sup.handleDetachedLine st line
    if st.thrown.isSome then st else sup.handleDetachedLines st lines

def ingestDetached (sup : Supervisor) (st : State) (chunk : Bytes) : State :=
  sup.handleDetachedLines st (splitLines (decode chunk))

end Supervisor

def ctrlRightBracket : UInt8 := 0x1d

/-- Whether this byte is the second of two, and the new `lastGs`. -/
def markCtrlRightBracket (lastGs isCtrlRightBracket : Bool) : Bool × Bool :=
  if !isCtrlRightBracket then (false, false)
  else if lastGs then (true, lastGs)
  else (false, true)

/-- Where the second of two is in the chunk, and the new `lastGs`. -/
def findDetachSequence : Bool → Bytes → Option Nat × Bool
  | lastGs, [] => (none, lastGs)
  | lastGs, b :: chunk =>
    let marked := markCtrlRightBracket lastGs (b == ctrlRightBracket)
    if marked.1 then (some 0, marked.2)
    else
      let found := findDetachSequence marked.2 chunk
      (found.1.map (· + 1), found.2)

/-- `subarray(0, end)`: an end below zero counts from the end of the chunk. -/
def subarrayTo (chunk : Bytes) (stop : Int) : Bytes :=
  chunk.take (if stop < 0 then chunk.length + stop else stop).toNat

namespace Supervisor

def sendAttached (sup : Supervisor) (st : State) (chunk : Bytes) : State :=
  match st.attachedId with
  | none => st
  | some id => if id ∈ sup.sandboxes then st.record (.sent id chunk) else st

def sendAttachedIfNonEmpty (sup : Supervisor) (st : State) (chunk : Bytes) : State :=
  if chunk = [] then st else sup.sendAttached st chunk

/-- Nothing is attached any more, so `ingest` is `ingestDetached`. -/
def ingestRemainderAfterDetach (sup : Supervisor) (st : State) (chunk : Bytes) (detachAt : Nat) :
    State :=
  let remainder := chunk.drop (detachAt + 1)
  if remainder = [] then st else sup.ingestDetached st remainder

def ingestAttached (sup : Supervisor) (st : State) (chunk : Bytes) : State :=
  let found := findDetachSequence st.lastGs chunk
  let st := { st with lastGs := found.2 }
  match found.1 with
  | none => sup.sendAttached st chunk
  | some detachAt =>
    let st := sup.sendAttachedIfNonEmpty st (subarrayTo chunk (detachAt - 1))
    sup.ingestRemainderAfterDetach (detach st) chunk detachAt

def ingest (sup : Supervisor) (st : State) (chunk : Bytes) : State :=
  if st.attachedId.isSome then sup.ingestAttached st chunk else sup.ingestDetached st chunk

/-- A chunk that arrives: not after `stop`, which removes the listener, nor after an error, which ends
the program. -/
def onData (sup : Supervisor) (st : State) (chunk : Bytes) : State :=
  if st.stopped || st.thrown.isSome then st else sup.ingest st chunk

def run (sup : Supervisor) (st : State) (chunks : List Bytes) : State := chunks.foldl sup.onData st

end Supervisor

end Machinen.Runtime.Multiplex
