import Machinen.Runtime.Multiplex

/-! The lines of the guest console that quiet mode holds back, and the partial ones that it lets out. -/
namespace Machinen.Console

open Runtime.Multiplex (isSpace trimStart trim)

def ESC : Char := Char.ofNat 27
def CR : Char := Char.ofNat 13
def newline : Char := '\n'

def isParameter (c : Char) : Bool := '0' ≤ c && c ≤ '?'
def isIntermediate (c : Char) : Bool := ' ' ≤ c && c ≤ '/'
def isFinal (c : Char) : Bool := '@' ≤ c && c ≤ '~'

def csiLength : Text → Option Nat
  | '[' :: text =>
    let rest := text.dropWhile isParameter
    match rest.dropWhile isIntermediate with
    | c :: _ => if isFinal c then
        some ((text.takeWhile isParameter).length + (rest.takeWhile isIntermediate).length + 2) else none
    | [] => none
  | _ => none

/-- `replace(CSI_RE, "")`, from where a number of characters belong to a match. -/
def stripCsiFrom : Nat → Text → Text
  | _, [] => []
  | skip + 1, _ :: text => stripCsiFrom skip text
  | 0, c :: text =>
    match if c = ESC then csiLength text else none with
    | some taken => stripCsiFrom taken text
    | none => c :: stripCsiFrom 0 text

def stripAnsiControl (text : Text) : Text := (stripCsiFrom 0 text).filter (· ≠ CR)

def isDigit (c : Char) : Bool := '0' ≤ c && c ≤ '9'

/-- `^\[\s*\d+\.\d+\]` -/
def kernelPrintk : Text → Bool
  | '[' :: text =>
    let whole := text.dropWhile isSpace
    match whole.dropWhile isDigit with
    | '.' :: fraction =>
      !(whole.takeWhile isDigit).isEmpty && !(fraction.takeWhile isDigit).isEmpty &&
        (fraction.dropWhile isDigit).head? == some ']'
    | _ => false
  | _ => false

/-- What stands behind the hypervisor's name in `^(?:hvf|kvm)(?: [^:]+)?:`. -/
def hypervisorTail : Text → Bool
  | ':' :: _ => true
  | ' ' :: c :: text => c != ':' && text.contains ':'
  | _ => false

def literalPrefixes : List Text :=
  ["=== machinen /init:".toList, "init:".toList, "checkpoint:".toList, "mountdisk:".toList,
    "machinen-restore:".toList, "machinen-supervisor:".toList, "supervisor:".toList, "machinen-dump:".toList,
    "machinen-netup:".toList, "topology:".toList, "vsock:".toList]

/-- `NOISE_PREFIXES` -/
def noisePrefix (visible : Text) : Bool :=
  kernelPrintk visible || literalPrefixes.any (fun literal => literal.isPrefixOf visible) ||
    ["hvf".toList, "kvm".toList].any fun name => name.isPrefixOf visible && hypervisorTail (visible.drop 3)

def isBootNoiseLine (line : Text) : Bool :=
  let visible := trimStart (stripAnsiControl line)
  if decide ("reboot: Power down".toList <:+: visible) then false else noisePrefix visible

def isBlank (line : Text) : Bool := (trim (stripAnsiControl line)).isEmpty

/-- `[^\n\r]*[#$] ?$` -/
def promptTail (text : Text) : Bool :=
  let sign := if text.getLast? = some ' ' then text.dropLast else text
  (sign.getLast?.any fun c => c == '#' || c == '$') && sign.dropLast.all fun c => c != '\n' && c != '\r'

/-- `^[^\s@]+@[^\s:]+:[^\n\r]*[#$] ?$` on what can be seen. -/
def isLikelyInteractivePrompt (text : Text) : Bool :=
  let visible := stripAnsiControl text
  let user := visible.takeWhile fun c => !isSpace c && c != '@'
  match visible.dropWhile fun c => !isSpace c && c != '@' with
  | '@' :: rest =>
    let host := rest.takeWhile fun c => !isSpace c && c != ':'
    match rest.dropWhile fun c => !isSpace c && c != ':' with
    | ':' :: tail => !user.isEmpty && !host.isEmpty && promptTail tail
    | _ => false
  | _ => false

example : isLikelyInteractivePrompt "init:a@b:$".toList ∧ isBootNoiseLine "init:a@b:$".toList := by decide

end Machinen.Console
