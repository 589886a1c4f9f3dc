import Machinen.CleanService.RestoreCommands
import Machinen.CleanService.ProcScanner
import Machinen.Lib.Program
import Machinen.Lib.Run

/-! A restore of a clean service, from its manifest to its exit code. Every call to the guest may throw,
and whatever happens then happens on the way out. -/
namespace Machinen.CleanService

open Portable Prog
open Runtime.Multiplex (isSpace trim)

structure ExecResult where
  exitCode : Int
  stdout : Text
  stderr : Text
  deriving DecidableEq

inductive Call where
  | exec (command : Text)
  | writeFile (path : String) (contents : Bytes)
  deriving DecidableEq

inductive RestoreEvent where
  | readArtifact (file : List Text)
  | booted
  | called (call : Call) (answer : Option ExecResult)
  | summarized (refusal : Option Refusal)
  | detached
  deriving DecidableEq

structure Host where
  snapDir : List Text
  guestCpu : String
  shellQuote : Text → Text
  file : List Text → Option Bytes
  sha256 : Bytes → String
  boots : Bool
  detaches : Bool
  writesSummary : Bool

/-- The answers to the calls that are still to come, none where a call throws, and what has happened. -/
structure World where
  answers : List (Option ExecResult)
  events : List RestoreEvent := []

inductive Thrown where
  | thrown
  deriving DecidableEq

abbrev Restore (A : Type) := Prog World Thrown A

def World.tell (w : World) (event : RestoreEvent) : World := { w with events := w.events ++ [event] }

def tell (event : RestoreEvent) : Restore PUnit := change fun w => w.tell event

def call (c : Call) : Restore ExecResult := fun w =>
  let next := { w with answers := w.answers.tail }.tell (.called c w.answers.head?.join)
  match w.answers.head?.join with
  | some answer => (.ok answer, next)
  | none => (.error .thrown, next)

def execRaw (command : Text) : Restore ExecResult := call (.exec command)

/-- A call that throws when the command fails. -/
def exec (command : Text) : Restore PUnit := do
  let answer ← execRaw command
  ensure (answer.exitCode = 0) .thrown

def writeFile (path : String) (contents : Bytes) : Restore PUnit := do
  let _ ← call (.writeFile path contents)
  pure ⟨⟩

def majorMinor (text : Text) : Option (Nat × Nat) :=
  let major := text.takeWhile Char.isDigit
  match text.dropWhile Char.isDigit with
  | '.' :: rest =>
    let minor := rest.takeWhile Char.isDigit
    match rest.dropWhile Char.isDigit with
    | '.' :: patch :: _ =>
      if major ≠ [] ∧ minor ≠ [] ∧ patch.isDigit = true then
        some (digitsValue 10 major, digitsValue 10 minor)
      else none
    | _ => none
  | _ => none

/-- The first place where a version may begin and one stands. -/
def parseMajorMinor (version : Text) : Option (Nat × Nat) :=
  (version :: version.tails.filterMap fun tail => match tail with
    | c :: rest => if isSpace c || c == 'v' then some rest else none
    | [] => none).findSome? majorMinor

def versionsArePatchCompatible (sourceVersion targetVersion : Text) : Bool :=
  match parseMajorMinor sourceVersion, parseMajorMinor targetVersion with
  | some source, some target => source == target
  | _, _ => false

/-- `components.map((component) => component.name).join(",")`, when it does not throw. -/
def joined (manifest : Json) (name : String) : Option Text := do
  let components ← property (some manifest) "components"
  match components with
  | some (.array items) =>
    let values ← items.mapM fun item => property (some item) name
    itemsText (values.map (·.getD .null))
  | _ => none

/-- The summary is made of the manifest, and written beside it. -/
def summarize (host : Host) (manifest : Json) (refusal : Option Refusal) : Restore PUnit := do
  let _ ← need (joined manifest "runtime") .thrown
  let _ ← need (joined manifest "subset") .thrown
  ensure (host.writesSummary = true) .thrown
  tell (.summarized refusal)

def reportCleanServiceRestoreRefusal (host : Host) (manifest : Json) (refusal : Refusal) : Restore Int := do
  summarize host manifest (some refusal)
  pure 1

structure Interpreter where
  runtime : String
  versionCommand : Text
  name : String

def nodeInterpreter : Interpreter := ⟨"node", "node --version".toList, "Node"⟩
def pythonInterpreter : Interpreter :=
    ⟨"python", "(python3 --version || python3.11 --version) 2>&1".toList, "Python"⟩

def unavailable (interpreter : Interpreter) (remediation : Text) : Refusal :=
  ⟨"clean-service-runtime-unavailable",
    "target " ++ interpreter.name ++ " runtime is unavailable; " ++ String.ofList remediation⟩

def mismatch (interpreter : Interpreter) (source target compatibility remediation : Text) : Refusal :=
  ⟨"clean-service-runtime-policy-mismatch",
    "source " ++ interpreter.name ++ " " ++ String.ofList source ++ " is not compatible with target " ++
    interpreter.name ++
      " " ++ (if target = [] then "unavailable" else String.ofList target) ++ "; policy=" ++
      String.ofList compatibility ++
      "; " ++ String.ofList remediation⟩

def policyText (component : Json) (runtime name : String) : Option Text := do
  let value ← property (runtimePolicyForComponent component runtime) name
  unknownText value

def prepareInterpreter (component : Json) (interpreter : Interpreter) : Restore (Option Refusal) := do
  let command ← need (prepareCleanServiceRuntime component) .thrown
  exec command
  let target ← execRaw interpreter.versionCommand
  if target.exitCode ≠ 0 then
    let remediation ← need (policyText component interpreter.runtime "remediation") .thrown
    pure (some (unavailable interpreter remediation))
  else
    let source ← need (unknownText (component.get "runtimeVersion")) .thrown
    if versionsArePatchCompatible source (trim target.stdout) then pure none
    else
      let compatibility ← need (policyText component interpreter.runtime "compatibility") .thrown
      let remediation ← need (policyText component interpreter.runtime "remediation") .thrown
      pure (some (mismatch interpreter source (trim target.stdout) compatibility remediation))

/-- What a restore has against the runtime of the guest, once it has seen to it. -/
def prepareRuntime (component : Json) : Restore (Option Refusal) :=
  if runtimeOf component = some "node" then prepareInterpreter component nodeInterpreter
  else if runtimeOf component = some "python" then prepareInterpreter component pythonInterpreter
  else if runtimeOf component = some "go" then do
    exec installGo
    pure none
  else do
    let runtime ← need (unknownText (component.get "runtime")) .thrown
    pure (some ⟨"clean-service-runtime-unavailable", "unsupported clean-service runtime: " ++ String.ofList runtime⟩)

def archivePath : String := "/tmp/machinen-clean-service-app.tar.gz"

def unpack : Text :=
  "rm -rf /opt/machinen-clean-service-app && mkdir -p /opt/machinen-clean-service-app && tar -xzf /tmp/machinen-clean-service-app.tar.gz -C /opt/machinen-clean-service-app".toList

def verifierMessage (verify : ExecResult) : String :=
  if verify.stderr ≠ [] then String.ofList verify.stderr
  else if verify.stdout ≠ [] then String.ofList verify.stdout
  else "target verifier failed"

def restoreInGuest (host : Host) (manifest component : Json) (artifact : Bytes) : Restore Int := do
  match ← prepareRuntime component with
  | some refusal => reportCleanServiceRestoreRefusal host manifest refusal
  | none =>
    writeFile archivePath artifact
    exec unpack
    let start ← need (startCleanServiceCommand host.shellQuote component) .thrown
    exec start
    let command ← need (verifyCleanServiceCommand host.shellQuote component) .thrown
    let verify ← execRaw command
    if verify.exitCode ≠ 0 then
      reportCleanServiceRestoreRefusal host manifest ⟨"clean-service-verifier-mismatch", verifierMessage verify⟩
    else
      summarize host manifest none
      pure 0

def detach (host : Host) : Restore PUnit := do
  tell .detached
  ensure (host.detaches = true) .thrown

def artifactSha256 (component : Json) : Unknown := fieldOf (component.get "artifact") "sha256"

def cmdRestoreCleanService (host : Host) (manifest : Json) : Restore Int :=
  let schemaErrors := validateCleanServiceManifest manifest
  if schemaErrors ≠ [] then
    reportCleanServiceRestoreRefusal host manifest
      ⟨"clean-service-manifest-schema-invalid", "; ".intercalate schemaErrors⟩
  else match selectRestorableCleanServiceComponent manifest with
  | .error refusal => reportCleanServiceRestoreRefusal host manifest refusal
  | .ok component =>
    if (manifest.get "sourceArch").any (Json.string host.guestCpu).same then
      reportCleanServiceRestoreRefusal host manifest ⟨"clean-service-target-architecture-mismatch",
        "portable clean-service restore requires a destination architecture different from the source architecture; use vmstate restore for same-architecture bundles"⟩
    else do
      let file := join host.snapDir (artifactPath component)
      tell (.readArtifact file)
      let artifact ← need (host.file file) .thrown
      if stringOf (artifactSha256 component) ≠ some (host.sha256 artifact) then
        reportCleanServiceRestoreRefusal host manifest ⟨"clean-service-artifact-digest-mismatch",
          "clean-service artifact digest does not match the manifest"⟩
      else
        ensure (host.boots = true) .thrown
        tell .booted
        lastly (restoreInGuest host manifest component artifact) (detach host)

end Machinen.CleanService
