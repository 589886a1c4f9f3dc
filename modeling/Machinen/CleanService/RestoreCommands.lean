import Machinen.CleanService.Manifest
import Machinen.Lib.Shell

/-! What a restore makes of the manifest of a clean service: the component it selects, the commands it
runs in the guest, and the file of the host it reads. -/
namespace Machinen.CleanService

open Portable Shell

def numberText (n : Number) : Text :=
  let digits := Nat.toDigits 10 n.digits
  let point : Int := digits.length + n.exponent
  let unsigned :=
    if n.digits = 0 then ['0']
    else if 0 ≤ n.exponent ∧ point ≤ 21 then digits ++ List.replicate n.exponent.toNat '0'
    else if 0 < point ∧ point ≤ 21 then digits.take point.toNat ++ '.' :: digits.drop point.toNat
    else if -6 < point ∧ point ≤ 0 then "0.".toList ++ List.replicate (-point).toNat '0' ++ digits
    else
      let power := point - 1
      digits.take 1 ++ (if digits.length = 1 then [] else '.' :: digits.drop 1) ++
        (if power < 0 then "e-".toList else "e+".toList) ++ Nat.toDigits 10 power.natAbs
  if n.negative ∧ n.digits ≠ 0 then '-' :: unsigned else unsigned

mutual

/-- `String(value)`, when it does not throw: an object with a field of its own named `toString` has no text. -/
def jsonText : Json → Option Text
  | .null => some "null".toList
  | .bool b => some (if b then "true".toList else "false".toList)
  | .number n => some (numberText n)
  | .string s => some s.toList
  | .array items => itemsText items
  | .object fields => if (fields.lookup "toString").isSome then none else some "[object Object]".toList

/-- The elements of an array joined by commas, nothing standing for `null`. -/
def itemsText : List Json → Option Text
  | [] => some []
  | item :: items => do
    let front ← match item with
      | .null => some []
      | item => jsonText item
    let back ← itemsText items
    some (if items.isEmpty then front else front ++ ',' :: back)

end

def unknownText : Unknown → Option Text
  | none => some "undefined".toList
  | some value => jsonText value

/-- `value.name`, when it does not throw. -/
def property (value : Unknown) (name : String) : Option Unknown :=
  match value with
  | none | some .null => none
  | some value => some (value.get name)

/-- `value ?? other`. -/
def orElse (value other : Unknown) : Unknown :=
  match value with
  | none | some .null => other
  | value => value

def isSupportedCleanServiceComponent (component : Json) : Bool :=
  let has (runtime subset : String) : Bool :=
    (component.get "runtime").any (Json.string runtime).same &&
      (component.get "subset").any (Json.string subset).same
  has "node" "node-http-clean-root-v1" || has "python" "python-http-clean-root-v1" ||
    has "go" "go-http-clean-root-v1"

structure Refusal where
  code : String
  message : String
  deriving DecidableEq

def selectRestorableCleanServiceComponent (manifest : Json) : Except Refusal Json :=
  match ((manifest.get "components").map Json.elements |>.getD []).filter isSupportedCleanServiceComponent with
  | [component] => .ok component
  | [] => .error ⟨"clean-service-required-component-unsupported",
      "clean-service manifest has no supported restorable service component"⟩
  | _ => .error ⟨"clean-service-process-group-unsupported",
      "clean-service restore currently requires exactly one supported service component; explicit process groups are not implemented yet"⟩

/-- `shellQuote` of the command line. -/
def shellQuote (value : Text) : Text := quoteWith ['\'', '\\', '\'', '\''] value

def shellQuoteForGuest (value : Text) : Text := quoteWith ['\'', '"', '\'', '"', '\''] value

def separated (values : List Text) : Text := [' '].intercalate values

def runtimePackages (runtime : String) : Option (List String) :=
  if runtime = "node" then some ["nodejs", "curl", "ca-certificates"]
  else if runtime = "python" then
    some ["python3.11", "python3.11-minimal", "libpython3.11-minimal", "libpython3.11-stdlib", "media-types", "curl",
      "ca-certificates"]
  else none

def packagesJson (packages : List String) : Json := .array (packages.map .string)

def runtimeRemediation (runtime : String) : String :=
  if runtime = "node" then
    "Install a target Node runtime with the same major.minor release as the source, or recapture with a supported target runtime policy."
  else if runtime = "python" then
    "Install Python with the same major.minor release as the source, or provide a bundled runtime layer with digest and provenance."
  else
    "Go clean-service restore only supports a statically linked application binary captured from the app root; rebuild with CGO_ENABLED=0 if refused."

def runtimePolicyFor (runtime : String) : Json :=
  .object ([("compatibility", .string
      (if (runtimePackages runtime).isSome then "exact-major-minor-patch-compatible" else "none-static-binary"))] ++
    (match runtimePackages runtime with
    | some packages => [("packageSet", .object [("packages", packagesJson packages)])]
    | none => []) ++ [("remediation", .string (runtimeRemediation runtime))])

def runtimePolicyForComponent (component : Json) (runtime : String) : Unknown :=
  orElse (component.get "runtimePolicy") (some (runtimePolicyFor runtime))

/-- `policy.packageSet?.packages ?? …`, each of them a string: with anything else a call throws. -/
def packagesOf (component : Json) (runtime : String) : Option (List Text) := do
  let packageSet ← property (runtimePolicyForComponent component runtime) "packageSet"
  let packages := orElse (packageSet.bind fun set => set.get "packages")
    (some (packagesJson ((runtimePackages runtime).getD [])))
  match packages with
  | some (.array items) => (items.mapM Json.string?).map (·.map String.toList)
  | _ => none

def installFront (program : String) : Text :=
  ("export DEBIAN_FRONTEND=noninteractive; if ! command -v " ++ program ++
    " >/dev/null 2>&1 || ! command -v curl >/dev/null 2>&1; then apt-get update && apt-get install -y --no-install-recommends ").toList

def installNodeBack : Text := "; fi".toList

def installPythonBack : Text :=
  ("; fi; " ++
    "if ! command -v python3 >/dev/null 2>&1 && command -v python3.11 >/dev/null 2>&1; then ln -sf /usr/bin/python3.11 /usr/bin/python3; fi").toList

def installGo : Text :=
  "if ! command -v curl >/dev/null 2>&1; then apt-get update && apt-get install -y --no-install-recommends curl ca-certificates; fi".toList

def runtimeOf (component : Json) : Option String := stringOf (component.get "runtime")

/-- The first command of `prepareCleanServiceRuntime`; the others ask for a version and are fixed. -/
def prepareCleanServiceRuntime (component : Json) : Option Text :=
  match runtimeOf component with
  | some "node" => (packagesOf component "node").map fun packages =>
      installFront "node" ++ separated (packages.map shellQuoteForGuest) ++ installNodeBack
  | some "python" => (packagesOf component "python").map fun packages =>
      installFront "python3" ++ separated (packages.map shellQuoteForGuest) ++ installPythonBack
  | some "go" => some installGo
  | _ => none

/-- `(?:$|[0-9.-])` -/
def endsName (rest : Text) : Bool := rest.head?.all fun c => c.isDigit || c == '.' || c == '-'

def nameStarts (arg : Text) : List Text := arg :: (arg.tails.filterMap fun tail =>
  match tail with
  | '/' :: rest => some rest
  | _ => none)

def behind (name arg : Text) : Option Text := if name.isPrefixOf arg then some (arg.drop name.length) else none

def runtimeArgPattern (runtime : String) (arg : Text) : Bool :=
  if runtime = "python" then
    (nameStarts arg).any fun start => (behind "python".toList start).any fun rest =>
      (rest.head? == some '3' && endsName (rest.drop 1)) || endsName rest
  else if runtime = "go" then arg.isEmpty
  else (nameStarts arg).any fun start => (behind "node".toList start).any endsName

def argvOf (component : Json) : List Text :=
  (((component.get "argv").map Json.elements).getD []).filterMap fun arg => arg.string?.map String.toList

/-- `argv[0]?.split("/").pop()` -/
def lastSegment : List Text → Text
  | [] => "undefined".toList
  | arg :: _ => ((arg.splitOn '/').getLast?).getD []

def executableRelativePath (component : Json) : Option Text := do
  let path ← property (component.get "provenance") "executableRelativePath"
  match stringOf path with
  | some path => some path.toList
  | none => some (lastSegment (argvOf component))

def goFront : Text := "cd /opt/machinen-clean-service-app && chmod +x ".toList
def goMiddle : Text := " && nohup ".toList
def startFront (runtime : String) : Text := ("cd /opt/machinen-clean-service-app && nohup " ++ runtime ++ " ").toList
def startBack : Text := " >/tmp/machinen-clean-service.log 2>&1 &".toList

def runtimeArgs (runtime : String) (argv : List Text) : List Text :=
  argv.drop (((argv.findIdx? (runtimeArgPattern runtime)).getD 0) + 1)

def startCleanServiceCommand (quote : Text → Text) (component : Json) : Option Text :=
  match runtimeOf component with
  | some "go" => (executableRelativePath component).map fun path =>
      let program := quote ("./".toList ++ path)
      goFront ++ program ++ goMiddle ++ program ++ ' ' ::
        separated (((argvOf component).drop 1).map quote) ++ startBack
  | some "python" => some
      (startFront "python3" ++ separated ((runtimeArgs "python" (argvOf component)).map quote) ++ startBack)
  | some runtime => some
      (startFront "node" ++ separated ((runtimeArgs runtime (argvOf component)).map quote) ++ startBack)
  | none => none

def verifierSha256 (component : Json) : Text :=
    ((stringOf (fieldOf (component.get "verifier") "sha256")).getD "").toList

def verifyFront : Text :=
  "for i in $(seq 1 80); do got=$(curl -fsS http://127.0.0.1:".toList
def verifyMiddle : Text :=
  "/ 2>/dev/null | sha256sum | awk '{print $1}') && test \"$got\" = ".toList
def verifyBack : Text :=
  " && exit 0; sleep 0.25; done; cat /tmp/machinen-clean-service.log 2>/dev/null; exit 1".toList

def verifyText (quote : Text → Text) (port sha256 : Text) : Text :=
  verifyFront ++ port ++ verifyMiddle ++ quote sha256 ++ verifyBack

def verifyCleanServiceCommand (quote : Text → Text) (component : Json) : Option Text :=
  (unknownText (component.get "guestPort")).map fun port => verifyText quote port (verifierSha256 component)

def resolveName (names : List Text) (part : Text) : List Text :=
  if part = [] ∨ part = ".".toList then names
  else if part = "..".toList then names.dropLast
  else names ++ [part]

/-- `join(dir, path)`. -/
def join (dir : List Text) (path : Text) : List Text := (path.splitOn '/').foldl resolveName dir

def artifactPath (component : Json) : Text := ((stringOf (fieldOf (component.get "artifact") "path")).getD "").toList

end Machinen.CleanService
