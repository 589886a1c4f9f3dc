import Machinen.Portable.Documents

/-! The manifest of a clean service: its published schema, its hand-written checks, and the component
that a restore selects. -/
namespace Machinen.CleanService

open Schema Portable

/-- `^[a-f0-9]{64}$` -/
def sha256Pattern (s : String) : Bool :=
  decide (s.toList.length = 64) && s.toList.all fun c => ('a' ≤ c && c ≤ 'f') || isDigit c

def requiredManifestFields : List String :=
  ["kind", "formatVersion", "sourceArch", "snapshotEngine", "routePolicy", "components", "security"]

def requiredComponentFields : List String :=
  ["id", "runtime", "subset", "sourceCwd", "argv", "runtimeVersion", "guestPort", "verifier", "artifact",
    "provenance", "refusals"]

def securityConstants : List String :=
  ["sourceIsaEmulationUsed", "sourceTextReplayAcceptedAsRestore", "sidecarRuntimeUsed", "appHooksRequired",
    "metadataOnlyContinuation"]

def sha256Schema : Schema := matching sha256Pattern

def observableStateDecisionSchema : Schema := object ["name", "decision", "rationale"]
  [("name", nonEmpty), ("decision", oneOf ["preserved", "recreated", "drained", "dropped-irrelevant",
      "logically-restored", "refused"]), ("rationale", nonEmpty)] any

def runtimePolicySchema : Schema := object ["compatibility", "provisioning", "remediation"]
  [("compatibility", oneOf ["exact-major-minor-patch-compatible", "none-static-binary"]),
    ("provisioning", oneOf ["runtime-preinstalled", "distro-package-set", "bundled-runtime-layer"]),
    ("packageSet", object [] [] any), ("bundledLayer", object [] [] any), ("remediation", text)] any

def verifierSchema : Schema := object ["kind", "path", "sha256", "bytes"]
  [("kind", const (.string "http-get")), ("path", const (.string "/")), ("sha256", sha256Schema),
    ("bytes", integerFrom 0)] any

def artifactSchema : Schema := object ["path", "sha256", "bytes"]
  [("path", nonEmpty), ("sha256", sha256Schema), ("bytes", integerFrom 0)] any

def componentSchema : Schema := object requiredComponentFields
  [("id", nonEmpty), ("runtime", oneOf ["node", "python", "go"]), ("subset", text), ("sourceCwd", nonEmpty),
    ("argv", both (arrayOf text) (minItems 1)), ("runtimeVersion", text), ("kernelResources", object [] [] any),
    ("eventLoopResources", object [] [] any), ("runtimePolicy", runtimePolicySchema),
    ("guestPort", both (integerFrom 1) (maximum 65535)), ("verifier", verifierSchema),
    ("artifact", artifactSchema), ("provenance", object [] [] any), ("refusals", type .array)] any

def securitySchema : Schema :=
  object securityConstants (securityConstants.map fun name => (name, const (.bool false))) any

def cleanServiceManifestSchema : Schema := object requiredManifestFields
  [("kind", const (.string "machinen.clean-service-snapshot")), ("formatVersion", const (.number .one)),
    ("sourceArch", oneOf ["arm64", "amd64"]), ("snapshotEngine", oneOf ["vmstate", "criu", "unknown"]),
    ("routePolicy", const (.string "target-native-clean-service-when-target-arch-differs")),
    ("observableStateDecisions", arrayOf observableStateDecisionSchema),
    ("components", both (arrayOf componentSchema) (minItems 1)), ("security", securitySchema)] any

/-- `typeof value === "object" && value !== null` -/
def isRecord : Json → Bool
  | .object _ | .array _ => true
  | _ => false

def isSha256 (value : Unknown) : Bool := (stringOf value).any sha256Pattern

/-- A field of what may be a record. -/
def fieldOf (value : Unknown) (name : String) : Unknown := value.bind fun v =>
    if isRecord v then v.get name else none

def isString (value : Unknown) : Bool := (stringOf value).isSome

def validateComponent (path : String) (component : Json) : Errors :=
  if !isRecord component then [path ++ " must be an object"] else
    (requiredComponentFields.flatMap fun field =>
      report (component.get field).isSome (path ++ " missing required field: " ++ field)) ++
    report (isString (component.get "subset")) (path ++ " subset must be a string") ++
    report ((component.get "argv").any fun argv => (JsonType.has .array argv) &&
        argv.elements.all fun arg => arg.string?.isSome)
      (path ++ " argv must be an array of strings") ++
    report ((component.get "verifier").any isRecord &&
        (fieldOf (component.get "verifier") "kind").any (Json.string "http-get").same &&
        (fieldOf (component.get "verifier") "path").any (Json.string "/").same)
      (path ++ " verifier must be http-get /") ++
    report (isSha256 (fieldOf (component.get "verifier") "sha256"))
      (path ++ " verifier.sha256 must be a lowercase sha256 hex digest") ++
    report ((component.get "artifact").any isRecord && isString (fieldOf (component.get "artifact") "path"))
      (path ++ " artifact.path must be a string") ++
    report (isSha256 (fieldOf (component.get "artifact") "sha256"))
      (path ++ " artifact.sha256 must be a lowercase sha256 hex digest")

def validateComponents (value : Unknown) : Errors :=
  match value with
  | some (.array []) => ["components must not be empty"]
  | some (.array components) =>
    forEach "components" (fun path component => (component.map (validateComponent path)).getD []) components
  | _ => ["components must be an array"]

def validateCleanServiceManifest (value : Json) : Errors :=
  if !isRecord value then ["manifest must be an object"] else
    (requiredManifestFields.flatMap fun field =>
      report (value.get field).isSome ("missing required field: " ++ field)) ++
    report ((value.get "kind").any (Json.string "machinen.clean-service-snapshot").same)
      "kind must be machinen.clean-service-snapshot" ++
    report ((value.get "formatVersion").any (Json.number .one).same) "formatVersion must be 1" ++
    report ((value.get "sourceArch").any (Json.string "arm64").same ||
      (value.get "sourceArch").any (Json.string "amd64").same) "sourceArch must be arm64 or amd64" ++
    validateComponents (value.get "components")

def checkedVerifierSchema : Schema := object ["kind", "path", "sha256"]
  [("kind", const (.string "http-get")), ("path", const (.string "/")), ("sha256", sha256Schema)] any

def checkedArtifactSchema : Schema := object ["path", "sha256"] [("path", text), ("sha256", sha256Schema)] any

def checkedComponentSchema : Schema := object requiredComponentFields
  [("subset", text), ("argv", arrayOf text), ("verifier", checkedVerifierSchema),
    ("artifact", checkedArtifactSchema)] any

/-- What the checks look at. -/
def checkedSchema : Schema := object requiredManifestFields
  [("kind", const (.string "machinen.clean-service-snapshot")), ("formatVersion", const (.number .one)),
    ("sourceArch", oneOf ["arm64", "amd64"]),
    ("components", both (arrayOf checkedComponentSchema) (minItems 1))] any

def uncheckedComponentSchema : Schema := object []
  [("id", nonEmpty), ("runtime", oneOf ["node", "python", "go"]), ("sourceCwd", nonEmpty), ("argv", minItems 1),
    ("runtimeVersion", text), ("kernelResources", object [] [] any), ("eventLoopResources", object [] [] any),
    ("runtimePolicy", runtimePolicySchema), ("guestPort", both (integerFrom 1) (maximum 65535)),
    ("verifier", object ["bytes"] [("bytes", integerFrom 0)] any),
    ("artifact", object ["bytes"] [("path", minLength 1), ("bytes", integerFrom 0)] any),
    ("provenance", object [] [] any), ("refusals", type .array)] any

/-- What the schema asks for besides. -/
def uncheckedSchema : Schema := object []
  [("snapshotEngine", oneOf ["vmstate", "criu", "unknown"]),
    ("routePolicy", const (.string "target-native-clean-service-when-target-arch-differs")),
    ("observableStateDecisions", arrayOf observableStateDecisionSchema),
    ("components", arrayOf uncheckedComponentSchema), ("security", securitySchema)] any

end Machinen.CleanService
