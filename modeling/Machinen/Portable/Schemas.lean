import Machinen.Lib.JsonSchema

/-! The schemas of a portable snapshot as they are published. -/
namespace Machinen.Portable

open Schema

def PORTABLE_GUEST_ARCHES : List String := ["arm64", "amd64"]

def PORTABLE_REFUSAL_CODES : List String :=
  ["checkpoint-refused", "checkpoint-invalid-abi", "checkpoint-invalid-roots",
    "checkpoint-inside-signal-handler", "checkpoint-inside-syscall", "checkpoint-unsupported-root",
    "checkpoint-unknown-root", "continuation-live-value-missing", "pointer-outside-known-object",
    "thread-count-unsupported", "thread-not-at-barrier", "thread-inside-syscall", "signal-handler-active",
    "mapping-executable-anonymous", "fd-kind-unsupported", "target-build-mismatch",
    "architecture-pair-unsupported", "architecture-unsupported", "build-id-mismatch", "entrypoint-missing",
    "feature-unsupported", "memory-layout-unsupported", "object-unsupported", "relocation-unsupported",
    "resource-unsupported", "runtime-adapter-missing", "runtime-heap-unsupported", "syscall-unsupported"]

def OBJECT_KINDS : List String := ["global", "heap", "stack", "thread", "tls", "opaque"]

def RESOURCE_KINDS : List String :=
  ["argv", "fd", "file", "socket", "timer", "signal", "cwd", "env", "unknown"]

def RESOURCE_STATES : List String := ["captured", "refused", "unsupported"]

def RELOCATION_KINDS : List String := ["pointer", "relative", "symbol"]

def checkpointFunctionName : String := "machinen_checkpoint"

def checkpointRootsType : String := "machinen_checkpoint_roots"

def checkpointRestoreBundleType : String := "machinen_restore_bundle"

def isHex (c : Char) : Bool :=
  ('0' ≤ c && c ≤ '9') || ('A' ≤ c && c ≤ 'F') || ('a' ≤ c && c ≤ 'f')

def isUpper (c : Char) : Bool := 'A' ≤ c && c ≤ 'Z'

def isLower (c : Char) : Bool := 'a' ≤ c && c ≤ 'z'

def isDigit (c : Char) : Bool := '0' ≤ c && c ≤ '9'

/-- `^0x[0-9A-Fa-f]+$` -/
def addressPattern (s : String) : Bool :=
  match s.toList with
  | '0' :: 'x' :: digits => !digits.isEmpty && digits.all isHex
  | _ => false

/-- `^[0-9A-Fa-f]{8,128}$` -/
def buildIdPattern (s : String) : Bool :=
  decide (8 ≤ s.toList.length) && decide (s.toList.length ≤ 128) && s.toList.all isHex

/-- `^[A-Za-z_][A-Za-z0-9_.$@-]*$` -/
def symbolPattern (s : String) : Bool :=
  match s.toList with
  | c :: cs => (isUpper c || isLower c || c == '_') && cs.all fun c =>
      isUpper c || isLower c || isDigit c || ['_', '.', '$', '@', '-'].contains c
  | [] => false

/-- `^[a-z0-9][a-z0-9._-]*$` -/
def featurePattern (s : String) : Bool :=
  match s.toList with
  | c :: cs => (isLower c || isDigit c) && cs.all fun c =>
      isLower c || isDigit c || ['.', '_', '-'].contains c
  | [] => false

/-- `^/` -/
def absolutePattern (s : String) : Bool := s.toList.head? == some '/'

def refusalSchema : Schema := object ["code", "message"]
  [("code", oneOf PORTABLE_REFUSAL_CODES), ("message", nonEmpty), ("detail", type .object)] never

def unsupportedSchema : Schema := object ["vocabularyVersion", "refusals"]
  [("vocabularyVersion", const (.number .one)), ("refusals", arrayOf refusalSchema)] never

def symbolSchema : Schema := object ["name"] [("name", matching symbolPattern)] never

def buildIdSchema : Schema := matching buildIdPattern

def addressSchema : Schema := matching addressPattern

/-- `PORTABLE_SNAPSHOT_FORMAT_VERSION` -/
def formatVersionSchema : Schema := const (.number .one)

def envSchema : Schema := object [] [] text

def programSchema : Schema := object ["name", "executable"]
  [("name", nonEmpty), ("executable", nonEmpty), ("identity", nonEmpty)] never

def sourceBuildSchema : Schema := object ["buildId"]
  [("buildId", buildIdSchema), ("version", nonEmpty)] never

def targetBuildSchema : Schema :=
  both (object [] [("buildId", buildIdSchema), ("version", nonEmpty)] never)
    (anyOf [required "buildId", required "version"])

def safePointSchema : Schema := object ["outsideSignalHandlers", "outsideSyscalls"]
  [("outsideSignalHandlers", const (.bool true)), ("outsideSyscalls", const (.bool true))] never

def checkpointAbiSchema : Schema :=
  object ["version", "checkpointFunction", "rootsType", "restoreBundleType", "safePoint"]
    [("version", const (.number .one)), ("checkpointFunction", symbolSchema),
      ("rootsType", const (.string checkpointRootsType)),
      ("restoreBundleType", const (.string checkpointRestoreBundleType)),
      ("safePoint", safePointSchema)] never

def processSchema : Schema := object ["argv", "env", "cwd"]
  [("argv", both (arrayOf text) (minItems 1)), ("env", envSchema), ("cwd", matching absolutePattern)] never

def manifestSchema : Schema :=
  object ["formatVersion", "sourceGuestArch", "allowedTargetGuestArchs", "program", "sourceBuild",
      "targetBuild", "checkpointAbi", "checkpointContinuation", "restoreEntrypoint", "process", "features",
      "unsupported"]
    [("formatVersion", formatVersionSchema), ("sourceGuestArch", oneOf PORTABLE_GUEST_ARCHES),
      ("allowedTargetGuestArchs", all [type .array, minItems 1, uniqueItems,
        items (oneOf PORTABLE_GUEST_ARCHES)]),
      ("program", programSchema), ("sourceBuild", sourceBuildSchema), ("targetBuild", targetBuildSchema),
      ("checkpointAbi", checkpointAbiSchema), ("checkpointContinuation", symbolSchema),
      ("restoreEntrypoint", symbolSchema), ("process", processSchema),
      ("features", all [type .array, uniqueItems, items (matching featurePattern)]),
      ("unsupported", unsupportedSchema)] never

def allocationSchema : Schema := object ["id", "sourceAddress"]
  [("id", integerFrom 1), ("sourceAddress", addressSchema)] never

def memorySchema : Schema := object ["offset", "sizeBytes"]
  [("offset", integerFrom 0), ("sizeBytes", integerFrom 0)] never

def objectSchema : Schema := object ["id", "kind"]
  [("id", nonEmpty), ("kind", oneOf OBJECT_KINDS), ("type", nonEmpty), ("sizeBytes", integerFrom 0),
    ("sourceAddress", addressSchema), ("allocation", allocationSchema), ("memory", memorySchema),
    ("unsupported", unsupportedSchema)] never

def objectsSchema : Schema := object ["formatVersion", "objects", "unsupported"]
  [("formatVersion", formatVersionSchema), ("objects", arrayOf objectSchema),
    ("unsupported", unsupportedSchema)] never

def relocationSchema : Schema := object ["fromObject", "fromOffset", "toObject"]
  [("fromObject", nonEmpty), ("fromOffset", integerFrom 0), ("toObject", nonEmpty),
    ("addend", type .integer), ("kind", oneOf RELOCATION_KINDS), ("sourcePointer", addressSchema)] never

def relocationsSchema : Schema := object ["formatVersion", "relocations", "unsupported"]
  [("formatVersion", formatVersionSchema), ("relocations", arrayOf relocationSchema),
    ("unsupported", unsupportedSchema)] never

/-- The schema of a resource, over that of a flag. -/
def resourceSchemaWith (flag : Schema) : Schema := object ["id", "kind", "state"]
  [("id", nonEmpty), ("kind", oneOf RESOURCE_KINDS), ("state", oneOf RESOURCE_STATES), ("path", text),
    ("fd", integerFrom 0), ("flags", all [type .array, uniqueItems, items flag]),
    ("offset", integerFrom 0), ("argv", arrayOf text), ("env", envSchema),
    ("refusal", refusalSchema)] never

def resourcesSchemaWith (flag : Schema) : Schema := object ["formatVersion", "resources", "unsupported"]
  [("formatVersion", formatVersionSchema), ("resources", arrayOf (resourceSchemaWith flag)),
    ("unsupported", unsupportedSchema)] never

def resourcesSchema : Schema := resourcesSchemaWith nonEmpty

end Machinen.Portable
