import Machinen.Portable.Schemas

/-! The hand-written checks of a portable snapshot, with the errors they report. A value that is not
there is `none`, and the bundle's files are left aside. -/
namespace Machinen.Portable

/-- A value of a parsed document, or `undefined`. -/
abbrev Unknown := Option Json

abbrev Errors := List String

structure PortableSnapshotDocuments where
  manifest : Json
  objects : Json
  relocations : Json
  resources : Json

/-- `JSON.stringify` on a string. -/
def stringify (s : String) : String :=
  let escape : Char → String := fun c =>
    if c = '"' then "\\\"" else if c = '\\' then "\\\\"
    else if c = '\n' then "\\n" else if c = '\r' then "\\r" else if c = '\t' then "\\t"
    else if c.toNat = 8 then "\\b" else if c.toNat = 12 then "\\f"
    else if c.toNat < 32 then
      "\\u00" ++ String.ofList [Nat.digitChar (c.toNat / 16), Nat.digitChar (c.toNat % 16)]
    else String.ofList [c]
  "\"" ++ String.join (s.toList.map escape) ++ "\""

def at_ (path : String) (index : Nat) : String := path ++ "[" ++ toString index ++ "]"

def report (ok : Bool) (error : String) : Errors := if ok then [] else [error]

def expectRecord (path : String) (value : Unknown) (next : Json → Errors) : Errors :=
  match value with
  | some (.object fields) => next (.object fields)
  | _ => [path ++ " must be an object"]

def expectArray (path : String) (value : Unknown) (next : List Json → Errors) : Errors :=
  match value with
  | some (.array items) => next items
  | _ => [path ++ " must be an array"]

/-- `if (value !== undefined)` -/
def whenDefined (check : Unknown → Errors) : Unknown → Errors
  | none => []
  | value => check value

/-- The loop over an array, from an index on. -/
def forEachFrom (path : String) (check : String → Unknown → Errors) : Nat → List Json → Errors
  | _, [] => []
  | i, item :: items => check (at_ path i) (some item) ++ forEachFrom path check (i + 1) items

def forEach (path : String) (check : String → Unknown → Errors) (items : List Json) : Errors :=
  forEachFrom path check 0 items

def stringOf (value : Unknown) : Option String := value.bind Json.string?

def integerOf : Unknown → Option Int
  | some (.number n) => if n.isInteger then some n.toInt else none
  | _ => none

def validateEnum (allowed : List String) (path : String) (value : Unknown) : Errors :=
  report ((stringOf value).any allowed.contains)
    (path ++ " must be one of: " ++ ", ".intercalate allowed)

def validateString (path : String) (value : Unknown) : Errors :=
  report (stringOf value).isSome (path ++ " must be a string")

def validateNonEmptyString (path : String) (value : Unknown) : Errors :=
  report ((stringOf value).any fun s => s.length != 0) (path ++ " must be a non-empty string")

def validateInteger (path : String) (value : Unknown) : Errors :=
  report (integerOf value).isSome (path ++ " must be an integer")

def validatePositiveInteger (path : String) (value : Unknown) : Errors :=
  report ((integerOf value).any fun n => decide (1 ≤ n)) (path ++ " must be a positive integer")

def validateNonNegativeInteger (path : String) (value : Unknown) : Errors :=
  report ((integerOf value).any fun n => decide (0 ≤ n)) (path ++ " must be a non-negative integer")

def validateHexAddress (path : String) (value : Unknown) : Errors :=
  report ((stringOf value).any addressPattern) (path ++ " must be a hex address")

def validateAbsolutePath (path : String) (value : Unknown) : Errors :=
  report ((stringOf value).any absolutePattern) (path ++ " must be an absolute path")

def validateBuildId (path : String) (value : Unknown) : Errors :=
  report ((stringOf value).any buildIdPattern) (path ++ " must be 8-128 hex characters")

def validateSymbolName (path : String) (value : Unknown) : Errors :=
  report ((stringOf value).any symbolPattern) (path ++ " must be a valid symbol name")

def validateFormatVersion (path : String) (value : Unknown) : Errors :=
  report (value.any (Json.number .one).same) (path ++ " must be 1")

def validateArch (path : String) (value : Unknown) : Errors := validateEnum PORTABLE_GUEST_ARCHES path value

def validateSymbolObject (path : String) (value : Unknown) : Errors :=
  expectRecord path value fun symbol => validateSymbolName (path ++ ".name") (symbol.get "name")

def validateRefusal (path : String) (value : Unknown) : Errors :=
  expectRecord path value fun refusal =>
    validateEnum PORTABLE_REFUSAL_CODES (path ++ ".code") (refusal.get "code") ++
    validateNonEmptyString (path ++ ".message") (refusal.get "message") ++
    whenDefined (fun detail => report (detail.any (JsonType.has .object)) (path ++ ".detail must be an object"))
      (refusal.get "detail")

def validateUnsupported (path : String) (value : Unknown) : Errors :=
  expectRecord path value fun unsupported =>
    report ((unsupported.get "vocabularyVersion").any (Json.number .one).same)
      (path ++ ".vocabularyVersion must be 1") ++
    expectArray (path ++ ".refusals") (unsupported.get "refusals")
      (forEach (path ++ ".refusals") validateRefusal)

structure StringArrayOptions where
  minItems : Option Nat := none
  unique : Bool := false
  pattern : Option (String → Bool) := none

def validateArrayMinItems (path : String) (arr : List Json) (minItems : Option Nat) : Errors :=
  match minItems with
  | some least => report (decide (least ≤ arr.length))
      (path ++ " must contain at least " ++ toString least ++ " item(s)")
  | none => []

def validateStringArrayPattern (path value : String) (pattern : Option (String → Bool)) : Errors :=
  match pattern with
  | some test => report (test value) (path ++ " has invalid shape")
  | none => []

def validateStringArrayUnique (path value : String) (unique : Bool) (seen : List String) : Errors :=
  if unique then report (!seen.contains value) (path ++ " duplicates " ++ stringify value) else []

/-- The loop over the items from an index on; `seen` is the set of the strings before. -/
def validateStringArrayItems (path : String) (opts : StringArrayOptions) :
    Nat → List String → List Json → Errors
  | _, _, [] => []
  | i, seen, item :: items =>
    match item.string? with
    | none => (at_ path i ++ " must be a string") :: validateStringArrayItems path opts (i + 1) seen items
    | some value =>
      validateStringArrayPattern (at_ path i) value opts.pattern ++
      validateStringArrayUnique path value opts.unique seen ++
      validateStringArrayItems path opts (i + 1) (value :: seen) items

def validateStringArray (opts : StringArrayOptions) (path : String) (value : Unknown) : Errors :=
  expectArray path value fun arr =>
    validateArrayMinItems path arr opts.minItems ++ validateStringArrayItems path opts 0 [] arr

def validateStringRecord (path : String) (value : Unknown) : Errors :=
  expectRecord path value fun record => record.entries.flatMap fun e =>
    report e.2.string?.isSome (path ++ "." ++ e.1 ++ " must be a string")

def validateMemoryRange (path : String) (value : Unknown) : Errors :=
  expectRecord path value fun memory =>
    validateNonNegativeInteger (path ++ ".offset") (memory.get "offset") ++
    validateNonNegativeInteger (path ++ ".sizeBytes") (memory.get "sizeBytes")

/-- The loop of `validateAllowedTargetArchs`. -/
def validateTargetArchItems : Nat → List String → List Json → Errors
  | _, _, [] => []
  | i, seen, arch :: arches =>
    validateArch (at_ "manifest.allowedTargetGuestArchs" i) (some arch) ++
    match arch.string? with
    | none => validateTargetArchItems (i + 1) seen arches
    | some value =>
      report (!seen.contains value) ("manifest.allowedTargetGuestArchs duplicates " ++ stringify value) ++
      validateTargetArchItems (i + 1) (value :: seen) arches

def validateAllowedTargetArchs (value : Unknown) : Errors :=
  expectArray "manifest.allowedTargetGuestArchs" value fun arches =>
    report (decide (arches.length ≠ 0))
      "manifest.allowedTargetGuestArchs must contain at least one architecture" ++
    validateTargetArchItems 0 [] arches

def validateProgram (value : Unknown) : Errors :=
  expectRecord "manifest.program" value fun program =>
    validateNonEmptyString "manifest.program.name" (program.get "name") ++
    validateNonEmptyString "manifest.program.executable" (program.get "executable") ++
    whenDefined (validateNonEmptyString "manifest.program.identity") (program.get "identity")

def validateSourceBuild (value : Unknown) : Errors :=
  expectRecord "manifest.sourceBuild" value fun build =>
    validateBuildId "manifest.sourceBuild.buildId" (build.get "buildId") ++
    whenDefined (validateNonEmptyString "manifest.sourceBuild.version") (build.get "version")

def validateTargetBuild (value : Unknown) : Errors :=
  expectRecord "manifest.targetBuild" value fun build =>
    report ((build.get "buildId").isSome || (build.get "version").isSome)
      "manifest.targetBuild must include buildId or version" ++
    whenDefined (validateBuildId "manifest.targetBuild.buildId") (build.get "buildId") ++
    whenDefined (validateNonEmptyString "manifest.targetBuild.version") (build.get "version")

def validateCheckpointSafePoint (value : Unknown) : Errors :=
  expectRecord "manifest.checkpointAbi.safePoint" value fun safePoint =>
    report ((safePoint.get "outsideSignalHandlers").any (Json.bool true).same)
      "manifest.checkpointAbi.safePoint.outsideSignalHandlers must be true" ++
    report ((safePoint.get "outsideSyscalls").any (Json.bool true).same)
      "manifest.checkpointAbi.safePoint.outsideSyscalls must be true"

/-- The name of the checkpoint function is the published one. -/
def namesCheckpointFunction (checkpointFunction : Unknown) : Bool :=
  (checkpointFunction.bind fun symbol => symbol.get "name").any (Json.string checkpointFunctionName).same

def validateCheckpointAbi (value : Unknown) : Errors :=
  expectRecord "manifest.checkpointAbi" value fun abi =>
    report ((abi.get "version").any (Json.number .one).same) "manifest.checkpointAbi.version must be 1" ++
    validateSymbolObject "manifest.checkpointAbi.checkpointFunction" (abi.get "checkpointFunction") ++
    report (namesCheckpointFunction (abi.get "checkpointFunction"))
      ("manifest.checkpointAbi.checkpointFunction.name must be " ++ checkpointFunctionName) ++
    report ((abi.get "rootsType").any (Json.string checkpointRootsType).same)
      ("manifest.checkpointAbi.rootsType must be " ++ checkpointRootsType) ++
    report ((abi.get "restoreBundleType").any (Json.string checkpointRestoreBundleType).same)
      ("manifest.checkpointAbi.restoreBundleType must be " ++ checkpointRestoreBundleType) ++
    validateCheckpointSafePoint (abi.get "safePoint")

/-- What `validateStringArray` returns of the arguments has a first one. -/
def requireArgv0 : Unknown → Errors
  | some (.array argv) => report (decide (argv.filterMap Json.string? ≠ []))
      "manifest.process.argv must contain argv[0]"
  | _ => []

def validateProcess (value : Unknown) : Errors :=
  expectRecord "manifest.process" value fun process =>
    validateStringArray { minItems := some 1 } "manifest.process.argv" (process.get "argv") ++
    requireArgv0 (process.get "argv") ++
    validateStringRecord "manifest.process.env" (process.get "env") ++
    validateAbsolutePath "manifest.process.cwd" (process.get "cwd")

def validateManifest (manifest : Json) : Errors :=
  expectRecord "manifest" (some manifest) fun m =>
    validateFormatVersion "manifest.formatVersion" (m.get "formatVersion") ++
    validateArch "manifest.sourceGuestArch" (m.get "sourceGuestArch") ++
    validateAllowedTargetArchs (m.get "allowedTargetGuestArchs") ++
    validateProgram (m.get "program") ++
    validateSourceBuild (m.get "sourceBuild") ++
    validateTargetBuild (m.get "targetBuild") ++
    validateCheckpointAbi (m.get "checkpointAbi") ++
    validateSymbolObject "manifest.checkpointContinuation" (m.get "checkpointContinuation") ++
    validateSymbolObject "manifest.restoreEntrypoint" (m.get "restoreEntrypoint") ++
    validateProcess (m.get "process") ++
    validateStringArray { unique := true, pattern := some featurePattern } "manifest.features"
      (m.get "features") ++
    validateUnsupported "manifest.unsupported" (m.get "unsupported")

/-- The id's own check, and the set of the ids before it. -/
def validateObjectId (path : String) (value : Unknown) (ids : List String) : Errors :=
  validateNonEmptyString (path ++ ".id") value ++
  match stringOf value with
  | none => []
  | some id => report (!ids.contains id) (path ++ ".id duplicates object id " ++ stringify id)

def validateOptionalObjectType (path : String) : Unknown → Errors :=
  whenDefined (validateNonEmptyString (path ++ ".type"))

def validateOptionalObjectSize (path : String) : Unknown → Errors :=
  whenDefined (validateNonNegativeInteger (path ++ ".sizeBytes"))

def validateOptionalObjectSourceAddress (path : String) : Unknown → Errors :=
  whenDefined (validateHexAddress (path ++ ".sourceAddress"))

def validateOptionalObjectAllocation (path : String) : Unknown → Errors :=
  whenDefined fun value => expectRecord (path ++ ".allocation") value fun allocation =>
    validatePositiveInteger (path ++ ".allocation.id") (allocation.get "id") ++
    validateHexAddress (path ++ ".allocation.sourceAddress") (allocation.get "sourceAddress")

def validateOptionalObjectMemory (path : String) : Unknown → Errors :=
  whenDefined (validateMemoryRange (path ++ ".memory"))

def validateOptionalObjectUnsupported (path : String) : Unknown → Errors :=
  whenDefined (validateUnsupported (path ++ ".unsupported"))

def validateObjectEntry (ids : List String) (path : String) (value : Unknown) : Errors :=
  expectRecord path value fun obj =>
    validateObjectId path (obj.get "id") ids ++
    validateEnum OBJECT_KINDS (path ++ ".kind") (obj.get "kind") ++
    validateOptionalObjectType path (obj.get "type") ++
    validateOptionalObjectSize path (obj.get "sizeBytes") ++
    validateOptionalObjectSourceAddress path (obj.get "sourceAddress") ++
    validateOptionalObjectAllocation path (obj.get "allocation") ++
    validateOptionalObjectMemory path (obj.get "memory") ++
    validateOptionalObjectUnsupported path (obj.get "unsupported")

/-- The id that an entry adds to the set. -/
def objectId (entry : Json) : Option String := (entry.get "id").bind Json.string?

def validateObjectEntries : Nat → List String → List Json → Errors
  | _, _, [] => []
  | i, ids, entry :: entries =>
    validateObjectEntry ids (at_ "objects.objects" i) (some entry) ++
    validateObjectEntries (i + 1) ((objectId entry).toList ++ ids) entries

def validateObjects (objects : Json) : Errors :=
  expectRecord "objects" (some objects) fun doc =>
    validateFormatVersion "objects.formatVersion" (doc.get "formatVersion") ++
    expectArray "objects.objects" (doc.get "objects") (validateObjectEntries 0 []) ++
    validateUnsupported "objects.unsupported" (doc.get "unsupported")

def collectObjectIds (objects : Json) : List String :=
  match objects.get "objects" with
  | some (.array entries) => entries.filterMap objectId
  | _ => []

def validateObjectRef (objectIds : List String) (path : String) (value : Unknown) : Errors :=
  validateNonEmptyString path value ++
  match stringOf value with
  | none => []
  | some id => report (objectIds.contains id) (path ++ " references unknown object " ++ stringify id)

def validateOptionalRelocationAddend (path : String) : Unknown → Errors :=
  whenDefined (validateInteger (path ++ ".addend"))

def validateOptionalRelocationKind (path : String) : Unknown → Errors :=
  whenDefined (validateEnum RELOCATION_KINDS (path ++ ".kind"))

def validateOptionalRelocationSourcePointer (path : String) : Unknown → Errors :=
  whenDefined (validateHexAddress (path ++ ".sourcePointer"))

def validateRelocationEntry (objectIds : List String) (path : String) (value : Unknown) : Errors :=
  expectRecord path value fun rel =>
    validateObjectRef objectIds (path ++ ".fromObject") (rel.get "fromObject") ++
    validateNonNegativeInteger (path ++ ".fromOffset") (rel.get "fromOffset") ++
    validateObjectRef objectIds (path ++ ".toObject") (rel.get "toObject") ++
    validateOptionalRelocationAddend path (rel.get "addend") ++
    validateOptionalRelocationKind path (rel.get "kind") ++
    validateOptionalRelocationSourcePointer path (rel.get "sourcePointer")

def validateRelocations (relocations objects : Json) : Errors :=
  expectRecord "relocations" (some relocations) fun doc =>
    validateFormatVersion "relocations.formatVersion" (doc.get "formatVersion") ++
    expectArray "relocations.relocations" (doc.get "relocations")
      (forEach "relocations.relocations" (validateRelocationEntry (collectObjectIds objects))) ++
    validateUnsupported "relocations.unsupported" (doc.get "unsupported")

def validateOptionalResourcePath (path : String) : Unknown → Errors :=
  whenDefined (validateString (path ++ ".path"))

def validateOptionalResourceFd (path : String) : Unknown → Errors :=
  whenDefined (validateNonNegativeInteger (path ++ ".fd"))

def validateOptionalResourceFlags (path : String) : Unknown → Errors :=
  whenDefined (validateStringArray { unique := true } (path ++ ".flags"))

def validateOptionalResourceOffset (path : String) : Unknown → Errors :=
  whenDefined (validateNonNegativeInteger (path ++ ".offset"))

def validateOptionalResourceArgv (path : String) : Unknown → Errors :=
  whenDefined (validateStringArray {} (path ++ ".argv"))

def validateOptionalResourceEnv (path : String) : Unknown → Errors :=
  whenDefined (validateStringRecord (path ++ ".env"))

/-- One iteration of the loop of `validateResources`. -/
def validateResourceEntry (path : String) (value : Unknown) : Errors :=
  expectRecord path value fun resource =>
    validateNonEmptyString (path ++ ".id") (resource.get "id") ++
    validateEnum RESOURCE_KINDS (path ++ ".kind") (resource.get "kind") ++
    validateEnum RESOURCE_STATES (path ++ ".state") (resource.get "state") ++
    validateOptionalResourcePath path (resource.get "path") ++
    validateOptionalResourceFd path (resource.get "fd") ++
    validateOptionalResourceFlags path (resource.get "flags") ++
    validateOptionalResourceOffset path (resource.get "offset") ++
    validateOptionalResourceArgv path (resource.get "argv") ++
    validateOptionalResourceEnv path (resource.get "env") ++
    whenDefined (validateRefusal (path ++ ".refusal")) (resource.get "refusal")

def validateResources (resources : Json) : Errors :=
  expectRecord "resources" (some resources) fun doc =>
    validateFormatVersion "resources.formatVersion" (doc.get "formatVersion") ++
    expectArray "resources.resources" (doc.get "resources")
      (forEach "resources.resources" validateResourceEntry) ++
    validateUnsupported "resources.unsupported" (doc.get "unsupported")

def validatePortableSnapshotDocuments (docs : PortableSnapshotDocuments) : Errors :=
  validateManifest docs.manifest ++ validateObjects docs.objects ++
    validateRelocations docs.relocations docs.objects ++ validateResources docs.resources

end Machinen.Portable
