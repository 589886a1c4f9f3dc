import Machinen.CleanService.Manifest

/-! The manifest's schema asks for what its checks look at, and for more. -/
namespace Machinen.CleanService

open Schema Portable

theorem all_split {s t u : Schema} (split : ∀ v, s.accepts v = true ↔ t.accepts v = true ∧ u.accepts v = true)
    (value : Unknown) :
    value.all s.accepts = true ↔ value.all t.accepts = true ∧ value.all u.accepts = true := by
  cases value with
  | none => simp
  | some v => simpa using split v

theorem arrayOf_split {s t u : Schema}
    (split : ∀ v, s.accepts v = true ↔ t.accepts v = true ∧ u.accepts v = true) (v : Json) :
    (arrayOf s).accepts v = true ↔ (arrayOf t).accepts v = true ∧ (arrayOf u).accepts v = true := by
  cases v with
  | array xs => simp [arrayOf, accepts, JsonType.has, Json.elements, split, forall_and]
  | _ => simp [arrayOf, accepts, JsonType.has]

theorem both_accepts (s t : Schema) (v : Json) :
    (both s t).accepts v = true ↔ s.accepts v = true ∧ t.accepts v = true := by
  simp [accepts]

theorem verifier_split (v : Json) : verifierSchema.accepts v = true ↔ checkedVerifierSchema.accepts v = true ∧
    (object ["bytes"] [("bytes", integerFrom 0)] any).accepts v = true := by
  simp only [verifierSchema, checkedVerifierSchema, accepts_object, List.forall_mem_cons, List.not_mem_nil,
    false_implies, implies_true, and_true]
  tauto

theorem artifact_split (v : Json) : artifactSchema.accepts v = true ↔ checkedArtifactSchema.accepts v = true ∧
    (object ["bytes"] [("path", minLength 1), ("bytes", integerFrom 0)] any).accepts v = true := by
  have path := all_split (s := nonEmpty) (t := text) (u := minLength 1)
    (fun w => by simp [nonEmpty]) (v.get "path")
  simp only [artifactSchema, checkedArtifactSchema, accepts_object, List.forall_mem_cons, List.not_mem_nil,
    false_implies, implies_true, and_true, path]
  tauto

theorem component_split (v : Json) : componentSchema.accepts v = true ↔
    checkedComponentSchema.accepts v = true ∧ uncheckedComponentSchema.accepts v = true := by
  have verifier := all_split verifier_split (v.get "verifier")
  have artifact := all_split artifact_split (v.get "artifact")
  have argv := all_split (both_accepts (arrayOf text) (minItems 1)) (v.get "argv")
  simp only [componentSchema, checkedComponentSchema, uncheckedComponentSchema, accepts_object,
    List.forall_mem_cons (p := fun p : String × Schema => (v.get p.1).all p.2.accepts = true), List.not_mem_nil,
    false_implies, implies_true, and_true, true_and, verifier, artifact, argv]
  tauto

theorem manifest_split (v : Json) : cleanServiceManifestSchema.accepts v = true ↔
    checkedSchema.accepts v = true ∧ uncheckedSchema.accepts v = true := by
  have components : (v.get "components").all (both (arrayOf componentSchema) (minItems 1)).accepts = true ↔
      (v.get "components").all (both (arrayOf checkedComponentSchema) (minItems 1)).accepts = true ∧
        (v.get "components").all (arrayOf uncheckedComponentSchema).accepts = true := by
    refine all_split (fun w => ?_) _
    rw [both_accepts, both_accepts, arrayOf_split component_split]
    tauto
  simp only [cleanServiceManifestSchema, checkedSchema, uncheckedSchema, accepts_object,
    List.forall_mem_cons, List.not_mem_nil,
    false_implies, implies_true, and_true, true_and, components]
  tauto

/-! What the checks establish -/

/-- The field is there, and the schema accepts it. -/
def Present (s : Schema) (value : Unknown) : Prop := value.isSome = true ∧ value.all s.accepts = true

theorem present_iff (s : Schema) (value : Unknown) : value.any s.accepts = true ↔ Present s value := by
  cases value <;> simp [Present]

theorem const_present (c : Json) (value : Unknown) : value.any c.same = true ↔ Present (const c) value := by
  rw [← present_iff]
  cases value <;> simp [accepts]

theorem isString_present (value : Unknown) : isString value = true ↔ Present text value := by
  cases value with
  | none => simp [isString, stringOf, Present]
  | some v => cases v <;> simp [isString, stringOf, Present, Json.string?]

theorem isSha256_present (value : Unknown) : isSha256 value = true ↔ Present sha256Schema value := by
  have checked := matching_nil sha256Pattern "" value
  rw [report_nil] at checked
  exact checked

theorem argv_present (value : Unknown) :
    (value.any fun argv => (JsonType.has .array argv) && argv.elements.all fun arg => arg.string?.isSome) = true ↔
      Present (arrayOf text) value := by
  have string : ∀ v : Json, text.accepts v = v.string?.isSome := by
    intro v
    cases v <;> rfl
  rw [← present_iff]
  cases value with
  | none => rfl
  | some argv => simp [arrayOf, accepts, string]

theorem verifier_present (value : Unknown) :
    (value.any isRecord && (fieldOf value "kind").any (Json.string "http-get").same &&
        (fieldOf value "path").any (Json.string "/").same) = true ∧
      isSha256 (fieldOf value "sha256") = true ↔ Present checkedVerifierSchema value := by
  simp only [Bool.and_eq_true, const_present, isSha256_present]
  cases value with
  | none => simp [Present]
  | some v =>
    simp only [Present, checkedVerifierSchema, Option.all_some, Option.isSome_some, true_and, accepts_object,
      List.forall_mem_cons, List.not_mem_nil, false_implies, implies_true, and_true]
    cases v with
    | object fields =>
      simp [fieldOf, isRecord]
      tauto
    | _ => simp [fieldOf, isRecord, Json.get]

theorem artifact_present (value : Unknown) :
    (value.any isRecord && isString (fieldOf value "path")) = true ∧
      isSha256 (fieldOf value "sha256") = true ↔ Present checkedArtifactSchema value := by
  simp only [Bool.and_eq_true, isString_present, isSha256_present]
  cases value with
  | none => simp [Present]
  | some v =>
    simp only [Present, checkedArtifactSchema, Option.all_some, Option.isSome_some, true_and, accepts_object,
      List.forall_mem_cons, List.not_mem_nil, false_implies, implies_true, and_true]
    cases v with
    | object fields =>
      simp [fieldOf, isRecord]
      tauto
    | _ => simp [fieldOf, isRecord, Json.get]

theorem validateComponent_nil (path : String) (component : Json) :
    validateComponent path component = [] ↔ checkedComponentSchema.accepts component = true := by
  have parts : isRecord component = true → (validateComponent path component = [] ↔
      (∀ name ∈ requiredComponentFields, (component.get name).isSome = true) ∧
      ∀ p ∈ [("subset", text), ("argv", arrayOf text), ("verifier", checkedVerifierSchema),
        ("artifact", checkedArtifactSchema)], Present p.2 (component.get p.1)) := by
    intro record
    simp only [validateComponent, record, Bool.not_true, Bool.false_eq_true, if_false, List.append_eq_nil_iff,
      List.flatMap_eq_nil_iff, report_nil, isString_present, argv_present, List.forall_mem_cons,
      List.not_mem_nil, false_implies, implies_true, and_true, ← verifier_present, ← artifact_present]
    tauto
  cases component with
  | object fields =>
    rw [parts rfl, checkedComponentSchema, accepts_object]
    simp only [Present, List.forall_mem_cons, List.not_mem_nil, false_implies, implies_true, and_true,
      requiredComponentFields]
    constructor
    · tauto
    · tauto
  | array items =>
    have missing : (Json.array items).get "id" = none := rfl
    have listed : "id" ∈ requiredComponentFields := by simp [requiredComponentFields]
    simp only [parts rfl, checkedComponentSchema, accepts_object]
    constructor
    · rintro ⟨fields, -⟩
      simpa [missing] using fields "id" listed
    · rintro ⟨⟨fields, same⟩, -⟩
      cases same
  | _ => simp [validateComponent, isRecord, checkedComponentSchema, accepts_object]

theorem validateComponents_nil (value : Unknown) :
    validateComponents value = [] ↔ Present (both (arrayOf checkedComponentSchema) (minItems 1)) value := by
  unfold validateComponents
  split
  · simp [Present, accepts]
  · rename_i components filled
    rw [forEach, forEachFrom_nil fun path v => validateComponent_nil path v]
    have some : 1 ≤ components.length := by
      cases components with
      | nil => exact absurd rfl (filled · )
      | cons v components => simp
    simp [Present, accepts, arrayOf, JsonType.has, Json.elements, some]
  · rename_i other
    cases value with
    | none => simp [Present]
    | some v =>
      cases v with
      | array items => exact (other items rfl).elim
      | _ => simp [Present, accepts, arrayOf, JsonType.has]

theorem validateCleanServiceManifest_nil (value : Json) :
    validateCleanServiceManifest value = [] ↔ checkedSchema.accepts value = true := by
  have arch : ((value.get "sourceArch").any (Json.string "arm64").same ||
      (value.get "sourceArch").any (Json.string "amd64").same) = true ↔
        Present (oneOf ["arm64", "amd64"]) (value.get "sourceArch") := by
    rw [← present_iff]
    cases value.get "sourceArch" <;> simp [oneOf, accepts]
  have parts : isRecord value = true → (validateCleanServiceManifest value = [] ↔
      (∀ name ∈ requiredManifestFields, (value.get name).isSome = true) ∧
      ∀ p ∈ [("kind", const (.string "machinen.clean-service-snapshot")), ("formatVersion", const (.number .one)),
        ("sourceArch", oneOf ["arm64", "amd64"]),
        ("components", both (arrayOf checkedComponentSchema) (minItems 1))], Present p.2 (value.get p.1)) := by
    intro record
    simp only [validateCleanServiceManifest, record, Bool.not_true, Bool.false_eq_true, if_false,
      List.append_eq_nil_iff, List.flatMap_eq_nil_iff, report_nil, arch, const_present, validateComponents_nil,
      List.forall_mem_cons, List.not_mem_nil, false_implies, implies_true, and_true]
    tauto
  cases value with
  | object fields =>
    rw [parts rfl, checkedSchema, accepts_object]
    simp only [Present, List.forall_mem_cons, List.not_mem_nil, false_implies, implies_true, and_true,
      requiredManifestFields]
    tauto
  | array items =>
    have missing : (Json.array items).get "kind" = none := rfl
    have listed : "kind" ∈ requiredManifestFields := by simp [requiredManifestFields]
    simp only [parts rfl, checkedSchema, accepts_object]
    constructor
    · rintro ⟨fields, -⟩
      simpa [missing] using fields "kind" listed
    · rintro ⟨⟨fields, same⟩, -⟩
      cases same
  | _ => simp [validateCleanServiceManifest, isRecord, checkedSchema, accepts_object]

/-- The checks agree with the schemas on the documents where a checkpoint function of the published name
goes with nothing unlisted and no empty flag, and on the manifests whose unchecked fields fit. -/
theorem validators_enforce_iff (docs : PortableSnapshotDocuments) (manifest : Json) :
    (Enforced docs ↔ (FitsListed docs → Linked docs →
      (NamesCheckpointFunction docs.manifest ↔ NothingUnlisted docs ∧ NoEmptyFlag docs.resources))) ∧
    ((validateCleanServiceManifest manifest = [] ↔ cleanServiceManifestSchema.accepts manifest = true) ↔
      (checkedSchema.accepts manifest = true → uncheckedSchema.accepts manifest = true)) := by
  refine ⟨enforced_iff docs, ?_⟩
  rw [validateCleanServiceManifest_nil, manifest_split]
  tauto

/-- Documents without objects, whose manifest carries a note that its schema does not list. -/
def annotated : PortableSnapshotDocuments :=
  let symbol : String → Json := fun name => .object [("name", .string name)]
  let refusals : Json := .object [("vocabularyVersion", .number .one), ("refusals", .array [])]
  let listing : String → Json := fun name =>
    .object [("formatVersion", .number .one), (name, .array []), ("unsupported", refusals)]
  { manifest := .object [("formatVersion", .number .one), ("sourceGuestArch", .string "arm64"),
      ("allowedTargetGuestArchs", .array [.string "amd64"]),
      ("program", .object [("name", .string "app"), ("executable", .string "/app")]),
      ("sourceBuild", .object [("buildId", .string "0123abcd")]),
      ("targetBuild", .object [("version", .string "1")]),
      ("checkpointAbi", .object [("version", .number .one),
        ("checkpointFunction", symbol checkpointFunctionName), ("rootsType", .string checkpointRootsType),
        ("restoreBundleType", .string checkpointRestoreBundleType),
        ("safePoint", .object [("outsideSignalHandlers", .bool true), ("outsideSyscalls", .bool true)])]),
      ("checkpointContinuation", symbol "resume"), ("restoreEntrypoint", symbol "restore"),
      ("process", .object [("argv", .array [.string "app"]), ("env", .object []), ("cwd", .string "/")]),
      ("features", .array []), ("unsupported", refusals), ("note", .string "not listed")]
    objects := listing "objects"
    relocations := listing "relocations"
    resources := listing "resources" }

/-- A manifest that says the source's instructions were emulated. -/
def emulatedAt (artifact : String) : Json :=
  let digest : Json := .string (String.ofList (List.replicate 64 'a'))
  .object [("kind", .string "machinen.clean-service-snapshot"), ("formatVersion", .number .one),
    ("sourceArch", .string "arm64"), ("snapshotEngine", .string "vmstate"),
    ("routePolicy", .string "target-native-clean-service-when-target-arch-differs"),
    ("components", .array [.object [("id", .string "web"), ("runtime", .string "node"),
      ("subset", .string "node-http-clean-root-v1"), ("sourceCwd", .string "/srv"),
      ("argv", .array [.string "node"]), ("runtimeVersion", .string "20.1.0"), ("guestPort", .number .one),
      ("verifier", .object [("kind", .string "http-get"), ("path", .string "/"), ("sha256", digest),
        ("bytes", .number .one)]),
      ("artifact", .object [("path", .string artifact), ("sha256", digest), ("bytes", .number .one)]),
      ("provenance", .object []), ("refusals", .array [])]]),
    ("security", .object (securityConstants.map fun name =>
      (name, .bool (decide (name = "sourceIsaEmulationUsed")))))]

def emulated : Json := emulatedAt "app.tar.gz"

theorem unlisted_field_and_emulation_accepted :
    (validatePortableSnapshotDocuments annotated = [] ∧ manifestSchema.accepts annotated.manifest = false) ∧
      validateCleanServiceManifest emulated = [] ∧ cleanServiceManifestSchema.accepts emulated = false := by
  decide +kernel

end Machinen.CleanService
