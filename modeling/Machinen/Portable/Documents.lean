import Machinen.Portable.Agreement

/-! The four documents of a portable snapshot, and where their checks and their schemas part. -/
namespace Machinen.Portable

open Schema

theorem validateObjectId_nil (path : String) (value : Unknown) (ids : List String) :
    validateObjectId path value ids = [] ↔
      Has nonEmpty value ∧ ∀ id, stringOf value = some id → id ∉ ids := by
  unfold validateObjectId
  rw [List.append_eq_nil_iff, validateNonEmptyString_nil]
  cases found : stringOf value with
  | none => simp
  | some id => simp

theorem validateObjectEntry_nil (ids : List String) (path : String) (value : Unknown) :
    validateObjectEntry ids path value = [] ↔ Has objectSchema value ∧
      ∀ v, value = some v → ∀ id, objectId v = some id → id ∉ ids := by
  refine expectRecord_with (fun v => ?_) value
  have allocation : ∀ w, validateOptionalObjectAllocation path w = [] ↔ May allocationSchema w := by
    refine whenDefined_nil (expectRecord_has fun u => ?_)
    simp only [List.append_eq_nil_iff, validatePositiveInteger, integerFrom_nil, validateHexAddress_nil, has_iff,
      List.forall_mem_cons, List.not_mem_nil, false_implies, implies_true, and_true]
    tauto
  simp only [List.append_eq_nil_iff, validateObjectId_nil, validateEnum_nil, allocation,
    validateOptionalObjectType, validateOptionalObjectSize, validateOptionalObjectSourceAddress,
    validateOptionalObjectMemory, validateOptionalObjectUnsupported,
    whenDefined_nil (validateNonEmptyString_nil _), whenDefined_nil (validateUnsupported_nil _),
    whenDefined_nil (validateMemoryRange_nil _), whenDefined_nil (validateNonNegativeInteger_nil _),
    whenDefined_nil (validateHexAddress_nil _), has_iff, List.forall_mem_cons, List.not_mem_nil,
    false_implies, implies_true, and_true, objectId, stringOf]
  tauto

theorem validateObjectEntries_nil (i : Nat) (ids : List String) (entries : List Json) :
    validateObjectEntries i ids entries = [] ↔ (∀ v ∈ entries, objectSchema.opened.accepts v = true) ∧
      (entries.filterMap objectId).Nodup ∧ ∀ id ∈ entries.filterMap objectId, id ∉ ids := by
  induction entries generalizing i ids with
  | nil => simp [validateObjectEntries]
  | cons v entries ih =>
    have entry : validateObjectEntry ids (at_ "objects.objects" i) (some v) = [] ↔
        objectSchema.opened.accepts v = true ∧ ∀ id, objectId v = some id → id ∉ ids := by
      rw [validateObjectEntry_nil]
      simp
    unfold validateObjectEntries
    rw [List.append_eq_nil_iff, entry, ih]
    cases found : objectId v with
    | none => simp [found, and_assoc]
    | some id =>
      simp only [List.filterMap_cons, found, forall_eq_or_imp, List.nodup_cons, Option.toList_some,
        List.singleton_append, List.mem_cons, not_or, Option.some.injEq, forall_eq']
      constructor
      · rintro ⟨⟨accepted, first⟩, each, nodup, others⟩
        exact ⟨⟨accepted, each⟩, ⟨fun again => (others id again).1 rfl, nodup⟩, first,
          fun t listed => (others t listed).2⟩
      · rintro ⟨⟨accepted, each⟩, ⟨apart, nodup⟩, first, others⟩
        exact ⟨⟨accepted, first⟩, each, nodup, fun t listed => ⟨fun same => apart (same ▸ listed), others t listed⟩⟩

def UniqueObjectIds (objects : Json) : Prop := (collectObjectIds objects).Nodup

theorem validateObjects_nil (objects : Json) :
    validateObjects objects = [] ↔ objectsSchema.opened.accepts objects = true ∧ UniqueObjectIds objects := by
  have list : ∀ value, expectArray "objects.objects" value (validateObjectEntries 0 []) = [] ↔
      Has (arrayOf objectSchema) value ∧
        ∀ entries, value = some (.array entries) → (entries.filterMap objectId).Nodup := by
    refine expectArray_with fun entries => ?_
    simp [validateObjectEntries_nil]
  have split : validateObjects objects = [] ↔ Has objectsSchema (some objects) ∧
      ∀ v, some objects = some v → ∀ entries, v.get "objects" = some (.array entries) →
        (entries.filterMap objectId).Nodup := by
    refine expectRecord_with (fun v => ?_) (some objects)
    simp only [List.append_eq_nil_iff, validateFormatVersion, const_nil, list, validateUnsupported_nil, has_iff,
      List.forall_mem_cons, List.not_mem_nil, false_implies, implies_true, and_true, formatVersionSchema]
    tauto
  rw [split, has_some]
  refine and_congr_right fun _ => ?_
  simp only [Option.some.injEq, forall_eq', UniqueObjectIds, collectObjectIds]
  constructor
  · intro nodup
    split
    · exact nodup _ ‹_›
    · exact List.nodup_nil
  · intro nodup entries listed
    simpa [listed] using nodup

theorem validateObjectRef_nil (ids : List String) (path : String) (value : Unknown) :
    validateObjectRef ids path value = [] ↔
      Has nonEmpty value ∧ ∀ id, stringOf value = some id → id ∈ ids := by
  unfold validateObjectRef
  rw [List.append_eq_nil_iff, validateNonEmptyString_nil]
  cases found : stringOf value with
  | none => simp
  | some id => simp

/-- The objects that a relocation names are listed. -/
def RefersTo (ids : List String) (relocation : Json) : Prop :=
  ∀ name ∈ ["fromObject", "toObject"], ∀ id, stringOf (relocation.get name) = some id → id ∈ ids

theorem validateRelocationEntry_nil (ids : List String) (path : String) (value : Unknown) :
    validateRelocationEntry ids path value = [] ↔
      Has relocationSchema value ∧ ∀ v, value = some v → RefersTo ids v := by
  refine expectRecord_with (fun v => ?_) value
  simp only [List.append_eq_nil_iff, validateObjectRef_nil, validateNonNegativeInteger_nil,
    validateOptionalRelocationAddend, validateOptionalRelocationKind, validateOptionalRelocationSourcePointer,
    whenDefined_nil (validateInteger_nil _), whenDefined_nil (validateEnum_nil _ _),
    whenDefined_nil (validateHexAddress_nil _), has_iff, List.forall_mem_cons, List.not_mem_nil,
    false_implies, implies_true, and_true, RefersTo]
  tauto

def RefersToListed (relocations objects : Json) : Prop :=
  ∀ entries, relocations.get "relocations" = some (.array entries) →
    ∀ v ∈ entries, RefersTo (collectObjectIds objects) v

theorem validateRelocations_nil (relocations objects : Json) :
    validateRelocations relocations objects = [] ↔
      relocationsSchema.opened.accepts relocations = true ∧ RefersToListed relocations objects := by
  have list : ∀ value, expectArray "relocations.relocations" value
        (forEach "relocations.relocations" (validateRelocationEntry (collectObjectIds objects))) = [] ↔
      Has (arrayOf relocationSchema) value ∧
        ∀ entries, value = some (.array entries) → ∀ v ∈ entries, RefersTo (collectObjectIds objects) v := by
    refine expectArray_with fun entries => ?_
    rw [forEach, forEachFrom_nil fun path v => validateRelocationEntry_nil _ path (some v)]
    simp [forall_and]
  have split : validateRelocations relocations objects = [] ↔ Has relocationsSchema (some relocations) ∧
      ∀ v, some relocations = some v → RefersToListed v objects := by
    refine expectRecord_with (fun v => ?_) (some relocations)
    simp only [List.append_eq_nil_iff, validateFormatVersion, const_nil, list, validateUnsupported_nil, has_iff,
      List.forall_mem_cons, List.not_mem_nil, false_implies, implies_true, and_true, formatVersionSchema,
      RefersToListed]
    tauto
  rw [split, has_some]
  simp

theorem flags_nil (path : String) (value : Unknown) :
    validateStringArray { unique := true } path value = [] ↔
      Has (all [type .array, uniqueItems, items text]) value := by
  refine unique_nil none path value (fun v => ?_)
  simp

theorem strings_nil (path : String) (value : Unknown) :
    validateStringArray {} path value = [] ↔ Has (arrayOf text) value := by
  refine validateStringArray_has path value (fun xs => by simp) (fun v ok => ?_)
  cases v with
  | array items => exact ⟨items, rfl⟩
  | _ => simp [arrayOf, opened, accepts, JsonType.has] at ok

theorem validateResourceEntry_nil (path : String) (value : Unknown) :
    validateResourceEntry path value = [] ↔ Has (resourceSchemaWith text) value := by
  refine expectRecord_has (fun v => ?_) value
  simp only [List.append_eq_nil_iff, validateNonEmptyString_nil, validateEnum_nil, validateOptionalResourcePath,
    validateOptionalResourceFd, validateOptionalResourceFlags, validateOptionalResourceOffset,
    validateOptionalResourceArgv, validateOptionalResourceEnv,
    whenDefined_nil (validateString_nil _), whenDefined_nil (validateNonNegativeInteger_nil _),
    whenDefined_nil (flags_nil _), whenDefined_nil (strings_nil _), whenDefined_nil (validateStringRecord_nil _),
    whenDefined_nil (validateRefusal_nil _), has_iff, List.forall_mem_cons, List.not_mem_nil, false_implies,
    implies_true, and_true]
  tauto

theorem validateResources_nil (resources : Json) :
    validateResources resources = [] ↔ (resourcesSchemaWith text).opened.accepts resources = true := by
  have whole : validateResources resources = [] ↔ Has (resourcesSchemaWith text) (some resources) := by
    refine expectRecord_has (fun v => ?_) (some resources)
    simp only [List.append_eq_nil_iff, validateFormatVersion, const_nil, forEach_has validateResourceEntry_nil,
      validateUnsupported_nil, has_iff, List.forall_mem_cons, List.not_mem_nil, false_implies, implies_true,
      and_true, formatVersionSchema]
    tauto
  rw [whole, has_some]

/-- The strings that the flags of a resource list. -/
def flagsOf (resource : Json) : List Json := ((resource.get "flags").map Json.elements).getD []

def NoEmptyFlag (resources : Json) : Prop :=
  ∀ entries, resources.get "resources" = some (.array entries) → ∀ v ∈ entries, Json.string "" ∉ flagsOf v

theorem accepts_nonEmpty (v : Json) :
    nonEmpty.accepts v = true ↔ text.accepts v = true ∧ v ≠ .string "" := by
  cases v with
  | string s => simp [nonEmpty, text, accepts, JsonType.has, Nat.one_le_iff_ne_zero]
  | _ => simp [nonEmpty, text, accepts, JsonType.has]

theorem opened_nonEmpty : nonEmpty.opened = nonEmpty := rfl

theorem flags_nonEmpty (v : Json) :
    (all [type .array, uniqueItems, items nonEmpty]).opened.accepts v = true ↔
      (all [type .array, uniqueItems, items text]).opened.accepts v = true ∧ Json.string "" ∉ v.elements := by
  have apart : ∀ xs : List Json, (∀ x ∈ xs, text.accepts x = true ∧ x ≠ .string "") ↔
      (∀ x ∈ xs, text.accepts x = true) ∧ Json.string "" ∉ xs := by
    intro xs
    rw [forall₂_and]
    exact and_congr_right fun _ => ⟨fun ne mem => ne _ mem rfl, fun not x mem same => not (same ▸ mem)⟩
  simp only [opened_all, accepts_all, List.map_cons, List.map_nil, List.all_cons, List.all_nil, opened,
    Bool.and_true, Bool.and_eq_true, opened_text, opened_nonEmpty, and_assoc]
  refine and_congr_right fun _ => and_congr_right fun _ => ?_
  simpa only [accepts, List.all_eq_true, accepts_nonEmpty] using apart v.elements

theorem resource_nonEmpty (v : Json) :
    (resourceSchemaWith nonEmpty).opened.accepts v = true ↔
      (resourceSchemaWith text).opened.accepts v = true ∧ Json.string "" ∉ flagsOf v := by
  have flags : (v.get "flags").all (all [type .array, uniqueItems, items nonEmpty]).opened.accepts = true ↔
      (v.get "flags").all (all [type .array, uniqueItems, items text]).opened.accepts = true ∧
        Json.string "" ∉ flagsOf v := by
    unfold flagsOf
    cases v.get "flags" with
    | none => simp
    | some w => simpa using flags_nonEmpty w
  unfold resourceSchemaWith
  simp only [accepts_object_opened, List.forall_mem_cons, flags]
  tauto

theorem resources_nonEmpty (v : Json) :
    resourcesSchema.opened.accepts v = true ↔
      (resourcesSchemaWith text).opened.accepts v = true ∧ NoEmptyFlag v := by
  have list : (v.get "resources").all (arrayOf (resourceSchemaWith nonEmpty)).opened.accepts = true ↔
      (v.get "resources").all (arrayOf (resourceSchemaWith text)).opened.accepts = true ∧ NoEmptyFlag v := by
    unfold NoEmptyFlag
    cases found : v.get "resources" with
    | none => simp
    | some w =>
      cases w with
      | array xs => simp [resource_nonEmpty, forall_and]
      | _ => simp [arrayOf, opened, accepts, JsonType.has]
  unfold resourcesSchema resourcesSchemaWith
  simp only [accepts_object_opened, List.forall_mem_cons, list]
  tauto

def Fits (docs : PortableSnapshotDocuments) : Prop :=
  manifestSchema.accepts docs.manifest = true ∧ objectsSchema.accepts docs.objects = true ∧
    relocationsSchema.accepts docs.relocations = true ∧ resourcesSchema.accepts docs.resources = true

/-- The fields that the schemas list are as they say, a flag of a resource being any string. -/
def FitsListed (docs : PortableSnapshotDocuments) : Prop :=
  manifestSchema.opened.accepts docs.manifest = true ∧ objectsSchema.opened.accepts docs.objects = true ∧
    relocationsSchema.opened.accepts docs.relocations = true ∧
    (resourcesSchemaWith text).opened.accepts docs.resources = true

/-- No object of the documents has a field that its schema does not list. -/
def NothingUnlisted (docs : PortableSnapshotDocuments) : Prop :=
  manifestSchema.closed docs.manifest = true ∧ objectsSchema.closed docs.objects = true ∧
    relocationsSchema.closed docs.relocations = true ∧ resourcesSchema.closed docs.resources = true

def Linked (docs : PortableSnapshotDocuments) : Prop :=
  UniqueObjectIds docs.objects ∧ RefersToListed docs.relocations docs.objects

theorem validate_nil (docs : PortableSnapshotDocuments) :
    validatePortableSnapshotDocuments docs = [] ↔
      FitsListed docs ∧ Linked docs ∧ NamesCheckpointFunction docs.manifest := by
  unfold validatePortableSnapshotDocuments FitsListed Linked
  simp only [List.append_eq_nil_iff, validateManifest_nil, validateObjects_nil, validateRelocations_nil,
    validateResources_nil]
  tauto

theorem fits_iff (docs : PortableSnapshotDocuments) :
    Fits docs ↔ FitsListed docs ∧ NothingUnlisted docs ∧ NoEmptyFlag docs.resources := by
  unfold Fits FitsListed NothingUnlisted
  rw [accepts_eq manifestSchema, accepts_eq objectsSchema, accepts_eq relocationsSchema,
    accepts_eq resourcesSchema]
  simp only [Bool.and_eq_true, resources_nonEmpty]
  tauto

/-- No errors only for documents that satisfy their schemas, and none whenever they do and are linked. -/
def Enforced (docs : PortableSnapshotDocuments) : Prop :=
  (validatePortableSnapshotDocuments docs = [] → Fits docs) ∧
    (Fits docs → Linked docs → validatePortableSnapshotDocuments docs = [])

theorem enforced_iff (docs : PortableSnapshotDocuments) :
    Enforced docs ↔ (FitsListed docs → Linked docs →
      (NamesCheckpointFunction docs.manifest ↔ NothingUnlisted docs ∧ NoEmptyFlag docs.resources)) := by
  unfold Enforced
  rw [validate_nil, fits_iff]
  tauto

end Machinen.Portable
