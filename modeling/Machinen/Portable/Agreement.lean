import Machinen.Portable.Fields

/-! What the checks of a portable snapshot establish, document by document, against its schemas. -/
namespace Machinen.Portable

open Schema

theorem has_iff (s : Schema) (value : Unknown) : Has s value ↔ value.isSome = true ∧ May s value := Iff.rfl

theorem type_nil (t : JsonType) (error : String) (value : Unknown) :
    report (value.any t.has) error = [] ↔ Has (type t) value := by
  cases value <;> simp [Schema.opened, accepts]

theorem validateSymbolObject_nil (path : String) (value : Unknown) :
    validateSymbolObject path value = [] ↔ Has symbolSchema value := by
  refine expectRecord_has (fun v => ?_) value
  simp only [validateSymbolName, matching_nil, has_iff, List.forall_mem_cons, List.not_mem_nil,
    false_implies, implies_true, and_true]

theorem validateRefusal_nil (path : String) (value : Unknown) :
    validateRefusal path value = [] ↔ Has refusalSchema value := by
  refine expectRecord_has (fun v => ?_) value
  simp only [List.append_eq_nil_iff, validateEnum_nil, validateNonEmptyString_nil,
    whenDefined_nil (fun w => type_nil .object _ w), has_iff, List.forall_mem_cons, List.not_mem_nil,
    false_implies, implies_true, and_true]
  tauto

theorem validateUnsupported_nil (path : String) (value : Unknown) :
    validateUnsupported path value = [] ↔ Has unsupportedSchema value := by
  refine expectRecord_has (fun v => ?_) value
  simp only [List.append_eq_nil_iff, const_nil, forEach_has validateRefusal_nil, has_iff,
    List.forall_mem_cons, List.not_mem_nil, false_implies, implies_true, and_true]
  tauto

theorem validateMemoryRange_nil (path : String) (value : Unknown) :
    validateMemoryRange path value = [] ↔ Has memorySchema value := by
  refine expectRecord_has (fun v => ?_) value
  simp only [List.append_eq_nil_iff, validateNonNegativeInteger_nil, has_iff,
    List.forall_mem_cons, List.not_mem_nil, false_implies, implies_true, and_true]
  tauto

theorem validateStringRecord_nil (path : String) (value : Unknown) :
    validateStringRecord path value = [] ↔ Has envSchema value := by
  unfold validateStringRecord
  rw [expectRecord_nil]
  cases value with
  | none => simp
  | some v =>
    rw [has_some]
    cases v with
    | object fields =>
      simp only [List.flatMap_eq_nil_iff, report_nil]
      constructor
      · rintro ⟨fields', same, strings⟩
        cases same
        simp only [envSchema, object, Schema.opened, opened_all, accepts_all, text, accepts, JsonType.has,
          Json.entries, List.map_nil, List.map_cons, List.all_cons, List.all_nil, Bool.and_true, Bool.true_and,
          List.all_eq_true, List.contains_nil, Bool.false_or]
        intro e listed
        obtain ⟨s, is⟩ := Option.isSome_iff_exists.mp (strings e listed)
        rw [Json.string?_eq_some.mp is]
      · intro ok
        refine ⟨fields, rfl, fun e listed => ?_⟩
        simp only [envSchema, object, Schema.opened, opened_all, accepts_all, text, accepts, JsonType.has,
          Json.entries, List.map_nil, List.map_cons, List.all_cons, List.all_nil, Bool.and_true, Bool.true_and,
          List.all_eq_true, List.contains_nil, Bool.false_or] at ok
        have is := ok e listed
        cases found : e.2 with
        | string s => rfl
        | _ => simp [found] at is
    | _ => simp [envSchema, object, Schema.opened, accepts, JsonType.has]

def Strings (items : List Json) : Prop := ∀ v ∈ items, ∃ s, v = .string s

theorem unique_strings {items : List Json} (strings : Strings items) :
    uniqueItems.accepts (.array items) = true ↔ (items.filterMap Json.string?).Nodup := by
  simp only [accepts, decide_eq_true_eq]
  induction items with
  | nil => simp
  | cons v items ih =>
    obtain ⟨s, rfl⟩ := strings v List.mem_cons_self
    have rest := ih fun w listed => strings w (List.mem_cons_of_mem _ listed)
    simp only [List.pairwise_cons, List.filterMap_cons, Json.string?, List.nodup_cons, rest,
      Json.same_string, List.mem_filterMap, not_exists, not_and]
    simp

theorem validateStringArrayItems_nil (path : String) (opts : StringArrayOptions) (i : Nat)
    (seen : List String) (items : List Json) :
    validateStringArrayItems path opts i seen items = [] ↔
      (∀ v ∈ items, ∃ s, v = .string s ∧ opts.pattern.all (fun test => test s) = true) ∧
      (opts.unique = true → (items.filterMap Json.string?).Nodup ∧
        ∀ s ∈ items.filterMap Json.string?, s ∉ seen) := by
  induction items generalizing i seen with
  | nil => simp [validateStringArrayItems]
  | cons v items ih =>
    unfold validateStringArrayItems
    cases v with
    | string s =>
      have shape : validateStringArrayPattern (at_ path i) s opts.pattern = [] ↔
          opts.pattern.all (fun test => test s) = true := by
        cases found : opts.pattern <;> simp [validateStringArrayPattern]
      have fresh : validateStringArrayUnique path s opts.unique seen = [] ↔
          (opts.unique = true → s ∉ seen) := by
        cases found : opts.unique <;> simp [validateStringArrayUnique]
      simp only [Json.string?, List.append_eq_nil_iff, shape, fresh, ih, forall_eq_or_imp,
        List.filterMap_cons, List.nodup_cons, List.mem_cons, not_or]
      constructor
      · rintro ⟨⟨ok, first⟩, all, later⟩
        refine ⟨⟨⟨s, rfl, ok⟩, all⟩, fun unique => ?_⟩
        obtain ⟨nodup, others⟩ := later unique
        exact ⟨⟨fun again => (others s again).1 rfl, nodup⟩, first unique, fun t listed => (others t listed).2⟩
      · rintro ⟨⟨⟨t, same, ok⟩, all⟩, later⟩
        cases same
        refine ⟨⟨ok, fun unique => (later unique).2.1⟩, all, fun unique => ?_⟩
        obtain ⟨⟨apart, nodup⟩, first, others⟩ := later unique
        exact ⟨nodup, fun t listed => ⟨fun same => apart (same ▸ listed), others t listed⟩⟩
    | _ => simp [Json.string?]

theorem validateStringArray_nil (opts : StringArrayOptions) (path : String) (value : Unknown) :
    validateStringArray opts path value = [] ↔ ∃ items, value = some (.array items) ∧
      (opts.minItems.all fun least => decide (least ≤ items.length)) = true ∧
      (∀ v ∈ items, ∃ s, v = .string s ∧ opts.pattern.all (fun test => test s) = true) ∧
      (opts.unique = true → (items.filterMap Json.string?).Nodup) := by
  have least : ∀ items : List Json, validateArrayMinItems path items opts.minItems = [] ↔
      (opts.minItems.all fun least => decide (least ≤ items.length)) = true := by
    intro items
    cases found : opts.minItems <;> simp [validateArrayMinItems]
  unfold validateStringArray
  rw [expectArray_nil]
  simp [least, validateStringArrayItems_nil]

/-- An array of strings that are told apart. -/
theorem validateStringArray_has {opts : StringArrayOptions} {s : Schema} (path : String) (value : Unknown)
    (strings : ∀ items, s.opened.accepts (.array items) = true ↔
      (opts.minItems.all fun least => decide (least ≤ items.length)) = true ∧
      (∀ v ∈ items, ∃ s, v = .string s ∧ opts.pattern.all (fun test => test s) = true) ∧
      (opts.unique = true → (items.filterMap Json.string?).Nodup))
    (arrays : ∀ v, s.opened.accepts v = true → ∃ items, v = .array items) :
    validateStringArray opts path value = [] ↔ Has s value := by
  rw [validateStringArray_nil]
  cases value with
  | none => simp
  | some v =>
    rw [has_some]
    constructor
    · rintro ⟨items, same, ok⟩
      cases same
      exact (strings items).mpr ok
    · intro ok
      obtain ⟨items, rfl⟩ := arrays v ok
      exact ⟨items, rfl, (strings items).mp ok⟩

theorem validateTargetArchItems_nil (i : Nat) (seen : List String) (arches : List Json) :
    validateTargetArchItems i seen arches = [] ↔
      (∀ v ∈ arches, (oneOf PORTABLE_GUEST_ARCHES).accepts v = true) ∧
      (arches.filterMap Json.string?).Nodup ∧ ∀ s ∈ arches.filterMap Json.string?, s ∉ seen := by
  induction arches generalizing i seen with
  | nil => simp [validateTargetArchItems]
  | cons v arches ih =>
    have enum : validateArch (at_ "manifest.allowedTargetGuestArchs" i) (some v) = [] ↔
        (oneOf PORTABLE_GUEST_ARCHES).accepts v = true :=
      (validateEnum_nil _ _ _).trans (has_some _ _)
    unfold validateTargetArchItems
    rw [List.append_eq_nil_iff, enum, List.forall_mem_cons, and_assoc]
    refine and_congr_right fun listed => ?_
    obtain ⟨s, -, rfl⟩ := (accepts_oneOf _ _).mp listed
    simp only [Json.string?, List.append_eq_nil_iff, report_nil, ih, List.filterMap_cons, List.nodup_cons,
      forall_eq_or_imp, List.mem_cons, not_or]
    constructor
    · rintro ⟨first, each, nodup, others⟩
      exact ⟨each, ⟨fun again => (others s again).1 rfl, nodup⟩, by simpa using first,
        fun t listed => (others t listed).2⟩
    · rintro ⟨each, ⟨apart, nodup⟩, first, others⟩
      exact ⟨by simpa using first, each, nodup, fun t listed => ⟨fun same => apart (same ▸ listed), others t listed⟩⟩

theorem validateAllowedTargetArchs_nil (value : Unknown) :
    validateAllowedTargetArchs value = [] ↔
      Has (all [type .array, minItems 1, uniqueItems, items (oneOf PORTABLE_GUEST_ARCHES)]) value := by
  unfold validateAllowedTargetArchs
  rw [expectArray_nil]
  have known : (oneOf PORTABLE_GUEST_ARCHES).opened = oneOf PORTABLE_GUEST_ARCHES := rfl
  have strings : ∀ arches : List Json, (∀ v ∈ arches, (oneOf PORTABLE_GUEST_ARCHES).accepts v = true) →
      Strings arches := by
    intro arches listed v mem
    obtain ⟨s, -, is⟩ := (accepts_oneOf _ _).mp (listed v mem)
    exact ⟨s, is⟩
  have each : ∀ arches : List Json,
      report (decide (arches.length ≠ 0))
          "manifest.allowedTargetGuestArchs must contain at least one architecture" ++
        validateTargetArchItems 0 [] arches = [] ↔
      (all [type .array, minItems 1, uniqueItems, items (oneOf PORTABLE_GUEST_ARCHES)]).opened.accepts
        (.array arches) = true := by
    intro arches
    simp only [List.append_eq_nil_iff, report_nil, validateTargetArchItems_nil, opened_all, accepts_all,
      List.map_cons, List.map_nil, List.all_cons, List.all_nil, opened, known, Bool.and_true,
      Bool.and_eq_true, List.not_mem_nil, not_false_eq_true, implies_true, and_true, decide_eq_true_eq]
    constructor
    · rintro ⟨some, listed, nodup⟩
      exact ⟨rfl, by simp [accepts]; omega, (unique_strings (strings arches listed)).mpr nodup,
        by simpa [accepts, Json.elements] using listed⟩
    · rintro ⟨-, some, unique, listed⟩
      have listed' : ∀ v ∈ arches, (oneOf PORTABLE_GUEST_ARCHES).accepts v = true := by
        simpa [accepts, Json.elements] using listed
      refine ⟨?_, listed', (unique_strings (strings arches listed')).mp unique⟩
      simp [accepts] at some
      omega
  cases value with
  | none => simp
  | some v =>
    rw [has_some]
    constructor
    · rintro ⟨arches, same, none⟩
      cases same
      exact (each arches).mp none
    · intro ok
      cases v with
      | array arches => exact ⟨arches, rfl, (each arches).mpr ok⟩
      | _ => simp [opened, accepts, JsonType.has] at ok

theorem validateProgram_nil (value : Unknown) : validateProgram value = [] ↔ Has programSchema value := by
  refine expectRecord_has (fun v => ?_) value
  simp only [List.append_eq_nil_iff, validateNonEmptyString_nil,
    whenDefined_nil (validateNonEmptyString_nil _), has_iff, List.forall_mem_cons, List.not_mem_nil,
    false_implies, implies_true, and_true]
  tauto

theorem validateSourceBuild_nil (value : Unknown) :
    validateSourceBuild value = [] ↔ Has sourceBuildSchema value := by
  refine expectRecord_has (fun v => ?_) value
  simp only [List.append_eq_nil_iff, validateBuildId, matching_nil,
    whenDefined_nil (validateNonEmptyString_nil _), has_iff, List.forall_mem_cons, List.not_mem_nil,
    false_implies, implies_true, and_true, buildIdSchema]
  tauto

theorem validateTargetBuild_nil (value : Unknown) :
    validateTargetBuild value = [] ↔ Has targetBuildSchema value := by
  have builds : ∀ v, whenDefined (validateBuildId "manifest.targetBuild.buildId") v = [] ↔ May buildIdSchema v :=
    whenDefined_nil fun v => matching_nil _ _ v
  have split : validateTargetBuild value = [] ↔
      Has (object [] [("buildId", buildIdSchema), ("version", nonEmpty)] never) value ∧
        ∀ v, value = some v → ((v.get "buildId").isSome || (v.get "version").isSome) = true := by
    refine expectRecord_with (fun v => ?_) value
    simp only [List.append_eq_nil_iff, report_nil, builds, whenDefined_nil (validateNonEmptyString_nil _),
      List.forall_mem_cons, List.not_mem_nil, false_implies, implies_true, and_true, true_and]
    tauto
  rw [split]
  cases value with
  | none => simp
  | some v =>
    simp only [has_some, targetBuildSchema, opened, accepts, Bool.and_eq_true, Option.some.injEq, forall_eq']
    refine and_congr_right fun record => ?_
    obtain ⟨⟨fields, rfl⟩, -⟩ := (accepts_object_opened _ _ _).mp record
    simp [anyOf, opened, accepts, Json.get]

theorem validateCheckpointSafePoint_nil (value : Unknown) :
    validateCheckpointSafePoint value = [] ↔ Has safePointSchema value := by
  refine expectRecord_has (fun v => ?_) value
  simp only [List.append_eq_nil_iff, const_nil, has_iff, List.forall_mem_cons, List.not_mem_nil,
    false_implies, implies_true, and_true]
  tauto

theorem validateCheckpointAbi_nil (value : Unknown) :
    validateCheckpointAbi value = [] ↔ Has checkpointAbiSchema value ∧
      ∀ v, value = some v → namesCheckpointFunction (v.get "checkpointFunction") = true := by
  refine expectRecord_with (fun v => ?_) value
  have named : ∀ error, report (namesCheckpointFunction (v.get "checkpointFunction")) error = [] ↔
      namesCheckpointFunction (v.get "checkpointFunction") = true := fun _ => report_nil
  simp only [List.append_eq_nil_iff, const_nil, named, validateSymbolObject_nil,
    validateCheckpointSafePoint_nil, has_iff, List.forall_mem_cons, List.not_mem_nil, false_implies,
    implies_true, and_true]
  tauto

theorem argv_nil (path : String) (value : Unknown) :
    validateStringArray { minItems := some 1 } path value = [] ↔ Has (both (arrayOf text) (minItems 1)) value := by
  refine validateStringArray_has path value (fun items => ?_) (fun v ok => ?_)
  · simp only [opened, accepts, Bool.and_eq_true, accepts_arrayOf_opened]
    simp [and_comm]
  · cases v with
    | array items => exact ⟨items, rfl⟩
    | _ => simp [arrayOf, opened, accepts, JsonType.has] at ok

theorem validateProcess_nil (value : Unknown) : validateProcess value = [] ↔ Has processSchema value := by
  refine expectRecord_has (fun v => ?_) value
  have first : Has (both (arrayOf text) (minItems 1)) (v.get "argv") → requireArgv0 (v.get "argv") = [] := by
    intro ok
    obtain ⟨items, is, some, strings, -⟩ := (validateStringArray_nil _ "" _).mp ((argv_nil "" _).mpr ok)
    rw [is]
    cases items with
    | nil => simp at some
    | cons w items =>
      obtain ⟨s, rfl, -⟩ := strings w List.mem_cons_self
      simp [requireArgv0, Json.string?]
  simp only [has_iff] at first
  simp only [List.append_eq_nil_iff, argv_nil, validateStringRecord_nil, validateAbsolutePath, matching_nil,
    has_iff, List.forall_mem_cons, List.not_mem_nil, false_implies, implies_true, and_true]
  tauto

/-- The arrays of strings that are told apart, with or without a pattern. -/
theorem unique_nil {item : Schema} (pattern : Option (String → Bool)) (path : String) (value : Unknown)
    (items_ : ∀ v, item.opened.accepts v = true ↔
      ∃ s, v = .string s ∧ pattern.all (fun test => test s) = true) :
    validateStringArray { unique := true, pattern := pattern } path value = [] ↔
      Has (all [type .array, uniqueItems, items item]) value := by
  refine validateStringArray_has path value (fun xs => ?_) (fun v ok => ?_)
  · simp only [opened_all, accepts_all, List.map_cons, List.map_nil, List.all_cons, List.all_nil, opened,
      Bool.and_true, Bool.and_eq_true]
    simp only [accepts, Json.elements, JsonType.has, List.all_eq_true, items_]
    constructor
    · rintro ⟨-, unique, each⟩
      have strings : Strings xs := fun v mem => (each v mem).imp fun s is => is.1
      exact ⟨rfl, each, fun _ => (unique_strings strings).mp unique⟩
    · rintro ⟨-, each, unique⟩
      have strings : Strings xs := fun v mem => (each v mem).imp fun s is => is.1
      exact ⟨trivial, (unique_strings strings).mpr (unique trivial), each⟩
  · cases v with
    | array items => exact ⟨items, rfl⟩
    | _ => simp [opened, accepts, JsonType.has] at ok

theorem features_nil (path : String) (value : Unknown) :
    validateStringArray { unique := true, pattern := some featurePattern } path value = [] ↔
      Has (all [type .array, uniqueItems, items (matching featurePattern)]) value := by
  refine unique_nil (some featurePattern) path value (fun v => ?_)
  cases v <;> simp [matching, text, opened, accepts, JsonType.has]

/-- The manifest names the published checkpoint function. -/
def NamesCheckpointFunction (manifest : Json) : Prop :=
  namesCheckpointFunction ((manifest.get "checkpointAbi").bind fun abi => abi.get "checkpointFunction") = true

theorem validateManifest_nil (manifest : Json) :
    validateManifest manifest = [] ↔
      manifestSchema.opened.accepts manifest = true ∧ NamesCheckpointFunction manifest := by
  have split : validateManifest manifest = [] ↔ Has manifestSchema (some manifest) ∧
      ∀ v, some manifest = some v → ∀ abi, v.get "checkpointAbi" = some abi →
        namesCheckpointFunction (abi.get "checkpointFunction") = true := by
    refine expectRecord_with (fun v => ?_) (some manifest)
    simp only [List.append_eq_nil_iff, validateFormatVersion, const_nil, validateArch, validateEnum_nil,
      validateAllowedTargetArchs_nil, validateProgram_nil, validateSourceBuild_nil, validateTargetBuild_nil,
      validateCheckpointAbi_nil, validateSymbolObject_nil, validateProcess_nil, features_nil,
      validateUnsupported_nil, has_iff, List.forall_mem_cons, List.not_mem_nil, false_implies, implies_true,
      and_true, formatVersionSchema]
    tauto
  rw [split, has_some]
  refine and_congr_right fun accepted => ?_
  obtain ⟨-, present, -⟩ := (accepts_object_opened _ _ _).mp accepted
  obtain ⟨abi, is⟩ := Option.isSome_iff_exists.mp (present "checkpointAbi" (by simp))
  simp [NamesCheckpointFunction, is]

end Machinen.Portable
