import Hosting.Proofs.Instant.Text
import Hosting.Proofs.Json.Decode
import Hosting.Resource.AddOn
import Hosting.Resource.ManagedCluster
import Hosting.Resource.Secret

/-!
# Records that are written and read

A record that has been read holds only instants and numbers that can be told (`Valid`).  What
is written of such a record is read as the record itself, but for the times in its metadata,
which are written in whole seconds (`kept`).  For each record this follows from its fields.
-/

namespace Hosting

open Json

variable {v : Json}

/-! ## Instants and numbers -/

namespace Instant

variable {o : Option Instant} {s : Option Json}

theorem optional_exactText (h : ∀ t ∈ o, t.Valid) :
    optional (fun v => (asString v).bind read?) (o.map fun t => .string t.exactText) = some o := by
  refine optional_map_self (fun _ h => nomatch h) fun t ht => ?_
  rw [asString_string, Option.bind_some, read?_exactText (h t ht)]

theorem optional_secondsText (h : ∀ t ∈ o, t.Valid) :
    optional ofJson? (o.map fun t => .string t.secondsText) = some (o.map truncated) := by
  refine optional_map (fun _ h => nomatch h) fun t ht => ?_
  show (asString (.string t.secondsText)).bind read? = _
  rw [asString_string, Option.bind_some, read?_secondsText (h t ht)]

theorem valid_of_optional (h : optional (fun v => (asString v).bind read?) s = some o) :
    ∀ t ∈ o, t.Valid := by
  refine of_optional (fun v t ht => ?_) h
  obtain ⟨text, -, ht⟩ := Option.bind_eq_some_iff.mp ht
  exact valid_of_read? ht

/-- A time that is missing is written like one that is told in whole seconds. -/
theorem map_secondsText_truncated (o : Option Instant) :
    (o.map truncated).map (fun t => Json.string t.secondsText) =
      o.map fun t => .string t.secondsText := by
  simp [Function.comp_def, secondsText_truncated]

end Instant

namespace Json

theorem optional_string (o : Option String) : optional asString (o.map .string) = some o :=
  optional_map_self (fun _ h => nomatch h) fun _ _ => rfl

theorem optional_bool (o : Option Bool) : optional asBool (o.map .bool) = some o :=
  optional_map_self (fun _ h => nomatch h) fun _ _ => rfl

theorem optional_table (o : Option (Table String String)) :
    optional (asTable asString) (o.map ofTable) = some o :=
  optional_map_self (fun _ h => nomatch h) fun _ _ => asTable_map fun _ => rfl

def IsInt32 (n : Int) : Prop := -2147483648 ≤ n ∧ n ≤ 2147483647

instance (n : Int) : Decidable (IsInt32 n) := inferInstanceAs (Decidable (_ ∧ _))

def IsInt64 (n : Int) : Prop := -9223372036854775808 ≤ n ∧ n ≤ 9223372036854775807

theorem asInt32_int {n : Int} (h : IsInt32 n) : asInt32 (.int n) = some n := asInt_int h

theorem optional_int32 {o : Option Int} (h : ∀ n ∈ o, IsInt32 n) :
    optional asInt32 (o.map .int) = some o :=
  optional_map_self (fun _ h => nomatch h) fun n hn => asInt_int (h n hn)

theorem optional_int64 {o : Option Int} (h : ∀ n ∈ o, IsInt64 n) :
    optional asInt64 (o.map .int) = some o :=
  optional_map_self (fun _ h => nomatch h) fun n hn => asInt_int (h n hn)

end Json

/-! ## Conditions -/

theorem Verdict.read_text (v : Verdict) : asChoice text all (.string v.text) = some v := by
  cases v <;> rfl

namespace Condition

variable {c : Condition}

/-- The condition has a time that can be told, if any. -/
def Valid (c : Condition) : Prop := ∀ t ∈ c.lastTransition, t.Valid

theorem ofJson?_toJson (h : c.Valid) : ofJson? c.toJson = some c := by
  unfold ofJson? toJson
  refine (bind_slots? (by rfl) (by decide)).trans ?_
  simp [Verdict.read_text, Instant.optional_exactText h]

theorem valid_of_ofJson? (h : ofJson? v = some c) : c.Valid := by
  obtain ⟨slots, -, h⟩ := Option.bind_eq_some_iff.mp h
  split at h
  · simp only [Option.bind_eq_bind, Option.bind_eq_some_iff, Option.some.injEq] at h
    obtain ⟨type, -, status, -, reason, -, message, -, time, htime, rfl⟩ := h
    exact Instant.valid_of_optional htime
  · cases h

end Condition

namespace Conditions

variable {cs : Conditions}

def Valid (cs : Conditions) : Prop := ∀ c ∈ cs, c.Valid

theorem ofJson?_toJson (h : cs.Valid) : ofJson? cs.toJson = some cs :=
  asList_map fun c hc => Condition.ofJson?_toJson (h c hc)

theorem valid_of_ofJson? (h : ofJson? v = some cs) : cs.Valid :=
  of_asList (fun _ _ => Condition.valid_of_ofJson?) h

theorem valid_nil : Valid [] := fun _ h => nomatch h

end Conditions

/-! ## Metadata -/

theorem OwnerReference.ofJson?_toJson (r : OwnerReference) : ofJson? r.toJson = some r := by
  have htext (s : String) : optional asString (some (.string s)) = some (some s) :=
    optional_string (some s)
  unfold ofJson? toJson
  refine (bind_members? (by rfl) (by decide)).trans ?_
  simp [htext, optional_bool]

namespace ManagedFields

variable {f : ManagedFields}

/-- The time can be told, and members that are `null` count as missing. -/
structure Valid (f : ManagedFields) : Prop where
  time : ∀ t ∈ f.time, t.Valid
  fieldsV1 : f.fieldsV1 ≠ some .null

/-- What writing keeps: all but the fraction of the time. -/
def kept (f : ManagedFields) : ManagedFields := { f with time := f.time.map Instant.truncated }

theorem ofJson?_toJson (h : f.Valid) : ofJson? f.toJson = some f.kept := by
  have hfields : optional some f.fieldsV1 = some f.fieldsV1 := by
    cases hv : f.fieldsV1 with
    | none => rfl
    | some v =>
      have hnull : v ≠ .null := fun he => h.fieldsV1 (hv.trans (congrArg some he))
      rw [optional_some hnull]
      rfl
  unfold ofJson? toJson
  refine (bind_members? (by rfl) (by decide)).trans ?_
  simp [optional_string, Instant.optional_secondsText h.time, hfields, kept]

theorem valid_of_ofJson? (h : ofJson? v = some f) : f.Valid := by
  obtain ⟨slots, -, h⟩ := Option.bind_eq_some_iff.mp h
  split at h
  · simp only [Option.bind_eq_bind, Option.bind_eq_some_iff, Option.some.injEq] at h
    obtain ⟨manager, -, operation, -, version, -, time, htime, type, -, fields, hfields,
      subresource, -, rfl⟩ := h
    refine ⟨Instant.valid_of_optional htime, ?_⟩
    rintro (rfl : fields = some .null)
    exact ne_null_of_optional hfields rfl
  · cases h

theorem toJson_kept (f : ManagedFields) : f.kept.toJson = f.toJson := by
  unfold toJson kept
  rw [Instant.map_secondsText_truncated]

end ManagedFields

namespace Metadata

variable {m : Metadata}

structure Valid (m : Metadata) : Prop where
  managedFields : ∀ fs ∈ m.managedFields, ∀ f ∈ fs, f.Valid
  generation : ∀ n ∈ m.generation, IsInt64 n
  creationTimestamp : ∀ t ∈ m.creationTimestamp, t.Valid
  deletionTimestamp : ∀ t ∈ m.deletionTimestamp, t.Valid
  deletionGracePeriodSeconds : ∀ n ∈ m.deletionGracePeriodSeconds, IsInt64 n

/-- What writing keeps: all but the fractions of the times. -/
def kept (m : Metadata) : Metadata :=
  { m with
    managedFields := m.managedFields.map fun fs => fs.map ManagedFields.kept
    creationTimestamp := m.creationTimestamp.map Instant.truncated
    deletionTimestamp := m.deletionTimestamp.map Instant.truncated }

theorem ofJson?_toJson (h : m.Valid) : ofJson? m.toJson = some m.kept := by
  have hfinalizers : optional (asList asString)
      (m.finalizers.map fun fs => .array (fs.map .string)) = some m.finalizers :=
    optional_map_self (fun _ h => nomatch h) fun _ _ => asList_map fun _ _ => rfl
  have howners : optional (asList OwnerReference.ofJson?)
      (m.ownerReferences.map fun rs => .array (rs.map OwnerReference.toJson)) =
        some m.ownerReferences :=
    optional_map_self (fun _ h => nomatch h) fun _ _ => asList_map fun r _ => r.ofJson?_toJson
  have hmanaged : optional (asList ManagedFields.ofJson?)
      (m.managedFields.map fun fs => .array (fs.map ManagedFields.toJson)) =
        some (m.managedFields.map fun fs => fs.map ManagedFields.kept) :=
    optional_map (fun _ h => nomatch h) fun fs hfs =>
      asList_map_of fun f hf => ManagedFields.ofJson?_toJson (h.managedFields fs hfs f hf)
  unfold ofJson? toJson fieldNames
  refine (bind_members? (by rfl) (by decide)).trans ?_
  simp [optional_string, optional_table, hfinalizers, howners, hmanaged,
    optional_int64 h.generation, Instant.optional_secondsText h.creationTimestamp,
    Instant.optional_secondsText h.deletionTimestamp,
    optional_int64 h.deletionGracePeriodSeconds, kept]

/-- The metadata are what is read of the members that `g` finds. -/
structure ReadFrom (m : Metadata) (g : String → Option Json) : Prop where
  name : optional asString (g "name") = some m.name
  generateName : optional asString (g "generateName") = some m.generateName
  nspace : optional asString (g "namespace") = some m.nspace
  labels : optional (asTable asString) (g "labels") = some m.labels
  annotations : optional (asTable asString) (g "annotations") = some m.annotations
  finalizers : optional (asList asString) (g "finalizers") = some m.finalizers
  ownerReferences : optional (asList OwnerReference.ofJson?) (g "ownerReferences") =
    some m.ownerReferences
  managedFields : optional (asList ManagedFields.ofJson?) (g "managedFields") =
    some m.managedFields
  resourceVersion : optional asString (g "resourceVersion") = some m.resourceVersion
  uid : optional asString (g "uid") = some m.uid
  selfLink : optional asString (g "selfLink") = some m.selfLink
  generation : optional asInt64 (g "generation") = some m.generation
  creationTimestamp : optional Instant.ofJson? (g "creationTimestamp") = some m.creationTimestamp
  deletionTimestamp : optional Instant.ofJson? (g "deletionTimestamp") = some m.deletionTimestamp
  deletionGracePeriodSeconds : optional asInt64 (g "deletionGracePeriodSeconds") =
    some m.deletionGracePeriodSeconds

theorem ofJson?_object_iff {ms : List (String × Json)} :
    ofJson? (.object ms) = some m ↔ m.ReadFrom (Json.object ms).member? := by
  -- From the outside, or every read would be gone through anew for each one before it.
  dsimp only [ofJson?, members?, fieldNames, List.map, Option.bind_eq_bind, Option.bind_some]
  simp only [↓Option.bind_eq_some_iff, Option.some.injEq]
  constructor
  · rintro ⟨_, h1, _, h2, _, h3, _, h4, _, h5, _, h6, _, h7, _, h8, _, h9, _, h10, _, h11, _, h12,
      _, h13, _, h14, _, h15, rfl⟩
    exact ⟨h1, h2, h3, h4, h5, h6, h7, h8, h9, h10, h11, h12, h13, h14, h15⟩
  · rintro ⟨h1, h2, h3, h4, h5, h6, h7, h8, h9, h10, h11, h12, h13, h14, h15⟩
    exact ⟨_, h1, _, h2, _, h3, _, h4, _, h5, _, h6, _, h7, _, h8, _, h9, _, h10, _, h11, _, h12,
      _, h13, _, h14, _, h15, rfl⟩

theorem valid_of_ofJson? (h : ofJson? v = some m) : m.Valid := by
  cases v with
  | object ms =>
    have hread := ofJson?_object_iff.mp h
    exact {
      managedFields := of_optional
        (fun _ _ => of_asList fun _ _ => ManagedFields.valid_of_ofJson?) hread.managedFields
      generation := of_optional (fun _ _ => range_of_asInt) hread.generation
      creationTimestamp := Instant.valid_of_optional hread.creationTimestamp
      deletionTimestamp := Instant.valid_of_optional hread.deletionTimestamp
      deletionGracePeriodSeconds :=
        of_optional (fun _ _ => range_of_asInt) hread.deletionGracePeriodSeconds }
  | _ => cases h

theorem toJson_kept (m : Metadata) : m.kept.toJson = m.toJson := by
  have hmanaged : (m.managedFields.map fun fs => fs.map ManagedFields.kept).map
      (fun fs => Json.array (fs.map ManagedFields.toJson)) =
        m.managedFields.map fun fs => .array (fs.map ManagedFields.toJson) := by
    simp [Function.comp_def, ManagedFields.toJson_kept]
  unfold toJson kept
  rw [hmanaged, Instant.map_secondsText_truncated, Instant.map_secondsText_truncated]

/-- There are no times and numbers, as in what is to be stored first. -/
structure IsNew (m : Metadata) : Prop where
  managedFields : m.managedFields = none
  generation : m.generation = none
  creationTimestamp : m.creationTimestamp = none
  deletionTimestamp : m.deletionTimestamp = none
  deletionGracePeriodSeconds : m.deletionGracePeriodSeconds = none

theorem IsNew.valid (h : m.IsNew) : m.Valid where
  managedFields := by simp [h.managedFields]
  generation := by simp [h.generation]
  creationTimestamp := by simp [h.creationTimestamp]
  deletionTimestamp := by simp [h.deletionTimestamp]
  deletionGracePeriodSeconds := by simp [h.deletionGracePeriodSeconds]

theorem IsNew.kept_eq (h : m.IsNew) : m.kept = m := by
  cases m
  obtain ⟨rfl, -, rfl, rfl, -⟩ := h
  rfl

end Metadata

/-! ## Clusters, add-ons and secrets -/

namespace ManagedCluster

variable {c : ManagedCluster}

structure Valid (c : ManagedCluster) : Prop where
  metadata : c.metadata.Valid
  lease : ∀ n ∈ c.leaseDurationSeconds, IsInt32 n
  status : ∀ cs ∈ c.status, Conditions.Valid cs

def kept (c : ManagedCluster) : ManagedCluster := { c with metadata := c.metadata.kept }

theorem statusOfJson?_statusJson {cs : Conditions} (h : cs.Valid) :
    ofJson?.statusOfJson? (statusJson cs) = some cs := by
  unfold ofJson?.statusOfJson? statusJson
  refine (bind_slots?_ofMembers (by rfl) (by decide)).trans ?_
  exact Conditions.ofJson?_toJson h

theorem ofJson?_toJson (h : c.Valid) : ofJson? c.toJson = some c.kept := by
  have hstatus : optional ofJson?.statusOfJson? (c.status.map statusJson) = some c.status :=
    optional_map_self (fun _ h => nomatch h) fun cs hcs =>
      statusOfJson?_statusJson (h.status cs hcs)
  unfold ofJson? toJson
  refine (bind_slots?_tagged (by rfl) (by decide)).trans ?_
  simp only [List.map_cons, List.map_nil, required_some, Metadata.ofJson?_toJson h.metadata,
    Option.bind_eq_bind, Option.bind_some]
  refine (bind_slots? (by rfl) (by decide)).trans ?_
  simp [optional_int32 h.lease, hstatus, kept]

theorem toJson_kept (c : ManagedCluster) : c.kept.toJson = c.toJson := by
  unfold toJson kept
  rw [Metadata.toJson_kept]

theorem valid_of_ofJson? (h : ofJson? v = some c) : c.Valid := by
  obtain ⟨slots, -, h⟩ := Option.bind_eq_some_iff.mp h
  split at h
  · simp only [Option.bind_eq_bind, Option.bind_eq_some_iff] at h
    obtain ⟨metadata, hmetadata, spec, -, h⟩ := h
    split at h
    · simp only [Option.bind_eq_some_iff, Option.some.injEq] at h
      obtain ⟨accepts, -, lease, hlease, status, hstatus, rfl⟩ := h
      refine ⟨of_required (fun _ _ => Metadata.valid_of_ofJson?) hmetadata,
        of_optional (fun _ _ => range_of_asInt) hlease, of_optional (fun v cs hcs => ?_) hstatus⟩
      obtain ⟨slots, -, hcs⟩ := Option.bind_eq_some_iff.mp hcs
      split at hcs
      · exact of_withDefault (fun _ _ => Conditions.valid_of_ofJson?) Conditions.valid_nil hcs
      · cases hcs
    · cases h
  · cases h

end ManagedCluster

namespace AddOn

variable {a : AddOn}

def kept (a : AddOn) : AddOn := { a with metadata := a.metadata.kept }

theorem ofJson?_toJson (h : a.metadata.Valid) : ofJson? a.toJson = some a.kept := by
  unfold ofJson? toJson
  refine (bind_slots?_tagged (by rfl) (by decide)).trans ?_
  simp only [List.map_cons, List.map_nil, required_some, Metadata.ofJson?_toJson h,
    Option.bind_eq_bind, Option.bind_some]
  refine (bind_slots? (by rfl) (by decide)).trans ?_
  simp [optional_string, kept]

theorem toJson_kept (a : AddOn) : a.kept.toJson = a.toJson := by
  unfold toJson kept
  rw [Metadata.toJson_kept]

theorem valid_of_ofJson? (h : ofJson? v = some a) : a.metadata.Valid := by
  obtain ⟨slots, -, h⟩ := Option.bind_eq_some_iff.mp h
  split at h
  · simp only [Option.bind_eq_bind, Option.bind_eq_some_iff] at h
    obtain ⟨metadata, hmetadata, spec, -, h⟩ := h
    split at h
    · simp only [Option.bind_eq_some_iff, Option.some.injEq] at h
      obtain ⟨install, -, rfl⟩ := h
      exact of_required (fun _ _ => Metadata.valid_of_ofJson?) hmetadata
    · cases h
  · cases h

end AddOn

namespace Secret

variable {s : Secret}

def kept (s : Secret) : Secret := { s with metadata := s.metadata.kept }

theorem ofJson?_toJson (h : s.metadata.Valid) : ofJson? s.toJson = some s.kept := by
  have hmetadata : optional Metadata.ofJson? (some s.metadata.toJson) =
      some (some s.metadata.kept) := by
    have hobject : s.metadata.toJson ≠ .null := fun h => nomatch h
    rw [optional_some hobject, Metadata.ofJson?_toJson h]
    rfl
  have hoctets (bs : Bytes) : ((asString (.string (String.ofList (Base64.encode bs)))).bind
      fun s => Base64.decode? s.toList) = some bs := by
    rw [asString_string, Option.bind_some, String.toList_ofList, Base64.decode?_encode]
  have hdata : optional (asTable fun b => (asString b).bind fun s => Base64.decode? s.toList)
      (s.data.map fun t => .object (t.entries.map fun e =>
        (e.1, .string (String.ofList (Base64.encode e.2))))) = some s.data :=
    optional_map_self (fun _ h => nomatch h) fun _ _ =>
      asTable_map (w := fun bs => .string (String.ofList (Base64.encode bs))) hoctets
  unfold ofJson? toJson Kind.tagged
  refine (bind_members? (by rfl) (by decide)).trans ?_
  simp [Kind.tagFits, hmetadata, hdata, optional_table, optional_string, optional_bool, kept]

theorem toJson_kept (s : Secret) : s.kept.toJson = s.toJson := by
  unfold toJson kept
  rw [Metadata.toJson_kept]

theorem valid_of_ofJson? (h : ofJson? v = some s) : s.metadata.Valid := by
  obtain ⟨slots, -, h⟩ := Option.bind_eq_some_iff.mp h
  split at h
  · simp only [Option.bind_eq_bind, Option.bind_eq_some_iff, Option.some.injEq] at h
    obtain ⟨_, -, _, -, metadata, hmetadata, data, -, stringData, -, type, -, immutable, -,
      rfl⟩ := h
    cases metadata with
    | none => exact Metadata.IsNew.valid ⟨rfl, rfl, rfl, rfl, rfl⟩
    | some m => exact of_optional (fun _ _ => Metadata.valid_of_ofJson?) hmetadata m rfl
  · cases h

end Secret

/-! ## Specs of works -/

theorem ResourceIdentifier.ofJson?_toJson (r : ResourceIdentifier) :
    ofJson? r.toJson = some r := by
  have hspace : withDefault "" asString (if r.nspace = "" then none else some (.string r.nspace)) =
      some r.nspace := by
    split
    · next h => exact congrArg some h.symm
    · rfl
  unfold ofJson? toJson
  refine (bind_slots? (by rfl) (by decide)).trans ?_
  simp [hspace]

theorem JsonPath.ofJson?_toJson (p : JsonPath) : ofJson? p.toJson = some p := by
  unfold ofJson? toJson
  exact bind_slots?_ofMembers (by rfl) (by decide)

theorem FeedbackType.read_text (t : FeedbackType) :
    asChoice text [.wellKnownStatus, .jsonPaths] (.string t.text) = some t := by
  cases t <;> rfl

theorem FeedbackRule.ofJson?_toJson (r : FeedbackRule) : ofJson? r.toJson = some r := by
  have hpaths : withDefault [] (asList JsonPath.ofJson?)
      (listUnlessEmpty JsonPath.toJson r.jsonPaths) = some r.jsonPaths :=
    withDefault_listUnlessEmpty fun p _ => p.ofJson?_toJson
  unfold ofJson? toJson
  refine (bind_slots? (by rfl) (by decide)).trans ?_
  simp [FeedbackType.read_text, hpaths]

theorem ManifestConfig.ofJson?_toJson (c : ManifestConfig) : ofJson? c.toJson = some c := by
  have hrules : withDefault [] (asList FeedbackRule.ofJson?)
      (listUnlessEmpty FeedbackRule.toJson c.feedbackRules) = some c.feedbackRules :=
    withDefault_listUnlessEmpty fun r _ => r.ofJson?_toJson
  unfold ofJson? toJson
  refine (bind_slots? (by rfl) (by decide)).trans ?_
  simp [ResourceIdentifier.ofJson?_toJson, hrules]

theorem Propagation.ofJson?_policy (p : Propagation) :
    ofJson? (.ofMembers [("propagationPolicy", .string p.text)]) = some p := by
  unfold ofJson?
  refine (bind_slots?_ofMembers (by rfl) (by decide)).trans ?_
  cases p <;> rfl

theorem manifestsOfJson?_workload (vs : List Json) :
    manifestsOfJson? (.ofMembers [("manifests", .array vs)]) = some vs := by
  have hkept : asList some (.array vs) = some vs := by
    have hmap : asList some (.array (vs.map id)) = some vs := asList_map fun _ _ => rfl
    rwa [List.map_id] at hmap
  unfold manifestsOfJson?
  refine (bind_slots?_ofMembers (by rfl) (by decide)).trans ?_
  exact hkept

theorem WorkSpec.ofJson?_toJson (s : WorkSpec) : ofJson? s.toJson = some s := by
  have hdeletion : optional Propagation.ofJson?
      (s.deletion.map fun p => .ofMembers [("propagationPolicy", .string p.text)]) =
        some s.deletion :=
    optional_map_self (fun _ h => nomatch h) fun p _ => p.ofJson?_policy
  have hconfigs : withDefault [] (asList ManifestConfig.ofJson?)
      (listUnlessEmpty ManifestConfig.toJson s.configs) = some s.configs :=
    withDefault_listUnlessEmpty fun c _ => c.ofJson?_toJson
  unfold ofJson? toJson
  refine (bind_slots? (by rfl) (by decide)).trans ?_
  simp [manifestsOfJson?_workload, hdeletion, hconfigs]

/-! ## Reports on works -/

namespace FieldValue

variable {x : FieldValue}

def Valid (x : FieldValue) : Prop := ∀ n ∈ x.integer, IsInt64 n

theorem ofJson?_toJson (h : x.Valid) : ofJson? x.toJson = some x := by
  unfold ofJson? toJson
  refine (bind_slots? (by rfl) (by decide)).trans ?_
  simp [optional_string, optional_bool, optional_int64 h]

theorem valid_of_ofJson? (h : ofJson? v = some x) : x.Valid := by
  obtain ⟨slots, -, h⟩ := Option.bind_eq_some_iff.mp h
  split at h
  · simp only [Option.bind_eq_bind, Option.bind_eq_some_iff, Option.some.injEq] at h
    obtain ⟨type, -, integer, hinteger, string, -, boolean, -, raw, -, rfl⟩ := h
    exact of_optional (fun _ _ => range_of_asInt) hinteger
  · cases h

end FieldValue

namespace FeedbackValue

variable {x : FeedbackValue}

theorem ofJson?_toJson (h : x.value.Valid) : ofJson? x.toJson = some x := by
  unfold ofJson? toJson
  refine (bind_slots?_ofMembers (by rfl) (by decide)).trans ?_
  simp [FieldValue.ofJson?_toJson h]

theorem valid_of_ofJson? (h : ofJson? v = some x) : x.value.Valid := by
  obtain ⟨slots, -, h⟩ := Option.bind_eq_some_iff.mp h
  split at h
  · simp only [Option.bind_eq_bind, Option.bind_eq_some_iff, Option.some.injEq] at h
    obtain ⟨name, -, value, hvalue, rfl⟩ := h
    exact of_required (fun _ _ => FieldValue.valid_of_ofJson?) hvalue
  · cases h

end FeedbackValue

namespace AppliedResource

variable {r : AppliedResource}

theorem ofJson?_toJson (h : IsInt32 r.ordinal) : ofJson? r.toJson = some r := by
  unfold ofJson? toJson
  refine (bind_slots?_ofMembers (by rfl) (by decide)).trans ?_
  simp [asInt32_int h]

theorem valid_of_ofJson? (h : ofJson? v = some r) : IsInt32 r.ordinal := by
  obtain ⟨slots, -, h⟩ := Option.bind_eq_some_iff.mp h
  split at h
  · simp only [Option.bind_eq_bind, Option.bind_eq_some_iff, Option.some.injEq] at h
    obtain ⟨ordinal, hordinal, group, -, version, -, kind, -, resource, -, name, -, nspace, -,
      rfl⟩ := h
    exact of_withDefault (fun _ _ => range_of_asInt) (by decide) hordinal
  · cases h

end AppliedResource

namespace ManifestReport

variable {r : ManifestReport}

structure Valid (r : ManifestReport) : Prop where
  resource : IsInt32 r.resource.ordinal
  feedback : ∀ x ∈ r.feedback, x.value.Valid
  conditions : Conditions.Valid r.conditions

theorem feedbackOfJson?_values {xs : List FeedbackValue} (h : ∀ x ∈ xs, x.value.Valid) :
    feedbackOfJson? (.ofMembers [("values", .array (xs.map FeedbackValue.toJson))]) = some xs := by
  unfold feedbackOfJson?
  refine (bind_slots?_ofMembers (by rfl) (by decide)).trans ?_
  exact asList_map fun x hx => FeedbackValue.ofJson?_toJson (h x hx)

theorem ofJson?_toJson (h : r.Valid) : ofJson? r.toJson = some r := by
  unfold ofJson? toJson
  refine (bind_slots?_ofMembers (by rfl) (by decide)).trans ?_
  simp [AppliedResource.ofJson?_toJson h.resource, feedbackOfJson?_values h.feedback,
    Conditions.ofJson?_toJson h.conditions]

theorem valid_of_ofJson? (h : ofJson? v = some r) : r.Valid := by
  obtain ⟨slots, -, h⟩ := Option.bind_eq_some_iff.mp h
  split at h
  · simp only [Option.bind_eq_bind, Option.bind_eq_some_iff, Option.some.injEq] at h
    obtain ⟨resource, hresource, feedback, hfeedback, conditions, hconditions, rfl⟩ := h
    refine ⟨?_, ?_, ?_⟩
    · exact of_withDefault (P := fun r => IsInt32 r.ordinal)
        (fun _ _ => AppliedResource.valid_of_ofJson?) (by decide) hresource
    · refine of_withDefault (P := fun xs => ∀ x ∈ xs, x.value.Valid) (fun v xs hxs => ?_)
        (fun _ h => nomatch h) hfeedback
      obtain ⟨slots, -, hxs⟩ := Option.bind_eq_some_iff.mp hxs
      split at hxs
      · refine of_withDefault (P := fun xs => ∀ x ∈ xs, x.value.Valid) (fun v xs hxs => ?_)
          (fun _ h => nomatch h) hxs
        exact of_asList (fun _ _ => FeedbackValue.valid_of_ofJson?) hxs
      · cases hxs
    · exact of_withDefault (fun _ _ => Conditions.valid_of_ofJson?) Conditions.valid_nil hconditions
  · cases h

end ManifestReport

namespace WorkStatus

variable {s : WorkStatus}

structure Valid (s : WorkStatus) : Prop where
  conditions : Conditions.Valid s.conditions
  reports : ∀ rs ∈ s.reports, ∀ r ∈ rs, r.Valid

theorem reportsOfJson?_manifests {rs : List ManifestReport} (h : ∀ r ∈ rs, r.Valid) :
    reportsOfJson? (.ofMembers [("manifests", .array (rs.map ManifestReport.toJson))]) =
      some rs := by
  unfold reportsOfJson?
  refine (bind_slots?_ofMembers (by rfl) (by decide)).trans ?_
  exact asList_map fun r hr => ManifestReport.ofJson?_toJson (h r hr)

theorem ofJson?_toJson (h : s.Valid) : ofJson? s.toJson = some s := by
  have hreports : optional reportsOfJson? (s.reports.map fun rs =>
      .ofMembers [("manifests", .array (rs.map ManifestReport.toJson))]) = some s.reports :=
    optional_map_self (fun _ h => nomatch h) fun rs hrs =>
      reportsOfJson?_manifests (h.reports rs hrs)
  unfold ofJson? toJson
  refine (bind_slots? (by rfl) (by decide)).trans ?_
  simp [Conditions.ofJson?_toJson h.conditions, hreports]

theorem valid_of_ofJson? (h : ofJson? v = some s) : s.Valid := by
  obtain ⟨slots, -, h⟩ := Option.bind_eq_some_iff.mp h
  split at h
  · simp only [Option.bind_eq_bind, Option.bind_eq_some_iff, Option.some.injEq] at h
    obtain ⟨conditions, hconditions, reports, hreports, rfl⟩ := h
    refine ⟨?_, of_optional (fun v rs hrs => ?_) hreports⟩
    · exact of_withDefault (fun _ _ => Conditions.valid_of_ofJson?) Conditions.valid_nil hconditions
    · obtain ⟨slots, -, hrs⟩ := Option.bind_eq_some_iff.mp hrs
      split at hrs
      · refine of_withDefault (P := fun rs => ∀ r ∈ rs, r.Valid) (fun v rs hrs => ?_)
          (fun _ h => nomatch h) hrs
        exact of_asList (fun _ _ => ManifestReport.valid_of_ofJson?) hrs
      · cases hrs
  · cases h

end WorkStatus

/-! ## Works -/

namespace ManifestWork

variable {w : ManifestWork}

structure Valid (w : ManifestWork) : Prop where
  metadata : w.metadata.Valid
  status : ∀ s ∈ w.status, s.Valid

def kept (w : ManifestWork) : ManifestWork := { w with metadata := w.metadata.kept }

theorem ofJson?_toJson (h : w.Valid) : ofJson? w.toJson = some w.kept := by
  have hstatus : optional WorkStatus.ofJson? (w.status.map WorkStatus.toJson) = some w.status :=
    optional_map_self (fun _ h => nomatch h) fun s hs => WorkStatus.ofJson?_toJson (h.status s hs)
  unfold ofJson? toJson
  refine (bind_slots?_tagged (by rfl) (by decide)).trans ?_
  simp [Metadata.ofJson?_toJson h.metadata, WorkSpec.ofJson?_toJson, hstatus, kept]

theorem toJson_kept (w : ManifestWork) : w.kept.toJson = w.toJson := by
  unfold toJson kept
  rw [Metadata.toJson_kept]

theorem valid_of_ofJson? (h : ofJson? v = some w) : w.Valid := by
  obtain ⟨slots, -, h⟩ := Option.bind_eq_some_iff.mp h
  split at h
  · simp only [Option.bind_eq_bind, Option.bind_eq_some_iff, Option.some.injEq] at h
    obtain ⟨metadata, hmetadata, spec, -, status, hstatus, rfl⟩ := h
    exact ⟨of_required (fun _ _ => Metadata.valid_of_ofJson?) hmetadata,
      of_optional (fun _ _ => WorkStatus.valid_of_ofJson?) hstatus⟩
  · cases h

end ManifestWork

end Hosting
