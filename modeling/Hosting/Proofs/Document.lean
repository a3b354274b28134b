import Hosting.Hub.Client
import Hosting.Proofs.Json.Merge
import Hosting.Proofs.Resource

/-!
# Documents and what they are read as

A record is read from some members of its document.  Of two documents that differ in the
finalizers, the version and the status alone, the records differ in these fields alone
(`ManagedCluster.ofJson?_congr`, `ManifestWork.ofJson?_congr`); and a patch makes documents differ
only where it names members.
-/

namespace Hosting

open Json Hub Hub.Exchange

/-! ## Documents -/

section Documents

variable {ms : List (String × Json)} {g e : String → Option Json} {d : Json}

theorem Metadata.ReadFrom.congr {m : Metadata} {f : Option (List String)} {r : Option String}
    (h : m.ReadFrom g) (hsame : ∀ n, n ≠ "finalizers" → n ≠ "resourceVersion" → e n = g n)
    (hf : optional (asList asString) (e "finalizers") = some f)
    (hr : optional asString (e "resourceVersion") = some r) :
    { m with finalizers := f, resourceVersion := r }.ReadFrom e where
  name := hsame "name" (by decide) (by decide) ▸ h.name
  generateName := hsame "generateName" (by decide) (by decide) ▸ h.generateName
  nspace := hsame "namespace" (by decide) (by decide) ▸ h.nspace
  labels := hsame "labels" (by decide) (by decide) ▸ h.labels
  annotations := hsame "annotations" (by decide) (by decide) ▸ h.annotations
  finalizers := hf
  ownerReferences := hsame "ownerReferences" (by decide) (by decide) ▸ h.ownerReferences
  managedFields := hsame "managedFields" (by decide) (by decide) ▸ h.managedFields
  resourceVersion := hr
  uid := hsame "uid" (by decide) (by decide) ▸ h.uid
  selfLink := hsame "selfLink" (by decide) (by decide) ▸ h.selfLink
  generation := hsame "generation" (by decide) (by decide) ▸ h.generation
  creationTimestamp := hsame "creationTimestamp" (by decide) (by decide) ▸ h.creationTimestamp
  deletionTimestamp := hsame "deletionTimestamp" (by decide) (by decide) ▸ h.deletionTimestamp
  deletionGracePeriodSeconds :=
    hsame "deletionGracePeriodSeconds" (by decide) (by decide) ▸ h.deletionGracePeriodSeconds

/-- The document has metadata that are read as `m`. -/
structure HasMetadata (d : Json) (m : Metadata) : Prop where
  object : ∃ ms, d.member? "metadata" = some (.object ms)
  readFrom : m.ReadFrom (d.at? "metadata")

theorem hasMetadata_iff {m : Metadata} :
    HasMetadata d m ↔ required Metadata.ofJson? (d.member? "metadata") = some m := by
  constructor
  · rintro ⟨⟨ms, hms⟩, hm⟩
    unfold at? at hm
    rw [hms] at hm ⊢
    exact Metadata.ofJson?_object_iff.mpr hm
  · intro h
    cases hv : d.member? "metadata" with
    | none =>
      rw [hv] at h
      cases h
    | some v =>
      rw [hv] at h
      cases v with
      | object ms =>
        refine ⟨⟨ms, hv⟩, ?_⟩
        unfold at?
        rw [hv]
        exact Metadata.ofJson?_object_iff.mp h
      | _ => cases h

/-- The metadata and the status of a cluster, as its document has them. -/
theorem ManagedCluster.reads {c : ManagedCluster} (h : ofJson? (.object ms) = some c) :
    HasMetadata (.object ms) c.metadata ∧
      optional ofJson?.statusOfJson? ((Json.object ms).member? "status") = some c.status := by
  simp only [ofJson?, slots?, List.map_cons, List.map_nil, Option.bind_eq_bind, Option.bind_some,
    Option.bind_eq_some_iff] at h
  obtain ⟨metadata, hmetadata, spec, -, h⟩ := h
  split at h
  · simp only [Option.bind_eq_some_iff, Option.some.injEq] at h
    obtain ⟨accepts, -, lease, -, status, hstatus, rfl⟩ := h
    exact ⟨hasMetadata_iff.mpr hmetadata, hstatus⟩
  · cases h

/-- Of two documents with the same spec the second is read as the first, but for what the
second says of metadata and status. -/
theorem ManagedCluster.ofJson?_congr {c : ManagedCluster} {m : Metadata} {s : Option Conditions}
    {ms' : List (String × Json)} (h : ofJson? (.object ms) = some c)
    (hspec : (Json.object ms').member? "spec" = (Json.object ms).member? "spec")
    (hmetadata : HasMetadata (.object ms') m)
    (hstatus : optional ofJson?.statusOfJson? ((Json.object ms').member? "status") = some s) :
    ofJson? (.object ms') = some { c with metadata := m, status := s } := by
  have hspec : Table.find "spec" ms' = Table.find "spec" ms := hspec
  simp only [ofJson?, slots?, List.map_cons, List.map_nil, Option.bind_eq_bind, Option.bind_some,
    Option.bind_eq_some_iff] at h ⊢
  obtain ⟨metadata, -, spec, hread, h⟩ := h
  refine ⟨m, hasMetadata_iff.mp hmetadata, spec, hspec ▸ hread, ?_⟩
  split at h
  · simp only [Option.bind_eq_some_iff, Option.some.injEq] at h ⊢
    obtain ⟨accepts, haccepts, lease, hlease, status, -, rfl⟩ := h
    exact ⟨accepts, haccepts, lease, hlease, s, hstatus, rfl⟩
  · cases h

theorem ManifestWork.hasMetadata {w : ManifestWork} (h : ofJson? (.object ms) = some w) :
    HasMetadata (.object ms) w.metadata := by
  simp only [ofJson?, slots?, List.map_cons, List.map_nil, Option.bind_eq_bind, Option.bind_some,
    Option.bind_eq_some_iff, Option.some.injEq] at h
  obtain ⟨metadata, hmetadata, spec, -, status, -, rfl⟩ := h
  exact hasMetadata_iff.mpr hmetadata

theorem ManifestWork.ofJson?_congr {w : ManifestWork} {m : Metadata}
    {ms' : List (String × Json)} (h : ofJson? (.object ms) = some w)
    (hsame : ∀ k, k ≠ "metadata" → (Json.object ms').member? k = (Json.object ms).member? k)
    (hmetadata : HasMetadata (.object ms') m) :
    ofJson? (.object ms') = some { w with metadata := m } := by
  have hspec : Table.find "spec" ms' = Table.find "spec" ms := hsame "spec" (by decide)
  have hstatus : Table.find "status" ms' = Table.find "status" ms := hsame "status" (by decide)
  simp only [ofJson?, slots?, List.map_cons, List.map_nil, Option.bind_eq_bind, Option.bind_some,
    Option.bind_eq_some_iff, Option.some.injEq] at h ⊢
  obtain ⟨metadata, -, spec, hreadSpec, status, hreadStatus, rfl⟩ := h
  exact ⟨m, hasMetadata_iff.mp hmetadata, spec, hspec ▸ hreadSpec, status, hstatus ▸ hreadStatus,
    rfl⟩

end Documents

/-! ## Patches -/

section Patches

variable {fs qs : List (String × Json)} {ks : List String} {d : Json} {m : Metadata}
  {f : Option (List String)} {k : String} {x : Option Json}

/-- A patch with the members `fs`, of which that of the metadata has the members `qs`.  If it
gives a version, it is the one of `m`. -/
structure IsPatch (fs qs : List (String × Json)) (m : Metadata) : Prop where
  names : (fs.map (·.1)).Nodup
  metadataNames : (qs.map (·.1)).Nodup
  metadata : fs.lookup "metadata" = some (ofMembers qs)
  version : ∀ p ∈ qs.lookup "resourceVersion", p = versionJson m

/-- The documents have the same metadata but for the members `ks`; a version that is `null` may
have been left out. -/
structure SameMetadata (ks : List String) (d d' : Json) : Prop where
  members : ∀ k, k ∉ ks → k ≠ "resourceVersion" → d'.at? "metadata" k = d.at? "metadata" k
  version : d.at? "metadata" "resourceVersion" ≠ some .null →
    d'.at? "metadata" "resourceVersion" = d.at? "metadata" "resourceVersion"

theorem versionJson_congr {m' : Metadata} (h : m.resourceVersion = m'.resourceVersion) :
    versionJson m = versionJson m' := by
  unfold versionJson
  rw [h]

theorem eq_map_of_optional {o : Option String} (h : optional asString x = some o)
    (hx : x ≠ some .null) : x = o.map .string := by
  cases x with
  | none =>
    rw [← Option.some.inj h]
    rfl
  | some v =>
    have hv : v ≠ .null := fun hv => hx (congrArg some hv)
    rw [optional_some hv] at h
    obtain ⟨s, hs, rfl⟩ := Option.map_eq_some_iff.mp h
    cases v <;> cases hs
    rfl

theorem version?_of_hasMetadata (h : HasMetadata d m) : d.version? = m.resourceVersion := by
  have hread := h.readFrom.resourceVersion
  unfold version?
  by_cases hx : d.at? "metadata" "resourceVersion" = some .null
  · rw [hx] at hread ⊢
    exact Option.some.inj hread
  · rw [eq_map_of_optional hread hx]
    cases m.resourceVersion <;> rfl

namespace IsPatch

variable (h : IsPatch fs qs m)

include h

theorem member?_of_notMem (hk : k ∉ fs.map (·.1)) :
    (merge (ofMembers fs) d).member? k = d.member? k := by
  rw [member?_merge h.names, lookup_eq_none hk]
  rfl

theorem at?_metadata : (merge (ofMembers fs) d).at? "metadata" k =
    mergeMember (qs.lookup k) (d.at? "metadata" k) :=
  at?_merge h.names h.metadataNames h.metadata

theorem at?_of_notMem (hk : k ∉ qs.map (·.1)) :
    (merge (ofMembers fs) d).at? "metadata" k = d.at? "metadata" k := by
  rw [h.at?_metadata, lookup_eq_none hk]
  rfl

/-- A document is patched that has the version which the patch gives, or is given none. -/
theorem taken (hm : HasMetadata d m) :
    patched? (ofMembers fs) d = some (merge (ofMembers fs) d) := by
  have hgiven : (ofMembers fs).version? = (qs.lookup "resourceVersion").bind string? := by
    unfold version? at?
    rw [member?_ofMembers h.names, h.metadata, Option.bind_some, member?_ofMembers h.metadataNames]
  unfold patched?
  rw [hgiven, version?_of_hasMetadata hm]
  refine if_pos ?_
  cases hp : qs.lookup "resourceVersion" with
  | none => rfl
  | some p =>
    rw [h.version p hp]
    unfold versionJson
    cases m.resourceVersion with
    | none => rfl
    | some v => exact beq_self_eq_true _

theorem version_read (hm : HasMetadata d m) : optional asString
    ((merge (ofMembers fs) d).at? "metadata" "resourceVersion") = some m.resourceVersion := by
  rw [h.at?_metadata]
  cases hp : qs.lookup "resourceVersion" with
  | none => exact hm.readFrom.resourceVersion
  | some p =>
    rw [h.version p hp]
    unfold versionJson
    cases m.resourceVersion <;> rfl

/-- A version that is given and was there stays as it was. -/
theorem version_kept (hm : HasMetadata d m)
    (hx : d.at? "metadata" "resourceVersion" ≠ some .null) :
    (merge (ofMembers fs) d).at? "metadata" "resourceVersion" =
      d.at? "metadata" "resourceVersion" := by
  rw [h.at?_metadata]
  cases hp : qs.lookup "resourceVersion" with
  | none => rfl
  | some p =>
    rw [h.version p hp, eq_map_of_optional hm.readFrom.resourceVersion hx]
    unfold versionJson
    cases m.resourceVersion <;> rfl

theorem hasMetadata (hm : HasMetadata d m)
    (hqs : ∀ k ∈ qs.map (·.1), k = "finalizers" ∨ k = "resourceVersion")
    (hf : optional (asList asString)
      (mergeMember (qs.lookup "finalizers") (d.at? "metadata" "finalizers")) = some f) :
    HasMetadata (merge (ofMembers fs) d) { m with finalizers := f } := by
  refine ⟨?_, hm.readFrom.congr (fun k hkf hkr => ?_) ?_ (h.version_read hm)⟩
  · rw [member?_merge h.names, h.metadata]
    exact ⟨_, rfl⟩
  · refine h.at?_of_notMem fun hk => ?_
    rcases hqs k hk with rfl | rfl
    · exact hkf rfl
    · exact hkr rfl
  · rw [h.at?_metadata]
    exact hf

theorem sameMetadata (hm : HasMetadata d m)
    (hqs : ∀ k ∈ qs.map (·.1), k ∈ ks ∨ k = "resourceVersion") :
    SameMetadata ks d (merge (ofMembers fs) d) := by
  refine ⟨fun k hk hkr => h.at?_of_notMem fun hkq => ?_, h.version_kept hm⟩
  rcases hqs k hkq with hks | rfl
  · exact hk hks
  · exact hkr rfl

end IsPatch

end Patches

end Hosting
