import Hosting.Hub.Memory
import Hosting.Proofs.Document
import Hosting.Proofs.Hub.Twins

/-!
# Patches and updates

A server patches the document that it has, the hub in memory sets fields of a record.  Both come
to the same (`patches_agree`): a patch touches the members that it names, and those are the ones
that the fields are read from.  All else of the document stays.
-/

namespace Hosting

open Json Hub Hub.Exchange

namespace Patching

/-- What a server that takes merge patches makes of the document `d` when it is asked `q`. -/
def patchedBy (now : Instant) (r : Recorder) (q : Request) (d : Json) : Option Json :=
  match ofRequest now r q with
  | .ok x =>
    if x.call.contentType = some "application/merge-patch+json" then
      x.call.body.bind fun patch => patched? patch d
    else none
  | .error _ => none

/-- The cluster under no version; no finalizers are as good as an empty list of them. -/
def essence (c : ManagedCluster) : ManagedCluster :=
  { c with metadata := { c.metadata with
    resourceVersion := none
    finalizers := some (c.metadata.finalizers.getD []) } }

/-- Nothing is changed but the finalizers. -/
structure FinalizersOnly (d d' : Json) : Prop where
  members : ∀ k, k ≠ "metadata" → d'.member? k = d.member? k
  metadata : SameMetadata ["finalizers"] d d'

/-- Nothing is changed but the status, and in one that is written nothing but the conditions. -/
structure StatusOnly (written : Bool) (d d' : Json) : Prop where
  members : ∀ k, k ≠ "metadata" → k ≠ "status" → d'.member? k = d.member? k
  metadata : SameMetadata [] d d'
  status : written = true → ∀ k, k ≠ "conditions" → d'.at? "status" k = d.at? "status" k

section Requests

variable {now : Instant} {r : Recorder} {u : ManagedCluster} {n : String} {d : Json}

theorem patchedBy_of_patch {q : Request} {path : String} {patch : Json}
    {read : Reply → Except Hub.Error q.Value}
    (h : ofRequest now r q = .ok ⟨.patch path patch, read⟩) :
    patchedBy now r q d = patched? patch d := by
  unfold patchedBy
  rw [h]
  rfl

theorem checked_nameOf {α : Type} {k : Kind} {m : Metadata} (hname : m.name = some n) (hn : n ≠ "")
    (go : String → α) : (nameOf m k >>= fun name => checked name (go name)) = .ok (go n) := by
  unfold nameOf
  rw [hname]
  exact if_neg hn

theorem patchedBy_setFinalizers (hname : u.metadata.name = some n) (hn : n ≠ "") :
    patchedBy now r (.setFinalizers u) d = patched? (finalizersPatch u.metadata) d :=
  patchedBy_of_patch (checked_nameOf hname hn _)

theorem patchedBy_setStatus (hname : u.metadata.name = some n) (hn : n ≠ "") :
    patchedBy now r (.setStatus u) d = patched? (statusPatch u) d :=
  patchedBy_of_patch (checked_nameOf hname hn _)

theorem patchedBy_releaseWork {k : ObjectKey} (hk : k.name ≠ "") :
    patchedBy now r (.releaseWork k) d = patched? releasePatch d :=
  patchedBy_of_patch (if_neg hk)

end Requests

section Patched

variable {qs ms : List (String × Json)} {d : Json} {m : Metadata} {c u : ManagedCluster}
  {n : String}

/-! ## Finalizers of a cluster -/

theorem finalizersOnly (h : IsPatch [("metadata", ofMembers qs)] qs m) (hm : HasMetadata d m)
    (hqs : ∀ k ∈ qs.map (·.1), k ∈ ["finalizers"] ∨ k = "resourceVersion") :
    FinalizersOnly d (merge (ofMembers [("metadata", ofMembers qs)]) d) :=
  ⟨fun _ hk => h.member?_of_notMem (by simpa using hk), h.sameMetadata hm hqs⟩

theorem finalizersPatch_isPatch (h : u.metadata.resourceVersion = m.resourceVersion) :
    IsPatch [("metadata", ofMembers [("resourceVersion", versionJson u.metadata),
        ("finalizers", .array ((u.metadata.finalizers.getD []).map .string))])]
      [("resourceVersion", versionJson u.metadata),
        ("finalizers", .array ((u.metadata.finalizers.getD []).map .string))] m where
  names := by simp
  metadataNames := by simp
  metadata := rfl
  version _ hp := (Option.some.inj hp).symm.trans (versionJson_congr h)

theorem finalizers_patched (now : Instant) (r : Recorder)
    (hc : ManagedCluster.ofJson? (.object ms) = some c) (hname : u.metadata.name = some n)
    (hn : n ≠ "") (hversion : u.metadata.resourceVersion = c.metadata.resourceVersion) :
    ∃ d', patchedBy now r (.setFinalizers u) (.object ms) = some d' ∧
      ManagedCluster.ofJson? d' = some { c with metadata := { c.metadata with
        finalizers := some (u.metadata.finalizers.getD []) } } ∧
      FinalizersOnly (.object ms) d' := by
  have hpatch := finalizersPatch_isPatch hversion
  obtain ⟨hm, hstatus⟩ := ManagedCluster.reads hc
  have honly := finalizersOnly hpatch hm (by simp)
  have hfinalizers : asList asString (.array ((u.metadata.finalizers.getD []).map .string)) =
      some (u.metadata.finalizers.getD []) := asList_map fun _ _ => rfl
  refine ⟨merge (finalizersPatch u.metadata) (.object ms), ?_, ?_, honly⟩
  · rw [patchedBy_setFinalizers hname hn]
    exact hpatch.taken hm
  · refine ManagedCluster.ofJson?_congr hc (honly.members "spec" (by decide)) ?_ ?_
    · exact hpatch.hasMetadata hm (by simp) (congrArg (Option.map some) hfinalizers)
    · exact (congrArg _ (honly.members "status" (by decide))).trans hstatus

/-! ## Status of a cluster -/

/-- The status as a patch gives it. -/
def statusMember (s : Option Conditions) : Json :=
  match s with
  | some cs => ManagedCluster.statusJson cs
  | none => .null

theorem statusPatch_isPatch (h : u.metadata.resourceVersion = m.resourceVersion) :
    IsPatch [("metadata", ofMembers [("resourceVersion", versionJson u.metadata)]),
        ("status", statusMember u.status)]
      [("resourceVersion", versionJson u.metadata)] m where
  names := by simp
  metadataNames := by simp
  metadata := rfl
  version _ hp := (Option.some.inj hp).symm.trans (versionJson_congr h)

theorem statusOfJson?_object (ms : List (String × Json)) :
    ManagedCluster.ofJson?.statusOfJson? (.object ms) =
      withDefault [] Conditions.ofJson? ((Json.object ms).member? "conditions") := rfl

/-- The conditions take the place of those that were there, whatever else the status had. -/
theorem statusOfJson?_merge {cs : Conditions} (h : cs.Valid) (v : Json) :
    ManagedCluster.ofJson?.statusOfJson? (merge (ManagedCluster.statusJson cs) v) = some cs := by
  have hnames : ([("conditions", cs.toJson)].map (·.1)).Nodup := by simp
  have hconditions : (merge (ManagedCluster.statusJson cs) v).member? "conditions" =
      some cs.toJson := member?_merge hnames
  refine (statusOfJson?_object _).trans ?_
  refine (congrArg (withDefault [] Conditions.ofJson?) hconditions).trans ?_
  exact Conditions.ofJson?_toJson h

theorem optional_mergeStatus {s : Option Conditions} (h : ∀ cs ∈ s, cs.Valid) (x : Option Json) :
    optional ManagedCluster.ofJson?.statusOfJson? (mergeMember (some (statusMember s)) x) =
      some s := by
  cases s with
  | none => rfl  -- The member is removed, which is read as no status.
  | some cs => exact congrArg (Option.map some) (statusOfJson?_merge (h cs rfl) _)

theorem status_patched (now : Instant) (r : Recorder)
    (hc : ManagedCluster.ofJson? (.object ms) = some c) (hname : u.metadata.name = some n)
    (hn : n ≠ "") (hversion : u.metadata.resourceVersion = c.metadata.resourceVersion)
    (hvalid : ∀ cs ∈ u.status, cs.Valid) :
    ∃ d', patchedBy now r (.setStatus u) (.object ms) = some d' ∧
      ManagedCluster.ofJson? d' = some { c with status := u.status } ∧
      StatusOnly u.status.isSome (.object ms) d' := by
  have hpatch := statusPatch_isPatch hversion
  obtain ⟨hm, -⟩ := ManagedCluster.reads hc
  have hothers : ∀ k, k ≠ "metadata" → k ≠ "status" →
      (merge (statusPatch u) (.object ms)).member? k = (Json.object ms).member? k :=
    fun k hk hks => hpatch.member?_of_notMem (by simp [hk, hks])
  have hstatus : (merge (statusPatch u) (.object ms)).member? "status" =
      mergeMember (some (statusMember u.status)) ((Json.object ms).member? "status") :=
    member?_merge hpatch.names
  refine ⟨merge (statusPatch u) (.object ms), ?_, ?_, hothers, ?_, fun hsome k hk => ?_⟩
  · rw [patchedBy_setStatus hname hn]
    exact hpatch.taken hm
  · refine ManagedCluster.ofJson?_congr hc (hothers "spec" (by decide) (by decide)) ?_ ?_
    · exact hpatch.hasMetadata hm (by simp) hm.readFrom.finalizers
    · exact (congrArg _ hstatus).trans (optional_mergeStatus hvalid _)
  · exact hpatch.sameMetadata hm (by simp)
  · obtain ⟨cs, hcs⟩ := Option.isSome_iff_exists.mp hsome
    have hgiven : List.lookup "status"
        [("metadata", ofMembers [("resourceVersion", versionJson u.metadata)]),
          ("status", statusMember u.status)] = some (ofMembers [("conditions", cs.toJson)]) := by
      rw [hcs]
      rfl
    refine (at?_merge hpatch.names (by simp) hgiven).trans ?_
    rw [lookup_eq_none (by simpa using hk)]
    rfl

/-! ## Finalizers of a work -/

theorem releasePatch_isPatch (m : Metadata) :
    IsPatch [("metadata", ofMembers [("finalizers", .null)])] [("finalizers", .null)] m where
  names := by simp
  metadataNames := by simp
  metadata := rfl
  version _ hp := nomatch hp

/-- The work without finalizers. -/
def released (w : ManifestWork) : ManifestWork :=
  { w with metadata := { w.metadata with finalizers := none } }

theorem work_patched (now : Instant) (r : Recorder) {w : ManifestWork}
    (hw : ManifestWork.ofJson? (.object ms) = some w) {k : ObjectKey} (hk : k.name ≠ "") :
    ∃ d', patchedBy now r (.releaseWork k) (.object ms) = some d' ∧
      ManifestWork.ofJson? d' = some (released w) ∧ FinalizersOnly (.object ms) d' := by
  have hpatch := releasePatch_isPatch w.metadata
  have hm := ManifestWork.hasMetadata hw
  have honly := finalizersOnly hpatch hm (by simp)
  refine ⟨merge releasePatch (.object ms), ?_, ?_, honly⟩
  · rw [patchedBy_releaseWork hk]
    exact hpatch.taken hm
  · exact ManifestWork.ofJson?_congr hw honly.members (hpatch.hasMetadata hm (by simp) rfl)

theorem releaseWork_stored (now : Instant) {m : Memory} {k : ObjectKey} {w : ManifestWork}
    (hw : m.works.get? k = some w) (hdeleting : w.isDeleting = false) :
    (m.answer now (.releaseWork k)).2.works.get? k = some (released w) := by
  show (m.releaseWork k).2.works.get? k = _
  unfold Memory.releaseWork
  rw [hw]
  dsimp only
  rw [hdeleting]
  exact Table.get?_insert_self _ _ _

end Patched

/-! ## The hub in memory -/

/-- A cluster whose finalizers or status are patched is the one that the hub in memory answers,
and a work whose finalizers are patched away is the one that it keeps; all else of the documents
is left as it was. -/
theorem patches_agree :
    (∀ (now : Instant) (r : Recorder) (m : Memory) (ms : List (String × Json))
        (c u : ManagedCluster) (n : String),
      ManagedCluster.ofJson? (.object ms) = some c → m.Quiet → m.clusters.get? n = some c →
      u.metadata.name = some n → n ≠ "" →
      u.metadata.resourceVersion = c.metadata.resourceVersion →
      (∃ d' y x, patchedBy now r (.setFinalizers u) (.object ms) = some d' ∧
        ManagedCluster.ofJson? d' = some y ∧ (m.answer now (.setFinalizers u)).1 = .ok x ∧
        essence y = essence x ∧ FinalizersOnly (.object ms) d') ∧
      ((∀ cs ∈ u.status, cs.Valid) →
        ∃ d' y x, patchedBy now r (.setStatus u) (.object ms) = some d' ∧
          ManagedCluster.ofJson? d' = some y ∧ (m.answer now (.setStatus u)).1 = .ok x ∧
          essence y = essence x ∧ StatusOnly u.status.isSome (.object ms) d')) ∧
    ∀ (now : Instant) (r : Recorder) (m : Memory) (ms : List (String × Json))
        (w : ManifestWork) (k : ObjectKey),
      ManifestWork.ofJson? (.object ms) = some w → m.works.get? k = some w → k.name ≠ "" →
      w.isDeleting = false →
      ∃ d' w', patchedBy now r (.releaseWork k) (.object ms) = some d' ∧
        ManifestWork.ofJson? d' = some w' ∧
        (m.answer now (.releaseWork k)).2.works.get? k = some w' ∧
        FinalizersOnly (.object ms) d' := by
  refine ⟨?_, ?_⟩
  · intro now r m ms c u n hc hquiet hstored hname hn hversion
    have hkey : u.nameText = n := congrArg (·.getD "") hname
    have hanswer (p : Hub.Part) :=
      write_quiet (t := now) hquiet (e := u) (hkey ▸ hstored) hversion p
    refine ⟨?_, fun hvalid => ?_⟩
    · obtain ⟨d', hpatched, hread, honly⟩ := finalizers_patched now r hc hname hn hversion
      obtain ⟨cs, hx, -⟩ := hanswer .finalizers
      exact ⟨d', _, _, hpatched, hread, congrArg Prod.fst hx, rfl, honly⟩
    · obtain ⟨d', hpatched, hread, honly⟩ := status_patched now r hc hname hn hversion hvalid
      obtain ⟨cs, hx, -⟩ := hanswer .status
      exact ⟨d', _, _, hpatched, hread, congrArg Prod.fst hx, rfl, honly⟩
  · intro now r m ms w k hw hstored hk hdeleting
    obtain ⟨d', hpatched, hread, honly⟩ := work_patched now r hw hk
    exact ⟨d', released w, hpatched, hread, releaseWork_stored now hstored hdeleting, honly⟩

/-- A cluster with members that nothing reads, and a finalizer of another program. -/
def clusterDocument : List (String × Json) := [
  ("apiVersion", .string "cluster.open-cluster-management.io/v1"),
  ("metadata", .object [
    ("clusterName", .null),
    ("finalizers", .array [.string "other"]),
    ("name", .string "c"),
    ("resourceVersion", .string "7")]),
  ("spec", .object [("managedClusterClientConfigs", .array []), ("taints", .null)]),
  ("status", .object [("capacity", .object [("cpu", .string "8")]), ("conditions", .array [])])]

def clusterRecord : ManagedCluster where
  metadata := {
    name := some "c"
    finalizers := some ["other"]
    resourceVersion := some "7" }
  status := some []

/-- The cluster with one finalizer more and a condition. -/
def clusterUpdate : ManagedCluster where
  metadata := {
    name := some "c"
    finalizers := some ["other", "own"]
    resourceVersion := some "7" }
  status := some [{
    type := "Imported", status := .true, reason := "Done", message := ""
    lastTransition := some ⟨1717243200, 0⟩ }]

def workDocument : List (String × Json) := [
  ("metadata", .object [
    ("finalizers", .array [.string "agent"]), ("name", .string "w"), ("namespace", .string "c")]),
  ("spec", .object [("workload", .object [("manifests", .array [])])])]

theorem patches_agree_samples :
    (∃ d' y x, patchedBy ⟨0, 0⟩ ⟨"controller", []⟩ (.setStatus clusterUpdate)
          (.object clusterDocument) = some d' ∧
        ManagedCluster.ofJson? d' = some y ∧
        (({ clusters := Table.empty.insert "c" clusterRecord } : Memory).answer ⟨0, 0⟩
          (.setStatus clusterUpdate)).1 = .ok x ∧
        essence y = essence x ∧ StatusOnly true (.object clusterDocument) d') ∧
    ∃ w, ManifestWork.ofJson? (.object workDocument) = some w ∧
      ∃ d' w', patchedBy ⟨0, 0⟩ ⟨"controller", []⟩ (.releaseWork ⟨"c", "w"⟩)
          (.object workDocument) = some d' ∧
        ManifestWork.ofJson? d' = some w' ∧
        (({ works := Table.empty.insert ⟨"c", "w"⟩ w } : Memory).answer ⟨0, 0⟩
          (.releaseWork ⟨"c", "w"⟩)).2.works.get? ⟨"c", "w"⟩ = some w' ∧
        FinalizersOnly (.object workDocument) d' := by
  obtain ⟨hcluster, hwork⟩ := patches_agree
  refine ⟨?_, ?_⟩
  · have htime : Instant.Valid ⟨1717243200, 0⟩ := ⟨by decide +kernel, by decide, by decide⟩
    have hvalid : ∀ cs ∈ clusterUpdate.status, Conditions.Valid cs := by
      rintro cs ⟨⟩ c hc t ht
      rw [List.mem_singleton.mp hc] at ht
      cases ht
      exact htime
    have hread : ManagedCluster.ofJson? (.object clusterDocument) = some clusterRecord := by
      decide +kernel
    exact (hcluster ⟨0, 0⟩ ⟨"controller", []⟩ _ clusterDocument clusterRecord clusterUpdate "c"
      hread ⟨fun _ => rfl, rfl⟩ (Table.get?_insert_self _ _ _) rfl (by decide) rfl).2 hvalid
  · have hread : (ManifestWork.ofJson? (.object workDocument)).any (fun w => !w.isDeleting) =
        true := by decide +kernel
    obtain ⟨w, hw, hdeleting⟩ := (Option.any_eq_true _ _).mp hread
    exact ⟨w, hw, hwork ⟨0, 0⟩ ⟨"controller", []⟩ _ workDocument w ⟨"c", "w"⟩ hw
      (Table.get?_insert_self _ _ _) (by decide) (by simpa using hdeleting)⟩

end Patching

end Hosting
