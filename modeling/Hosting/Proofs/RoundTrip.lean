import Hosting.Proofs.HostedWork
import Hosting.Proofs.Resource

/-!
# Round trips of records

Whatever was read can be written and read again: nothing is lost but the fractions of the seconds
that the metadata tell, which are those of the creation, of the deletion and of the last writes
of members, and from then on the written form stays the same (`records_survive`).  Works that are
built from a payload or a kubeconfig come back unchanged, so that no pass takes a stored one for
another than it wants.
-/

namespace Hosting
namespace RoundTrip

/-- Of what was read, writing keeps all that `kept` does; writing what it keeps is no change. -/
def Survives {α : Type} (read : Json → Option α) (write : α → Json) (kept : α → α) : Prop :=
  ∀ v x, read v = some x → read (write x) = some (kept x) ∧ write (kept x) = write x

/-- The work that is stored of `w` is as `w` asks. -/
def IsStoredAs (w : ManifestWork) : Prop :=
  ManifestWork.ofJson? w.toJson = some w ∧ w.fulfils w = true

theorem isStoredAs_of_own {cluster hosting : String} {w : ManifestWork}
    (hown : HostedWork.IsOwn cluster hosting w) (hmetadata : w.metadata.IsNew)
    (hstatus : w.status = none) : IsStoredAs w := by
  have hvalid : w.Valid := ⟨hmetadata.valid, by simp [hstatus]⟩
  have hkept : w.kept = w := by
    unfold ManifestWork.kept
    rw [hmetadata.kept_eq]
  have hnew : w.brought none = w := by
    unfold ManifestWork.brought
    rw [← hstatus]
  refine ⟨?_, ?_⟩
  · rw [ManifestWork.ofJson?_toJson hvalid, hkept]
  · have hfulfils := ManifestWork.fulfils_brought hown.self none
    rwa [hnew] at hfulfils

/-- What is written of a record that was read is read as the record again, with the times of its
metadata in whole seconds, and works that are built are stored as they are. -/
theorem records_survive :
    Survives Condition.ofJson? Condition.toJson id ∧
    Survives ManagedCluster.ofJson? ManagedCluster.toJson ManagedCluster.kept ∧
    Survives ManifestWork.ofJson? ManifestWork.toJson ManifestWork.kept ∧
    Survives AddOn.ofJson? AddOn.toJson AddOn.kept ∧
    Survives Secret.ofJson? Secret.toJson Secret.kept ∧
    (∀ cluster hosting payload w,
      HostedWork.klusterlet cluster hosting payload = .ok w → IsStoredAs w) ∧
    ∀ cluster hosting content w,
      HostedWork.kubeconfig cluster hosting content = .ok w → IsStoredAs w := by
  refine ⟨?_, ?_, ?_, ?_, ?_, ?_, ?_⟩
  · intro v c h
    exact ⟨Condition.ofJson?_toJson (Condition.valid_of_ofJson? h), rfl⟩
  · intro v c h
    exact ⟨ManagedCluster.ofJson?_toJson (ManagedCluster.valid_of_ofJson? h), c.toJson_kept⟩
  · intro v w h
    exact ⟨ManifestWork.ofJson?_toJson (ManifestWork.valid_of_ofJson? h), w.toJson_kept⟩
  · intro v a h
    exact ⟨AddOn.ofJson?_toJson (AddOn.valid_of_ofJson? h), a.toJson_kept⟩
  · intro v s h
    exact ⟨Secret.ofJson?_toJson (Secret.valid_of_ofJson? h), s.toJson_kept⟩
  · intro cluster hosting payload w h
    obtain ⟨objects, -, hw⟩ := HostedWork.klusterlet_eq_ok h
    have hown := HostedWork.isOwn_of_klusterlet h
    subst hw
    exact isStoredAs_of_own hown ⟨rfl, rfl, rfl, rfl, rfl⟩ rfl
  · intro cluster hosting content w h
    have hown := HostedWork.isOwn_of_kubeconfig h
    have hw := HostedWork.kubeconfig_eq_ok h
    subst hw
    exact isStoredAs_of_own hown ⟨rfl, rfl, rfl, rfl, rfl⟩ rfl

/-- A work with a report, and with all that may be left out left out. -/
def reported : Json :=
  .object [
    ("metadata", .object [
      ("deletionTimestamp", .string "2024-06-01 14:00:00.25+02:00"),
      ("labels", .object []),
      ("name", .string "w"),
      ("uid", .null)]),
    ("spec", .object [
      ("manifestConfigs", .array [.object [
        ("feedbackRules", .array [.object [("type", .string "JSONPaths")]]),
        ("resourceIdentifier", .object [("name", .string "k"), ("resource", .string "r")])]]),
      ("workload", .object [("manifests", .array [.null, .object [("kind", .int 1)]])])]),
    ("status", .object [("resourceStatus", .object [("manifests", .array [.object [
      ("conditions", .array [.object [
        ("lastTransitionTime", .string "2016-12-31T23:59:60.5Z"),
        ("status", .string "Unknown"),
        ("type", .string "Applied")]]),
      ("statusFeedback", .object [("values", .array [.object [
        ("fieldValue", .object [("integer", .int (-1)), ("type", .string "Integer")]),
        ("name", .string "v")]])])]])])])]

/-- A secret without metadata. -/
def bareSecret : Json := .object [("data", .object [("token", .string "AQI=")])]

theorem samples_survive :
    (∃ w, ManifestWork.ofJson? reported = some w ∧
      w.metadata.deletionTimestamp = some ⟨1717243200, 250000000⟩ ∧
      (w.reports.any fun r => r.conditions.any fun c =>
        c.lastTransition == some ⟨1483228799, 1500000000⟩) = true ∧
      ManifestWork.ofJson? w.toJson = some w.kept ∧ w.kept.toJson = w.toJson) ∧
    (∃ s, Secret.ofJson? bareSecret = some s ∧ Secret.ofJson? s.toJson = some s.kept ∧
      s.kept.toJson = s.toJson) ∧
    ∃ w, HostedWork.kubeconfig "c" "h" [0x6B] = .ok w ∧ IsStoredAs w := by
  obtain ⟨-, -, hwork, -, hsecret, -, hkubeconfig⟩ := records_survive
  refine ⟨?_, ?_, ?_⟩
  · have hread : (ManifestWork.ofJson? reported).any (fun w =>
        w.metadata.deletionTimestamp == some ⟨1717243200, 250000000⟩ &&
          w.reports.any fun r => r.conditions.any fun c =>
            c.lastTransition == some ⟨1483228799, 1500000000⟩) = true := by decide +kernel
    obtain ⟨w, hw, hfacts⟩ := (Option.any_eq_true _ _).mp hread
    rw [Bool.and_eq_true, beq_iff_eq] at hfacts
    exact ⟨w, hw, hfacts.1, hfacts.2, hwork _ w hw⟩
  · have hread : (Secret.ofJson? bareSecret).isSome = true := by decide +kernel
    obtain ⟨s, hs⟩ := Option.isSome_iff_exists.mp hread
    exact ⟨s, hs, hsecret _ s hs⟩
  · have hw : HostedWork.kubeconfig "c" "h" [0x6B] = .ok _ := rfl
    exact ⟨_, hw, hkubeconfig _ _ _ _ hw⟩

/-- A cluster that was created half a second past midnight. -/
def created : Json :=
  .object [
    ("metadata", .object [
      ("creationTimestamp", .string "2024-01-01T00:00:00.5Z"),
      ("name", .string "c")]),
    ("spec", .object [])]

/-- Not the time of the deletion alone is written in whole seconds. -/
theorem creation_loses_fraction : ∃ c, ManagedCluster.ofJson? created = some c ∧
    c.metadata.deletionTimestamp = none ∧ ManagedCluster.ofJson? c.toJson ≠ some c := by
  have hread : (ManagedCluster.ofJson? created).any (fun c =>
      c.metadata.deletionTimestamp == none &&
        c.metadata.creationTimestamp == some ⟨1704067200, 500000000⟩) = true := by decide +kernel
  obtain ⟨c, hc, hfacts⟩ := (Option.any_eq_true _ _).mp hread
  rw [Bool.and_eq_true, beq_iff_eq, beq_iff_eq] at hfacts
  refine ⟨c, hc, hfacts.1, fun hsame => ?_⟩
  rw [ManagedCluster.ofJson?_toJson (ManagedCluster.valid_of_ofJson? hc)] at hsame
  have htime : c.metadata.creationTimestamp.map Instant.truncated = c.metadata.creationTimestamp :=
    congrArg (·.metadata.creationTimestamp) (Option.some.inj hsame)
  rw [hfacts.2] at htime
  exact absurd htime (by decide)

end RoundTrip
end Hosting
