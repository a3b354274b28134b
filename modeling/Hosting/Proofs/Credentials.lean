import Hosting.Proofs.Json
import Hosting.Proofs.Run

/-!
# Credentials are never lost

The auto-import secret holds the only copy of the credentials that a cluster is imported
with.  Whatever fails on the way, a pass leaves its data alone, or has brought them to the
hosting cluster before it deletes the secret.
-/

namespace Hosting

/-! ## The work of the credentials -/

namespace HostedWork

/-- The octets under a name in the data of a secret that a work carries. -/
def carried? (v : Json) (name : String) : Option Bytes :=
  ((v.member? "data").bind (·.member? name)).bind fun d =>
    d.string?.bind fun text => Base64.decode? text.toList

theorem carried?_kubeconfigSecret (cluster : String) (content : Bytes) :
    carried? (kubeconfigSecret cluster content) Names.kubeconfig = some content := by
  have hdata : (kubeconfigSecret cluster content).member? "data" =
      some (.ofMembers [(Names.kubeconfig, .string (String.ofList (Base64.encode content)))]) :=
    Json.member?_ofMembers_append [_, _, _, _] _ _
  have hkubeconfig : (Json.ofMembers [(Names.kubeconfig,
      .string (String.ofList (Base64.encode content)))]).member? Names.kubeconfig =
        some (.string (String.ofList (Base64.encode content))) :=
    Json.member?_ofMembers_append [] _ _
  unfold carried?
  rw [hdata, Option.bind_some, hkubeconfig]
  simp [Json.string?, Base64.decode?_encode]

end HostedWork

/-- A spec that agrees with one without floating-point numbers is the same. -/
theorem WorkSpec.eq_of_agrees {a b : WorkSpec} (hb : Json.areExact b.manifests = true)
    (h : a.agrees b = true) : a = b := by
  unfold agrees at h
  rw [Bool.and_eq_true, Bool.and_eq_true, beq_iff_eq, beq_iff_eq] at h
  obtain ⟨am, ad, ac⟩ := a
  obtain ⟨bm, bd, bc⟩ := b
  have hm : am = bm := Json.eq_of_agreesItems hb h.1.1
  have hd : ad = bd := h.1.2
  have hc : ac = bc := h.2
  rw [hm, hd, hc]

namespace Credentials

open Hub (Memory)
open Pass Sample

variable {name : String} {m : Memory} {s : Secret}

/-- The credentials of the secret `s` are in the cluster's work on its hosting cluster, whose
spec is the one that is built of them, and the cluster says so. -/
def Arrived (name : String) (s : Secret) (m : Memory) : Prop :=
  ∃ c h desired w v, m.clusters.get? name = some c ∧
    c.conditions.has Names.kubeconfigCreated .true = true ∧ c.hosting? = some h ∧
    HostedWork.kubeconfig name h s.autoImportKubeconfig = .ok desired ∧
    m.works.get? ⟨h, Names.kubeconfigWork name⟩ = some w ∧ w.spec = desired.spec ∧
    w.spec.manifests = [v] ∧
    HostedWork.carried? v Names.kubeconfig = some s.autoImportKubeconfig

theorem arrived_of_handedOver {c d : ManagedCluster}
    (hstored : m.clusters.get? c.nameText = some d) (hbare : d.bare = c.bare)
    (h : HandedOver c s d m) : Arrived c.nameText s m := by
  obtain ⟨hosting, desired, w, hh, hbuild, hw, happlied⟩ := h.work
  have hdesired := HostedWork.kubeconfig_eq_ok hbuild
  have hmanifests : desired.spec.manifests =
      [HostedWork.kubeconfigSecret c.nameText s.autoImportKubeconfig] := by
    rw [hdesired]
  have hexact : Json.areExact desired.spec.manifests = true := by
    rw [hmanifests, Json.areExact, HostedWork.isExact_kubeconfigSecret]
    rfl
  have hspec : w.spec = desired.spec :=
    happlied.spec.elim id (WorkSpec.eq_of_agrees hexact)
  refine ⟨d, hosting, desired, w, _, hstored, h.shown, ?_, hbuild, hw, hspec, ?_,
    HostedWork.carried?_kubeconfigSecret c.nameText _⟩
  · exact (ManagedCluster.hosting?_of_bare hbare).trans hh
  · rw [hspec, hmanifests]

/-- The data of the secret are where they were, or the secret was used up: it was not to be
kept, and its credentials have arrived. -/
def Kept (name : String) (s : Secret) (r : Except Failure Outcome) (m : Memory) : Prop :=
  (∃ s', m.secrets.get? ⟨name, Names.autoImportSecret⟩ = some s' ∧
    s'.data = s.data ∧ s'.type = s.type) ∨
  m.secrets.get? ⟨name, Names.autoImportSecret⟩ = none ∧ r = .ok .done ∧ s.isKept = false ∧
    Arrived name s m

/-- Whatever state a pass finds and however it ends, the credentials are kept; a pass that
fails leaves them in their secret. -/
theorem credentials_kept (ctx : Context) (hm : m.Named)
    (hs : m.secrets.get? ⟨name, Names.autoImportSecret⟩ = some s) :
    Kept name s (Run.outcome ctx name m) (Run.afterPass ctx name m) := by
  have hsame {r : Except Failure Outcome} {m' : Memory} (h : m'.secrets = m.secrets) :
      Kept name s r m' := Or.inl ⟨s, h ▸ hs, rfl, rfl⟩
  have hpassed := Run.passed hm ctx name
  revert hpassed
  generalize Run.outcome ctx name m = r, Run.afterPass ctx name m = m'
  intro hpassed
  cases hpassed with
  | refused same => exact hsame same.secrets
  | idle => exact hsame rfl
  | imported stored named _ _ ends =>
    subst named
    cases ends with
    | failed h => exact Or.inl (h.secret s hs)
    | waiting h => exact Or.inl (h.secret s hs)
    | brought h => exact Or.inl (h.secret s hs)
    | handedOver _ stored bare secret used gone arrived =>
      have he := secret.symm.trans hs
      rw [Option.some.injEq] at he
      subst he
      exact Or.inr ⟨gone, rfl, used, arrived_of_handedOver stored bare arrived⟩
  | detached stored named _ _ ends => exact hsame (ends.within.secrets_eq fun _ => id)

/-- The agent's work is reported as available, and the credentials are there. -/
def handing : Memory :=
  Run.after "c" (setUp (hosted "c" "h") ++ [
    .change (.secret {
      metadata := { name := some Names.autoImportSecret, nspace := some "c" }
      data := some (.singleton Names.kubeconfig [0x6B, 0x63]) }),
    onePass,
    .change (.report ⟨"h", "c-hosted-klusterlet"⟩
      { conditions := [⟨Names.workAvailable, .true, "", "", none⟩] })]) {}

theorem credentials_arrived :
    ∃ s, handing.secrets.get? ⟨"c", Names.autoImportSecret⟩ = some s ∧
      (Run.afterPass { now := now } "c" handing).secrets.get? ⟨"c", Names.autoImportSecret⟩ = none ∧
      Arrived "c" s (Run.afterPass { now := now } "c" handing) := by
  have hpass : (handing.secrets.get? ⟨"c", Names.autoImportSecret⟩).isSome = true ∧
      (Run.afterPass { now := now } "c" handing).secrets.get? ⟨"c", Names.autoImportSecret⟩ =
        none := by decide +kernel
  obtain ⟨s, hs⟩ := Option.isSome_iff_exists.mp hpass.1
  have hnamed : handing.Named := Run.named_after _ Hub.Memory.named_empty (by decide +kernel)
  refine ⟨s, hs, hpass.2, ?_⟩
  rcases credentials_kept { now := now } hnamed hs with ⟨s', hs', -⟩ | h
  · rw [hpass.2] at hs'
    cases hs'
  · exact h.2.2.2

end Credentials
end Hosting
