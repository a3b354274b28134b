import Hosting.Pass.Import
import Hosting.Proofs.Pass.Steps

/-!
# What an import is to bring about

A plan is what a pass over a live cluster brings about when nothing fails.  It goes by what
others have put in the hub and by the agent's reports, not by how far earlier passes came.
-/

namespace Hosting

def autoImportKey (c : ManagedCluster) : ObjectKey := ⟨c.nameText, Names.autoImportSecret⟩

/-! ## Plans -/

/-- What the hub has a live cluster do: wait, or get the agent of a payload. -/
inductive Demand where
  | wait (reason message : String)
  | agent (hosting : String) (payload : Bytes)

/-- The works that are brought, what is said in the end, and whether the auto-import secret
is used up. -/
structure Plan where
  works : List ManifestWork := []
  words : List (String × Said)
  consumes : Bool := false

namespace Plan

/-- What conditions say whenever they are made. -/
def tell (conditions : Instant → List Condition) : List (String × Said) :=
  (conditions ⟨0, 0⟩).map Condition.entry

def wait (reason message : String) : Plan where
  words := tell fun now => [Progress.pending now reason message]

def bring (agent : ManifestWork) (condition : Instant → Condition) : Plan where
  works := [agent]
  words := tell fun now => [condition now]

def handOver (agent credentials : ManifestWork) (ready kept : Bool) : Plan where
  works := [agent, credentials]
  words := tell fun now => [Progress.handedOver now,
    if ready then Progress.succeeded now
    else Progress.pending now Progress.importing Pass.waitForKubeconfig]
  consumes := !kept

/-- The plan for a cluster whose agent is wanted, by the agent's report on its work, the
work of the credentials, and the auto-import secret.  There is none when a work cannot be
built. -/
def agent? (name hosting : String) (payload : Bytes) (status : Option WorkStatus)
    (credentials : ClusterWorks) (secret : Option Secret) : Option Plan :=
  match HostedWork.klusterlet name hosting payload with
  | .error _ => none
  | .ok agent =>
    let work := { agent with status := status }
    let ready := work.isReadyToApply name
    match secret with
    | none => some (bring agent fun now => Pass.withoutSecret now name credentials ready)
    | some s =>
      if work.isAvailable then
        match HostedWork.kubeconfig name hosting s.autoImportKubeconfig with
        | .error _ => none
        | .ok handed => some (handOver agent handed ready s.isKept)
      else some (bring agent fun now => Progress.pending now Progress.importing
        "Wait for importing resources to be available on the hosting cluster")

end Plan

theorem Names.importSecret_ne (name : String) :
    Names.importSecret name ≠ Names.autoImportSecret := by
  intro h
  have h := congrArg (fun s => s.toList.reverse) h
  simp [Names.importSecret, Names.autoImportSecret] at h

namespace Hub.Memory

def demand (m : Memory) (c : ManagedCluster) : Demand :=
  match c.hosting? with
  | none => .wait Progress.importFailed "Waiting for the user to specify the hosting cluster"
  | some hosting =>
    match Pass.hostingProblem? hosting (m.clusters.get? hosting) with
    | some problem => .wait Progress.importFailed problem
    | none =>
      match m.secrets.get? ⟨c.nameText, Names.importSecret c.nameText⟩ with
      | none => .wait Progress.waitForImporting "Wait for import secret to be created"
      | some s =>
        match s.payload? with
        | none =>
          .wait Progress.importFailed ("Import secret is invalid, error: " ++ Secret.payloadMissing)
        | some payload => .agent hosting payload

/-- The work of the cluster's credentials, if it is there with the label of the cluster. -/
def credentials (m : Memory) (name hosting : String) : ClusterWorks where
  hosted := ((m.works.get? ⟨hosting, Names.kubeconfigWork name⟩).filter fun w =>
    w.metadata.label? Names.hostedCluster == some name).toList

def plan? (m : Memory) (c : ManagedCluster) : Option Plan :=
  match m.demand c with
  | .wait reason message => some (.wait reason message)
  | .agent hosting payload =>
    Plan.agent? c.nameText hosting payload
      ((m.works.get? ⟨hosting, Names.klusterletWork c.nameText⟩).bind (·.status))
      (m.credentials c.nameText hosting) (m.secrets.get? (autoImportKey c))

end Hub.Memory

/-! ## What plans have in common -/

namespace Plan

variable {name hosting : String} {payload : Bytes} {status : Option WorkStatus}
  {credentials : ClusterWorks} {agent handed : ManifestWork} {s s' : Secret} {p : Plan}

section

variable (hagent : HostedWork.klusterlet name hosting payload = .ok agent)

include hagent

theorem agent?_without : agent? name hosting payload status credentials none =
    some (bring agent fun now => Pass.withoutSecret now name credentials
      (ManifestWork.isReadyToApply { agent with status := status } name)) := by
  unfold agent?
  rw [hagent]

theorem agent?_waiting
    (havailable : ManifestWork.isAvailable { agent with status := status } = false) :
    agent? name hosting payload status credentials (some s) =
      some (bring agent fun now => Progress.pending now Progress.importing
        "Wait for importing resources to be available on the hosting cluster") := by
  unfold agent?
  rw [hagent]
  dsimp only
  rw [havailable, if_neg Bool.false_ne_true]

theorem agent?_handOver
    (havailable : ManifestWork.isAvailable { agent with status := status } = true)
    (hhanded : HostedWork.kubeconfig name hosting s.autoImportKubeconfig = .ok handed) :
    agent? name hosting payload status credentials (some s) =
      some (handOver agent handed
        (ManifestWork.isReadyToApply { agent with status := status } name) s.isKept) := by
  unfold agent?
  rw [hagent]
  dsimp only
  rw [havailable, if_pos rfl, hhanded]

theorem agent?_of_unbuilt {e : BuildError}
    (havailable : ManifestWork.isAvailable { agent with status := status } = true)
    (hhanded : HostedWork.kubeconfig name hosting s.autoImportKubeconfig = .error e) :
    agent? name hosting payload status credentials (some s) = none := by
  unfold agent?
  rw [hagent]
  dsimp only
  rw [havailable, if_pos rfl, hhanded]

end

/-- All the plans for a cluster whose agent is wanted. -/
theorem agent?_cases {secret : Option Secret}
    (h : agent? name hosting payload status credentials secret = some p) :
    ∃ agent, HostedWork.klusterlet name hosting payload = .ok agent ∧
      ((∃ condition : Instant → Condition, (∀ now, (condition now).type = Names.importSucceeded) ∧
          p = bring agent condition) ∨
        ∃ s handed ready, secret = some s ∧
          HostedWork.kubeconfig name hosting s.autoImportKubeconfig = .ok handed ∧
          p = handOver agent handed ready s.isKept) := by
  unfold agent? at h
  cases hagent : HostedWork.klusterlet name hosting payload with
  | error e =>
    rw [hagent] at h
    cases h
  | ok agent =>
    rw [hagent] at h
    dsimp only at h
    refine ⟨agent, rfl, ?_⟩
    cases secret with
    | none =>
      refine Or.inl ⟨_, fun now => ?_, (Option.some.inj h).symm⟩
      unfold Pass.withoutSecret
      split <;> rfl
    | some s =>
      dsimp only at h
      split at h
      · cases hhanded : HostedWork.kubeconfig name hosting s.autoImportKubeconfig with
        | error e =>
          rw [hhanded] at h
          cases h
        | ok handed =>
          rw [hhanded] at h
          exact Or.inr ⟨s, handed, _, rfl, hhanded, (Option.some.inj h).symm⟩
      · exact Or.inl ⟨_, fun _ => rfl, (Option.some.inj h).symm⟩

/-- Only what the secret says counts, not how often it was tried. -/
theorem agent?_congr (hcontent : s'.autoImportKubeconfig = s.autoImportKubeconfig)
    (hkept : s'.isKept = s.isKept) :
    agent? name hosting payload status credentials (some s') =
      agent? name hosting payload status credentials (some s) := by
  unfold agent?
  dsimp only
  rw [hcontent, hkept]

end Plan

namespace Hub.Memory

variable {m m' : Memory} {c d : ManagedCluster} {p : Plan}

theorem hosting?_of_demand {hosting : String} {payload : Bytes}
    (h : m.demand c = .agent hosting payload) : c.hosting? = some hosting := by
  unfold demand at h
  cases hh : c.hosting? with
  | none =>
    rw [hh] at h
    cases h
  | some hosting' =>
    rw [hh] at h
    dsimp only at h
    split at h
    · cases h
    split at h
    · cases h
    split at h
    · cases h
    · cases h
      rfl

/-- Every plan tells in the end how far the import is. -/
theorem importSucceeded_mem_words (h : m.plan? c = some p) :
    Names.importSucceeded ∈ p.words.map (·.1) := by
  unfold plan? at h
  split at h
  · rw [← Option.some.inj h]
    exact List.mem_cons_self
  · obtain ⟨agent, -, ⟨condition, htype, rfl⟩ | ⟨s, handed, ready, -, -, rfl⟩⟩ :=
      Plan.agent?_cases h
    · exact List.mem_singleton.mpr (htype _).symm
    · refine List.mem_cons_of_mem _ (List.mem_singleton.mpr ?_)
      cases ready <;> rfl

/-- The works of a plan are the two works of the cluster. -/
theorem isOwn_of_plan? (h : m.plan? c = some p) {desired : ManifestWork}
    (hdesired : desired ∈ p.works) :
    ∃ hosting, c.hosting? = some hosting ∧ HostedWork.IsOwn c.nameText hosting desired := by
  unfold plan? at h
  split at h
  · rw [← Option.some.inj h] at hdesired
    cases hdesired
  next hosting payload hdemand =>
  refine ⟨hosting, hosting?_of_demand hdemand, ?_⟩
  obtain ⟨agent, hagent, ⟨condition, -, rfl⟩ | ⟨s, handed, ready, -, hhanded, rfl⟩⟩ :=
    Plan.agent?_cases h
  · rw [List.mem_singleton.mp hdesired]
    exact HostedWork.isOwn_of_klusterlet hagent
  · rcases List.mem_cons.mp hdesired with rfl | hdesired
    · exact HostedWork.isOwn_of_klusterlet hagent
    · rw [List.mem_singleton.mp hdesired]
      exact HostedWork.isOwn_of_kubeconfig hhanded

theorem mem_works_of_plan? {hosting : String} {payload : Bytes} {agent : ManifestWork}
    (hdemand : m.demand c = .agent hosting payload)
    (hagent : HostedWork.klusterlet c.nameText hosting payload = .ok agent)
    (h : m.plan? c = some p) : agent ∈ p.works := by
  unfold plan? at h
  rw [hdemand] at h
  obtain ⟨agent', hagent', hcases⟩ := Plan.agent?_cases h
  obtain rfl : agent = agent' := Except.ok.inj (hagent.symm.trans hagent')
  rcases hcases with ⟨condition, -, rfl⟩ | ⟨s, handed, ready, -, -, rfl⟩
  · exact List.mem_cons_self
  · exact List.mem_cons_self

/-- There is only a plan if the agent's work can be built. -/
theorem klusterlet_of_plan? {hosting : String} {payload : Bytes}
    (hdemand : m.demand c = .agent hosting payload) (h : m.plan? c = some p) :
    ∃ agent, HostedWork.klusterlet c.nameText hosting payload = .ok agent := by
  unfold plan? at h
  rw [hdemand] at h
  obtain ⟨agent, hagent, -⟩ := Plan.agent?_cases h
  exact ⟨agent, hagent⟩

theorem find?_works_of_plan? (h : m.plan? c = some p) {desired : ManifestWork}
    (hdesired : desired ∈ p.works) : p.works.find? (·.key == desired.key) = some desired := by
  unfold plan? at h
  split at h
  · rw [← Option.some.inj h] at hdesired
    cases hdesired
  next hosting payload hdemand =>
  obtain ⟨agent, hagent, ⟨condition, -, rfl⟩ | ⟨s, handed, ready, -, hhanded, rfl⟩⟩ :=
    Plan.agent?_cases h
  · rw [List.mem_singleton.mp hdesired]
    exact List.find?_cons_of_pos (beq_self_eq_true _)
  · rcases List.mem_cons.mp hdesired with rfl | hdesired
    · exact List.find?_cons_of_pos (beq_self_eq_true _)
    · rw [List.mem_singleton.mp hdesired]
      have hne : (agent.key == handed.key) = false := by
        rw [beq_eq_false_iff_ne, HostedWork.key_klusterlet hagent,
          HostedWork.key_kubeconfig hhanded]
        intro he
        exact Names.klusterletWork_ne_kubeconfigWork _ _ (ObjectKey.mk.inj he).2
      show List.find? (fun w => w.key == handed.key) [agent, handed] = some handed
      rw [List.find?_cons, hne, List.find?_cons, beq_self_eq_true]

/-! ## What plans go by -/

/-- The work of the credentials is listed when it is there with its label. -/
theorem hasHosted_credentials (hn : ',' ∉ c.nameText.toList) (hm : m.Filed) {hosting : String}
    (hh : c.hosting? = some hosting) :
    (m.credentials c.nameText hosting).hasHosted (Names.kubeconfigWork c.nameText) =
      (m.worksOf c).hasHosted (Names.kubeconfigWork c.nameText) := by
  rw [Bool.eq_iff_iff, ClusterWorks.hasHosted_iff, ClusterWorks.hasHosted_iff]
  constructor
  · rintro ⟨w, hw, hname⟩
    have hw' := Option.mem_toList.mp hw
    rw [Option.filter_eq_some_iff, beq_iff_eq] at hw'
    exact ⟨w, (mem_hosted_iff hn).mpr ⟨_, hw', hh⟩, hname⟩
  · rintro ⟨w, hw, hname⟩
    obtain ⟨k, hk, hspace⟩ := (mem_hosted_iff hn).mp hw
    have hkey : k = ⟨hosting, Names.kubeconfigWork c.nameText⟩ := by
      have hfiled : w.key = k := hm.works k w hk.1
      have hkname : w.key.name = Names.kubeconfigWork c.nameText :=
        (ManifestWork.nameText_eq_iff (Names.kubeconfigWork_ne_empty _)).mpr hname
      rw [hh, Option.some.injEq] at hspace
      rw [← hkname, hfiled, hspace]
    subst hkey
    refine ⟨w, Option.mem_toList.mpr ?_, hname⟩
    rw [Option.filter_eq_some_iff, beq_iff_eq]
    exact hk

theorem hostingProblem?_congr {hosting : String} {x y : Option ManagedCluster}
    (h : x.map ManagedCluster.bare = y.map ManagedCluster.bare) :
    Pass.hostingProblem? hosting x = Pass.hostingProblem? hosting y := by
  cases x with
  | none =>
    cases y with
    | none => rfl
    | some e => cases h
  | some d =>
    cases y with
    | none => cases h
    | some e =>
      dsimp only [Pass.hostingProblem?]
      rw [ManagedCluster.isDeleting_of_bare (Option.some.inj h)]

theorem demand_congr
    (hclusters : ∀ n, (m'.clusters.get? n).map ManagedCluster.bare =
      (m.clusters.get? n).map ManagedCluster.bare)
    (hsecret : m'.secrets.get? ⟨c.nameText, Names.importSecret c.nameText⟩ =
      m.secrets.get? ⟨c.nameText, Names.importSecret c.nameText⟩) :
    m'.demand c = m.demand c := by
  unfold demand
  simp only [hsecret, hostingProblem?_congr (hclusters _)]

theorem demand_of_works {K : ObjectKey → Prop} (h : Within { works := K } m m')
    (c : ManagedCluster) : m'.demand c = m.demand c :=
  demand_congr (fun n => by rw [h.clusters n id]) (h.secrets _ id)

theorem bares_of_within (h : Within { clusters := (· = c.nameText) } m m')
    (hd : m.clusters.get? c.nameText = some d) {d' : ManagedCluster}
    (hd' : m'.clusters.get? c.nameText = some d') (hbare : d'.bare = d.bare) (n : String) :
    (m'.clusters.get? n).map ManagedCluster.bare = (m.clusters.get? n).map ManagedCluster.bare := by
  by_cases hn : n = c.nameText
  · rw [hn, hd, hd', Option.map_some, Option.map_some, hbare]
  · rw [h.clusters n hn]

theorem demand_of_cluster (h : Within { clusters := (· = c.nameText) } m m')
    (hd : m.clusters.get? c.nameText = some d) {d' : ManagedCluster}
    (hd' : m'.clusters.get? c.nameText = some d') (hbare : d'.bare = d.bare) :
    m'.demand c = m.demand c :=
  demand_congr (bares_of_within h hd hd' hbare) (h.secrets _ id)

theorem demand_of_secret (h : Within { secrets := (· = autoImportKey c) } m m') :
    m'.demand c = m.demand c := by
  refine demand_congr (fun n => by rw [h.clusters n id]) (h.secrets _ fun he => ?_)
  exact Names.importSecret_ne _ (ObjectKey.mk.inj he).2

theorem plan?_congr (hdemand : m'.demand c = m.demand c) (hworks : m'.works = m.works)
    (hsecret : m'.secrets.get? (autoImportKey c) = m.secrets.get? (autoImportKey c)) :
    m'.plan? c = m.plan? c := by
  unfold plan? credentials
  rw [hdemand, hworks, hsecret]

theorem plan?_of_alike (h : Alike m m') (c : ManagedCluster) : m'.plan? c = m.plan? c :=
  plan?_congr (demand_of_works (Within.of_alike { works := fun _ => False } h) c) h.works
    (by rw [h.secrets])

/-- The agent's work counts by what the agent has reported. -/
theorem plan?_of_agent {hosting : String} {payload : Bytes} {w : ManifestWork}
    (hdemand : m.demand c = .agent hosting payload)
    (hwithin : Within { works := (· = ⟨hosting, Names.klusterletWork c.nameText⟩) } m m')
    (hw : m'.works.get? ⟨hosting, Names.klusterletWork c.nameText⟩ = some w)
    (hstatus : w.status =
      (m.works.get? ⟨hosting, Names.klusterletWork c.nameText⟩).bind (·.status)) :
    m'.plan? c = m.plan? c := by
  have hsecrets : m'.secrets = m.secrets := hwithin.secrets_eq fun _ => id
  have hdemand' : m'.demand c = m.demand c := demand_of_works hwithin c
  have hcredentials : m'.works.get? ⟨hosting, Names.kubeconfigWork c.nameText⟩ =
      m.works.get? ⟨hosting, Names.kubeconfigWork c.nameText⟩ :=
    hwithin.works _ fun he =>
      Names.klusterletWork_ne_kubeconfigWork _ _ (ObjectKey.mk.inj he).2.symm
  unfold plan? credentials
  rw [hdemand', hdemand, hsecrets]
  dsimp only
  rw [hcredentials, hw, Option.bind_some, hstatus]

theorem demand_of_bare (h : d.bare = c.bare) (m : Memory) : m.demand d = m.demand c := by
  unfold demand
  rw [ManagedCluster.hosting?_of_bare h, ManagedCluster.nameText_of_bare h]

theorem plan?_of_bare (h : d.bare = c.bare) (m : Memory) : m.plan? d = m.plan? c := by
  unfold plan? autoImportKey
  rw [demand_of_bare h, ManagedCluster.nameText_of_bare h]

theorem worksOf_of_bare (h : d.bare = c.bare) (m : Memory) : m.worksOf d = m.worksOf c := by
  unfold worksOf
  rw [ManagedCluster.hosting?_of_bare h, ManagedCluster.nameText_of_bare h]

end Hub.Memory
end Hosting
