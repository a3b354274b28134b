import Hosting.Proofs.Credentials
import Hosting.Proofs.Reconcile

/-!
# What a live cluster shows of its import

A pass that does not fail leaves a cluster that tells how far its import is, as a function of
what others have put in the hub and of the report on the agent's work (`comesTo`).  The pass
computes it from copies that it has read at different times; `state_after_pass` says that it is
the state of the hub all the same.
-/

namespace Hosting
namespace ImportState

open Hub (Lax Memory Open Request)
open Hub.Memory (Alike Within)
open Pass Sample

variable {α : Type} {name hosting : String} {ctx : Context} {c d d' : ManagedCluster}
  {m m₁ m₂ m' : Memory} {t : Instant} {payload : Bytes} {agent w : ManifestWork}

def payloadKey (c : ManagedCluster) : ObjectKey := ⟨c.nameText, Names.importSecret c.nameText⟩

def agentKey (c : ManagedCluster) (hosting : String) : ObjectKey :=
  ⟨hosting, Names.klusterletWork c.nameText⟩

/-- The hosting cluster, if one is named that is there to stay. -/
def host? (c : ManagedCluster) (m : Memory) : Option String :=
  c.hosting?.filter fun h => (m.clusters.get? h).any fun d => !d.isDeleting

/-- By the work of its agent, the cluster is imported: the agent is ready, and if there are
credentials for it, they can be handed over. -/
def isComplete (c : ManagedCluster) (m : Memory) (w : ManifestWork) : Bool :=
  w.isReadyToApply c.nameText && ((m.secrets.get? (autoImportKey c)).isNone || w.isAvailable)

/-- Status and reason of the import of `c` after a pass from the state `m` to the state `m'`. -/
def comesTo (c : ManagedCluster) (m m' : Memory) : Verdict × String :=
  match host? c m with
  | none => (.false, Progress.importFailed)
  | some hosting =>
    match m.secrets.get? (payloadKey c) with
    | none => (.false, Progress.waitForImporting)
    | some s =>
      if s.payload?.isNone then (.false, Progress.importFailed)
      else if (m'.works.get? (agentKey c hosting)).any (isComplete c m) then
        (.true, Progress.imported)
      else (.false, Progress.importing)

/-- The cluster shows what its import has come to, and where the agent is wanted, its work is
stored with the spec that is built of the payload. -/
structure Shown (c : ManagedCluster) (m m' : Memory) : Prop where
  state : ∃ d x, m'.clusters.get? c.nameText = some d ∧
    Conditions.find? d.conditions Names.importSucceeded = some x ∧
      (x.status, x.reason) = comesTo c m m'
  agent : ∀ h s payload, host? c m = some h → m.secrets.get? (payloadKey c) = some s →
    s.payload? = some payload → ∃ agent w,
      HostedWork.klusterlet c.nameText h payload = .ok agent ∧
        m'.works.get? (agentKey c h) = some w ∧ w.spec.agrees agent.spec = true ∧
          (Json.areExact agent.spec.manifests = true → w.spec = agent.spec)

/-- The work of the credentials is only brought when they were there at first, and the agent is
available. -/
def HandsOver (c : ManagedCluster) (m : Memory) (q : Request) (m' : Memory) : Prop :=
  ∀ w, q = .createWork w ∨ q = .replaceWork w → w.key.name = Names.kubeconfigWork c.nameText →
    (∃ s, m.secrets.get? (autoImportKey c) = some s) ∧ c.hosting? = some w.key.nspace ∧
      ∃ v, m'.works.get? (agentKey c w.key.nspace) = some v ∧ v.isAvailable = true

/-! ## What the hub asks for -/

theorem host?_eq_some_iff {h : String} : host? c m = some h ↔
    c.hosting? = some h ∧ hostingProblem? h (m.clusters.get? h) = none := by
  rw [host?, Option.filter_eq_some_iff]
  refine and_congr_right fun _ => ?_
  unfold hostingProblem?
  cases m.clusters.get? h with
  | none => simp
  | some d => cases hd : d.isDeleting <;> simp [hd]

theorem comesTo_of_wait {reason message : String} (h : m.demand c = .wait reason message) :
    comesTo c m m' = (.false, reason) := by
  unfold Hub.Memory.demand at h
  split at h
  · next hh =>
    cases h
    simp [comesTo, host?, hh]
  next hosting hh =>
  split at h
  · next problem hproblem =>
    cases h
    have hnone : host? c m = none := by
      rw [Option.eq_none_iff_forall_ne_some]
      intro h hhost
      obtain ⟨hh', hproblem'⟩ := host?_eq_some_iff.mp hhost
      rw [hh, Option.some.injEq] at hh'
      rw [← hh', hproblem] at hproblem'
      cases hproblem'
    simp [comesTo, hnone]
  next hproblem =>
  have hhost : host? c m = some hosting := host?_eq_some_iff.mpr ⟨hh, hproblem⟩
  split at h
  · next hs =>
    cases h
    simp [comesTo, hhost, payloadKey, hs]
  next s hs =>
  split at h
  · next hpayload =>
    cases h
    simp [comesTo, hhost, payloadKey, hs, hpayload]
  · cases h

theorem demand_of_payload {s : Secret} (hhost : host? c m = some hosting)
    (hs : m.secrets.get? (payloadKey c) = some s) (hpayload : s.payload? = some payload) :
    m.demand c = .agent hosting payload := by
  obtain ⟨hh, hproblem⟩ := host?_eq_some_iff.mp hhost
  unfold payloadKey at hs
  simp only [Hub.Memory.demand, hh, hproblem, hs, hpayload]

theorem payload_of_demand (h : m.demand c = .agent hosting payload) :
    host? c m = some hosting ∧ ∃ s, m.secrets.get? (payloadKey c) = some s ∧
      s.payload? = some payload := by
  unfold Hub.Memory.demand at h
  split at h
  · cases h
  next h' hh =>
  split at h
  · cases h
  next hproblem =>
  split at h
  · cases h
  next s hs =>
  split at h
  · cases h
  next hpayload =>
  cases h
  exact ⟨host?_eq_some_iff.mpr ⟨hh, hproblem⟩, s, hs, hpayload⟩

theorem comesTo_congr (hw : m₂.works = m₁.works) : comesTo c m m₂ = comesTo c m m₁ := by
  unfold comesTo
  rw [hw]

theorem Shown.congr (h : Shown c m m₁)
    (hc : m₂.clusters.get? c.nameText = m₁.clusters.get? c.nameText)
    (hw : m₂.works = m₁.works) : Shown c m m₂ where
  state := by
    rw [hc, comesTo_congr hw]
    exact h.state
  agent := hw ▸ h.agent

/-! ## The steps -/

theorem lax_handsOver : Lax (HandsOver c m) := by
  rintro q m' hq w (rfl | rfl) <;> exact absurd trivial hq

theorem puts_handsOver (h : w.key.name = Names.kubeconfigWork c.nameText →
      (∃ s, m.secrets.get? (autoImportKey c) = some s) ∧ c.hosting? = some w.key.nspace ∧
        ∃ v, m₁.works.get? (agentKey c w.key.nspace) = some v ∧ v.isAvailable = true) :
    HandsOver c m (.createWork w) m₁ ∧ HandsOver c m (.replaceWork w) m₁ := by
  constructor
  · rintro v (hv | hv)
    · cases hv
      exact h
    · cases hv
  · rintro v (hv | hv)
    · cases hv
    · cases hv
      exact h

/-- The pass has come to the state `m₁`, in which the cluster is `d` and its status is still the
one that was read. -/
structure Before (c : ManagedCluster) (m : Memory) (d : ManagedCluster) (m₁ : Memory) : Prop where
  named : c.metadata.IsNamed
  stored : m₁.clusters.get? c.nameText = some d
  bare : d.bare = c.bare
  status : d.status = c.status
  secret : m₁.secrets.get? (autoImportKey c) = m.secrets.get? (autoImportKey c)

theorem Before.alike (h : Before c m d m₁) (h' : Alike m₁ m₂) : Before c m d m₂ where
  named := h.named
  stored := h'.clusters ▸ h.stored
  bare := h.bare
  status := h.status
  secret := h'.secrets ▸ h.secret

theorem Before.synced {copy : Bool} {works : Nat} (h : Before c m d m₁)
    (hwithin : Within { clusters := (· = c.nameText) } m₁ m₂)
    (hd' : m₂.clusters.get? c.nameText = some d') (hsync : Synced copy works d d') :
    Before c m d' m₂ where
  named := h.named
  stored := hd'
  bare := hsync.bare.trans h.bare
  status := hsync.status.trans h.status
  secret := (hwithin.secrets _ id).trans h.secret

theorem Before.within {scope : Hub.Memory.Scope} (h : Before c m d m₁)
    (hwithin : Within scope m₁ m₂) (hcluster : ¬scope.clusters c.nameText)
    (hsecret : ¬scope.secrets (autoImportKey c)) : Before c m d m₂ where
  named := h.named
  stored := (hwithin.clusters _ hcluster).trans h.stored
  bare := h.bare
  status := h.status
  secret := (hwithin.secrets _ hsecret).trans h.secret

/-- The agent that is wanted was brought, as the work `w`. -/
structure Stands (c : ManagedCluster) (m : Memory) (hosting : String) (agent w : ManifestWork)
    (m₁ : Memory) : Prop where
  demand : ∃ payload, m.demand c = .agent hosting payload ∧
    HostedWork.klusterlet c.nameText hosting payload = .ok agent
  stored : m₁.works.get? (agentKey c hosting) = some w
  spec : w.spec.agrees agent.spec = true

theorem Stands.congr (h : Stands c m hosting agent w m₁)
    (hw : m₂.works.get? (agentKey c hosting) = m₁.works.get? (agentKey c hosting)) :
    Stands c m hosting agent w m₂ := ⟨h.demand, hw.trans h.stored, h.spec⟩

theorem Stands.comesTo_eq (h : Stands c m hosting agent w m') : comesTo c m m' =
    if isComplete c m w then (.true, Progress.imported) else (.false, Progress.importing) := by
  obtain ⟨payload, hdemand, -⟩ := h.demand
  obtain ⟨hhost, s, hs, hpayload⟩ := payload_of_demand hdemand
  simp [comesTo, hhost, hs, hpayload, h.stored]

/-- What is to be told of an import, whatever it has come to. -/
theorem shown_of_reported {new : List Condition} {x : Condition} (hr : Reported new d d')
    (hnew : new.Pairwise (·.type ≠ ·.type)) (hx : x ∈ new) (htype : x.type = Names.importSucceeded)
    (hd' : m'.clusters.get? c.nameText = some d') (hstate : (x.status, x.reason) = comesTo c m m')
    (hagent : ∀ hosting payload, m.demand c = .agent hosting payload →
      ∃ agent w, Stands c m hosting agent w m') : Shown c m m' where
  state := by
    have hshown := hr.shows hnew hx
    rw [shows, htype, Option.any_eq_true] at hshown
    obtain ⟨y, hy, hsame⟩ := hshown
    simp only [Condition.sameState, Bool.and_eq_true, beq_iff_eq] at hsame
    refine ⟨d', y, hd', hy, ?_⟩
    rw [hsame.1.1, hsame.1.2, hstate]
  agent h s payload hhost hs hpayload := by
    have hdemand := demand_of_payload hhost hs hpayload
    obtain ⟨agent, w, ⟨payload', hdemand', hbuild⟩, hstored, hspec⟩ := hagent h payload hdemand
    rw [hdemand] at hdemand'
    cases hdemand'
    exact ⟨agent, w, hbuild, hstored, hspec, fun hexact => WorkSpec.eq_of_agrees hexact hspec⟩

/-- A condition that tells what the import has come to. -/
theorem setConditions_shown {new : List Condition} {x : Condition} (h : Before c m d m₁)
    (hnew : new.Pairwise (·.type ≠ ·.type)) (hx : x ∈ new) (htype : x.type = Names.importSucceeded)
    (hstate : ∀ m', m'.works = m₁.works → (x.status, x.reason) = comesTo c m m')
    (hagent : ∀ hosting payload, m.demand c = .agent hosting payload →
      ∃ agent w, Stands c m hosting agent w m₁) :
    Meets t (HandsOver c m) (Yields fun _ m' => Shown c m m') (setConditions ctx c new) m₁ := by
  refine setConditions_meets lax_handsOver h.named h.stored
    (ManagedCluster.nameText_of_bare h.bare) h.status (fun _ _ _ => trivial)
    fun d' m' hwithin hd' hr => ?_
  have hworks : m'.works = m₁.works := hwithin.works_eq fun _ => id
  refine shown_of_reported hr hnew hx htype hd' (hstate m' hworks) fun hosting payload hd => ?_
  obtain ⟨agent, w, hstands⟩ := hagent hosting payload hd
  exact ⟨agent, w, hstands.congr (by rw [hworks])⟩

/-- Once the agent stands, it is enough to tell what comes of that. -/
theorem Stands.shown {new : List Condition} {x : Condition}
    (hstands : Stands c m hosting agent w m₁) (h : Before c m d m₁)
    (hnew : new.Pairwise (·.type ≠ ·.type)) (hx : x ∈ new) (htype : x.type = Names.importSucceeded)
    (hstate : ∀ m', Stands c m hosting agent w m' → (x.status, x.reason) = comesTo c m m') :
    Meets t (HandsOver c m) (Yields fun _ m' => Shown c m m') (setConditions ctx c new) m₁ := by
  obtain ⟨payload, hdemand, -⟩ := hstands.demand
  refine setConditions_shown h hnew hx htype
    (fun m' hw => hstate m' (hstands.congr (by rw [hw]))) fun hosting' payload' hdemand' => ?_
  rw [hdemand] at hdemand'
  cases hdemand'
  exact ⟨agent, w, hstands⟩

theorem failWith_yields {post : α → Memory → Prop} (h : Before c m d m₁) (new : Condition)
    (f : Failure) :
    Meets t (HandsOver c m) (Yields post) (failWith ctx c new f) m₁ := by
  refine meets_bind.mpr (meets_attempt.mpr (setConditions_meets lax_handsOver h.named
    h.stored (ManagedCluster.nameText_of_bare h.bare) h.status ?_ ?_))
  · exact fun _ _ _ => meets_throw.mpr trivial
  · exact fun _ _ _ _ _ => meets_throw.mpr trivial

/-- A failure to hand the credentials over is recorded and counted, whatever comes of that. -/
theorem failHandOver_yields {post : Unit → Memory → Prop} {new : List Condition} {s : Secret}
    {f : Except Failure Unit → Except Failure Unit → Failure} (h : Before c m d m₁) :
    Meets t (HandsOver c m) (Yields post) (do
      let recorded ← attempt (setConditions ctx c new)
      let counted ← attempt (countRetry s)
      throw (f recorded counted)) m₁ := by
  have hcount (r : Except Failure Unit) (m₂ : Memory) :
      Meets t (HandsOver c m) (Yields post) (do
        let counted ← attempt (countRetry s)
        throw (f r counted)) m₂ := by
    exact meets_bind.mpr (meets_attempt.mpr (meets_bind.mpr
      (ask_meets (Hub.Memory.replaceSecret_gives s.retried.1) (lax_handsOver _ _ id)
        (fun _ _ _ => trivial) fun _ _ _ => trivial)))
  refine meets_bind.mpr (meets_attempt.mpr (setConditions_meets lax_handsOver h.named
    h.stored (ManagedCluster.nameText_of_bare h.bare) h.status ?_ ?_))
  · exact fun f m₂ _ => hcount _ m₂
  · exact fun _ m₂ _ _ _ => hcount _ m₂

theorem consume_shown (hnamed : c.metadata.IsNamed) (h : Shown c m m₁) (s : Secret) :
    Meets t (HandsOver c m) (Yields fun _ m' => Shown c m m') (consume c s) m₁ := by
  unfold consume
  rw [ManagedCluster.anyName_eq hnamed]
  split
  · exact meets_pure.mpr h
  refine meets_bind_yields.mpr (ask_meets (Hub.Memory.deleteSecret_gives (autoImportKey c))
    (lax_handsOver _ _ id) (fun _ _ _ => trivial) fun _ m₂ hdel => ?_)
  refine publish_meets lax_handsOver fun m₃ hm => h.congr ?_ ?_
  · rw [hm.clusters, hdel.1.clusters _ id]
  · exact hm.works.trans (hdel.1.works_eq fun _ => id)

theorem isComplete_of_secret {s : Secret} (hs : m.secrets.get? (autoImportKey c) = some s) :
    isComplete c m w = (w.isReadyToApply c.nameText && w.isAvailable) := by
  simp [isComplete, hs]

theorem handOver_shown {s : Secret} (h : Before c m d m₁) (hstands : Stands c m hosting agent w m₁)
    (hs : m.secrets.get? (autoImportKey c) = some s) (havailable : w.isAvailable = true)
    (hfiled : ∀ v, m₁.works.get? ⟨hosting, Names.kubeconfigWork c.nameText⟩ = some v →
      v.key = ⟨hosting, Names.kubeconfigWork c.nameText⟩) :
    Meets t (HandsOver c m) (Yields fun _ m' => Shown c m m')
      (handOver ctx c hosting (w.isReadyToApply c.nameText) s) m₁ := by
  unfold handOver
  rw [ManagedCluster.anyName_eq h.named]
  cases hbuild : HostedWork.kubeconfig c.nameText hosting s.autoImportKubeconfig with
  | error e => exact failWith_yields h _ _
  | ok handed =>
    have hkey := HostedWork.key_kubeconfig hbuild
    obtain ⟨payload, hdemand, -⟩ := hstands.demand
    refine meets_bind.mpr (meets_attempt.mpr (applyWork_meets lax_handsOver
      (HostedWork.isOwn_of_kubeconfig hbuild).named
      (fun v hv => puts_handsOver fun _ => ?_) (hkey ▸ hfiled) ?_ ?_))
    · rw [hv, hkey]
      exact ⟨⟨s, hs⟩, Hub.Memory.hosting?_of_demand hdemand, w, hstands.stored, havailable⟩
    · exact fun f m₂ hm => failHandOver_yields (h.alike hm)
    intro v m₂ hwithin _ _
    have hstands₂ : Stands c m hosting agent w m₂ := by
      refine hstands.congr (hwithin.works _ fun he => ?_)
      rw [hkey] at he
      exact Names.klusterletWork_ne_kubeconfigWork _ _ (ObjectKey.mk.inj he).2
    have h₂ : Before c m d m₂ := h.within hwithin id id
    refine meets_bind_yields.mpr ((hstands₂.shown h₂ (pairwise_told ctx.now _)
      (List.mem_cons_of_mem _ (List.mem_singleton.mpr rfl)) ?_ fun m' hstands' =>
        ?_).yields_imp fun _ m₃ h₃ => consume_shown h.named h₃ s)
    · split <;> rfl
    · rw [hstands'.comesTo_eq, isComplete_of_secret hs, havailable, Bool.and_true]
      split <;> rfl

/-- Without credentials to hand over, the report on the agent decides alone. -/
theorem state_withoutSecret (now : Instant) (works : ClusterWorks)
    (hstands : Stands c m hosting agent w m') (hs : m.secrets.get? (autoImportKey c) = none) :
    let x := withoutSecret now c.nameText works (w.isReadyToApply c.nameText)
    x.type = Names.importSucceeded ∧ (x.status, x.reason) = comesTo c m m' := by
  have hcomplete : isComplete c m w = w.isReadyToApply c.nameText := by
    simp [isComplete, hs]
  rw [hstands.comesTo_eq, hcomplete]
  unfold withoutSecret
  split <;> exact ⟨rfl, rfl⟩

theorem bringAgent_shown (hm : m.Filed) (h : Before c m d m₁) (hworks : m₁.works = m.works)
    (hlive : c.isDeleting = false) (hdemand : m.demand c = .agent hosting payload)
    (works : ClusterWorks) :
    Meets t (HandsOver c m) (Yields fun _ m' => Shown c m m')
      (bringAgent ctx c works hosting payload) m₁ := by
  unfold bringAgent
  rw [ManagedCluster.anyName_eq h.named]
  cases hbuild : HostedWork.klusterlet c.nameText hosting payload with
  | error e => exact failWith_yields h _ _
  | ok agent =>
    have hkey : agent.key = agentKey c hosting := HostedWork.key_klusterlet hbuild
    have hown := HostedWork.isOwn_of_klusterlet hbuild
    refine meets_bind.mpr (meets_attempt.mpr (applyWork_meets lax_handsOver hown.named
      (fun v hv => puts_handsOver fun hname => ?_)
      (fun v hv => hm.works _ v (hworks ▸ hv)) ?_ ?_))
    · rw [hv, hkey] at hname
      exact absurd hname (Names.klusterletWork_ne_kubeconfigWork _ _)
    · exact fun f m₂ hm₂ => failWith_yields (h.alike hm₂) _ _
    intro w m₂ hwithin hw hbrought
    have hspec := hbrought.fulfils hown.self
    unfold ManifestWork.fulfils at hspec
    rw [Bool.and_eq_true, Bool.and_eq_true] at hspec
    have hstands : Stands c m hosting agent w m₂ :=
      ⟨⟨payload, hdemand, hbuild⟩, hkey ▸ hw, hspec.1.1⟩
    have h₂ : Before c m d m₂ := h.within hwithin id id
    refine meets_bind_yields.mpr (syncFinalizer_live_meets lax_handsOver h.named h₂.stored h₂.bare
      hlive (fun _ _ _ => trivial) fun d' m₃ hwithin₃ hd' hsync => ?_)
    have h₃ := h₂.synced hwithin₃ hd' hsync
    have hworks₃ : m₃.works = m₂.works := hwithin₃.works_eq fun _ => id
    have hstands₃ : Stands c m hosting agent w m₃ := hstands.congr (by rw [hworks₃])
    refine meets_bind_yields.mpr (getSecret_meets lax_handsOver.reads h₃.secret ?_)
    dsimp only [Yields]
    cases hs : m.secrets.get? (autoImportKey c) with
    | none =>
      exact hstands₃.shown h₃ (List.pairwise_singleton _ _) (List.mem_singleton.mpr rfl)
        (state_withoutSecret ctx.now works hstands₃ hs).1
        fun m' hstands' => (state_withoutSecret ctx.now works hstands' hs).2
    | some s =>
      dsimp only
      cases havailable : w.isAvailable with
      | true =>
        rw [if_pos rfl]
        refine handOver_shown h₃ hstands₃ hs havailable fun v hv => ?_
        refine hm.works _ v ?_
        rw [hworks₃, hwithin.works _ fun he => ?_, hworks] at hv
        · exact hv
        · rw [hkey] at he
          exact Names.klusterletWork_ne_kubeconfigWork _ _ (ObjectKey.mk.inj he).2.symm
      | false =>
        rw [if_neg Bool.false_ne_true]
        refine hstands₃.shown h₃ (List.pairwise_singleton _ _) (List.mem_singleton.mpr rfl) rfl
          fun m' hstands' => ?_
        rw [hstands'.comesTo_eq, isComplete_of_secret hs, havailable, Bool.and_false]
        rfl

/-! ## The pass -/

theorem reconcile_shown (hm : m.Named) (hc : m.clusters.get? name = some c)
    (hhosted : c.isHosted = true) (hlive : c.isDeleting = false) :
    Meets t (HandsOver c m) (Yields fun _ m' => Shown c m m') (reconcile ctx name) m := by
  have hname : c.nameText = name := hm.clusters name c hc
  have hnamed : c.metadata.IsNamed := hm.clusterNames name c hc
  have hstored : m.clusters.get? c.nameText = some c := hname.symm ▸ hc
  unfold reconcile
  refine meets_bind_yields.mpr (getCluster_meets lax_handsOver.reads hc ?_)
  dsimp only [Yields]
  rw [hhosted, if_pos rfl]
  refine meets_bind_yields.mpr
    (listWorks_meets lax_handsOver.reads hnamed (fun _ _ _ _ => trivial) ?_)
  refine meets_bind_yields.mpr (syncFinalizer_live_meets lax_handsOver hnamed hstored rfl hlive
    (fun _ _ _ => trivial) fun d m₁ hwithin hd hsync => ?_)
  have h₁ : Before c m d m₁ := Before.synced ⟨hnamed, hstored, rfl, rfl, rfl⟩ hwithin hd hsync
  have hdemand : m₁.demand c = m.demand c :=
    Hub.Memory.demand_of_cluster hwithin hstored hd hsync.bare
  simp only [hlive, Bool.false_eq_true, if_false]
  have himport : Meets t (HandsOver c m) (Yields fun _ m' => Shown c m m')
      (importCluster ctx c (m.worksOf c)) m₁ := by
    refine importCluster_cases lax_handsOver.reads hnamed (fun reason message hwait => ?_)
      fun hosting payload hagent => ?_
    · rw [hdemand] at hwait
      refine setConditions_shown h₁ (List.pairwise_singleton _ _) (List.mem_singleton.mpr rfl) rfl
        (fun m' _ => ?_) fun hosting payload hagent => ?_
      · exact (comesTo_of_wait hwait).symm
      · rw [hwait] at hagent
        cases hagent
    · exact bringAgent_shown hm.toFiled h₁ (hwithin.works_eq fun _ => id) hlive (hdemand ▸ hagent) _
  exact meets_bind_yields.mpr (himport.yields_imp fun _ _ h => meets_pure.mpr h)

/-- After a pass over a live cluster that does not fail, the cluster shows what its import has
come to.  However it ends, the pass brings no work of credentials that there were none of at
first, or for which there is no agent yet. -/
theorem state_after_pass (hm : m.Named) (hc : m.clusters.get? name = some c)
    (hhosted : c.isHosted = true) (hlive : c.isDeleting = false) :
    (∀ o, Run.outcome ctx name m = .ok o → Shown c m (Run.afterPass ctx name m)) ∧
      ∀ i ∈ Run.issuedBy ctx name m, HandsOver c m i.request i.hub := by
  have hmeets : Meets ctx.now (HandsOver c m) (Yields fun _ m' => Shown c m m')
      (reconcile ctx name) m := reconcile_shown hm hc hhosted hlive
  constructor
  · intro o ho
    have hshown : Yields (fun _ m' => Shown c m m') (Run.outcome ctx name m)
        (Run.afterPass ctx name m) := Dialogue.Meets.run hmeets
    rw [ho] at hshown
    exact hshown
  · intro i hi
    obtain ⟨e, he, rfl⟩ := List.mem_map.mp hi
    exact (Dialogue.meets_iff.mp hmeets).1 e he

/-- The agent reports that its work is available and that it is ready, and the credentials are
there for it. -/
def reported : Memory :=
  Run.after "c" (setUp (hosted "c" "h") ++ [
    onePass,
    .change (.report ⟨"h", "c-hosted-klusterlet"⟩ {
      conditions := [⟨Names.workAvailable, .true, "", "", none⟩]
      reports := some [{
        resource := {
          group := Names.operatorGroup, resource := "klusterlets", name := Names.klusterlet "c" }
        feedback := [⟨Names.readyToApply, { type := "String", string := some "True" }⟩] }] }),
    .change (.secret {
      metadata := { name := some Names.autoImportSecret, nspace := some "c" }
      data := some (.singleton Names.kubeconfig [0x6B, 0x63]) })]) {}

def createdWork? (i : Issued) : Option ObjectKey :=
  match i.request with
  | .createWork w => some w.key
  | _ => none

theorem imported_after_report :
    Run.outcome { now := now } "c" reported = .ok .done ∧
      (Run.issuedBy { now := now } "c" reported).filterMap createdWork? =
        [⟨"h", "c-hosted-kubeconfig"⟩] ∧
      ∃ c, reported.clusters.get? "c" = some c ∧
        comesTo c reported (Run.afterPass { now := now } "c" reported) =
          (.true, Progress.imported) ∧
        Shown c reported (Run.afterPass { now := now } "c" reported) ∧
        ∀ i ∈ Run.issuedBy { now := now } "c" reported, HandsOver c reported i.request i.hub := by
  have hpass : (Run.outcome { now := now } "c" reported).toOption = some .done ∧
      (Run.issuedBy { now := now } "c" reported).filterMap createdWork? =
        [⟨"h", "c-hosted-kubeconfig"⟩] ∧
      (reported.clusters.get? "c").any (fun c => c.isHosted && !c.isDeleting &&
        comesTo c reported (Run.afterPass { now := now } "c" reported) ==
          (.true, Progress.imported)) = true := by decide +kernel
  obtain ⟨hok, hcreated, hcluster⟩ := hpass
  obtain ⟨c, hc, hfacts⟩ := (Option.any_eq_true _ _).mp hcluster
  simp only [Bool.and_eq_true, Bool.not_eq_true', beq_iff_eq] at hfacts
  have hdone := Run.outcome_of_toOption hok
  have hnamed : reported.Named := Run.named_after _ Hub.Memory.named_empty (by decide +kernel)
  have hstate : (∀ o, Run.outcome { now := now } "c" reported = .ok o → _) ∧ _ :=
    state_after_pass hnamed hc hfacts.1.1 hfacts.1.2
  exact ⟨hdone, hcreated, c, hc, hfacts.2, hstate.1 _ hdone, hstate.2⟩

end ImportState
end Hosting
