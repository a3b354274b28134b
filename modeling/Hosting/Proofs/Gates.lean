import Hosting.Proofs.Independence
import Hosting.Proofs.ImportState
import Hosting.Proofs.Pass.Force

/-!
# What an import checks before it begins

Nothing is brought to a hosting cluster before all is there that it takes: the hosting cluster,
and a payload that is of use as a whole.  Nothing is handed over before there is a kubeconfig.
`gates_hold` says so of whole passes, whatever fails in them.
-/

namespace Hosting
namespace Gates

open Hub (Lax Memory Request)
open Hub.Memory (Alike Within)
open ImportState (Before agentKey host? payloadKey payload_of_demand)
open Pass

variable {α : Type} {name hosting : String} {ctx : Context} {c d : ManagedCluster}
  {m m₁ m' : Memory} {t : Instant} {payload : Bytes} {agent : ManifestWork}
  {allowed : Request → Memory → Prop}

/-! ## What is checked -/

/-- Something is wrong with what the import of the cluster takes. -/
inductive Barred (c : ManagedCluster) (m : Memory) : Prop where
  | unhosted (hhost : host? c m = none)
  | missing (hs : m.secrets.get? (payloadKey c) = none)
  | empty {s : Secret} (hs : m.secrets.get? (payloadKey c) = some s) (hp : s.payload? = none)
  | garbled {s : Secret} {payload : Bytes} (hs : m.secrets.get? (payloadKey c) = some s)
      (hp : s.payload? = some payload) (htext : ∀ text, Utf8.encode text ≠ payload)
  | undescribed {s : Secret} {text document : List Char}
      (hs : m.secrets.get? (payloadKey c) = some s) (hp : s.payload? = some (Utf8.encode text))
      (hd : document ∈ Payload.documents text) (hnot : ¬Payload.Describes document)

/-- All is there to bring the agent. -/
def Equipped (c : ManagedCluster) (m : Memory) (hosting : String) (agent : ManifestWork) : Prop :=
  ∃ payload, m.demand c = .agent hosting payload ∧
    HostedWork.klusterlet c.nameText hosting payload = .ok agent

theorem not_equipped (h : Barred c m) : ¬Equipped c m hosting agent := by
  rintro ⟨payload, hdemand, hbuild⟩
  obtain ⟨hhost, s, hs, hp⟩ := payload_of_demand hdemand
  obtain ⟨objects, hobjects, -⟩ := HostedWork.klusterlet_eq_ok hbuild
  obtain ⟨text, htext, hall⟩ := Payload.exists_decodeAll_iff.mp ⟨objects, hobjects⟩
  cases h with
  | unhosted hnone =>
    rw [hhost] at hnone
    cases hnone
  | missing hnone =>
    rw [hs] at hnone
    cases hnone
  | empty hs' hp' =>
    rw [hs, Option.some.injEq] at hs'
    subst hs'
    rw [hp] at hp'
    cases hp'
  | garbled hs' hp' hnot =>
    rw [hs, Option.some.injEq] at hs'
    subst hs'
    rw [hp, Option.some.injEq] at hp'
    exact hnot text (htext.trans hp')
  | @undescribed s' text' document hs' hp' hd hnot =>
    rw [hs, Option.some.injEq] at hs'
    subst hs'
    rw [hp, Option.some.injEq] at hp'
    have hsame : text = text' := by
      have htext' := Utf8.decode_eq_ok_iff.mpr hp'.symm
      rw [Utf8.decode_eq_ok_iff.mpr htext, Except.ok.injEq] at htext'
      exact htext'
    exact hnot (hall document (hsame ▸ hd))

theorem barred_or_equipped (c : ManagedCluster) (m : Memory) :
    Barred c m ∨ ∃ hosting agent, Equipped c m hosting agent := by
  cases hhost : host? c m with
  | none => exact Or.inl (.unhosted hhost)
  | some hosting =>
  cases hs : m.secrets.get? (payloadKey c) with
  | none => exact Or.inl (.missing hs)
  | some s =>
  cases hp : s.payload? with
  | none => exact Or.inl (.empty hs hp)
  | some payload =>
  have hdemand := ImportState.demand_of_payload hhost hs hp
  cases hbuild : HostedWork.klusterlet c.nameText hosting payload with
  | ok agent => exact Or.inr ⟨hosting, agent, payload, hdemand, hbuild⟩
  | error e =>
  refine Or.inl ?_
  have hnone : ¬∃ vs, Payload.decodeAll payload = .ok vs := by
    rintro ⟨vs, hvs⟩
    rw [HostedWork.klusterlet, hvs] at hbuild
    cases hbuild
  rw [Payload.exists_decodeAll_iff] at hnone
  by_cases htext : ∃ text, Utf8.encode text = payload
  · obtain ⟨text, rfl⟩ := htext
    by_cases hall : ∀ d ∈ Payload.documents text, Payload.Describes d
    · exact absurd ⟨text, rfl, hall⟩ hnone
    · obtain ⟨d, hd⟩ := Classical.not_forall.mp hall
      obtain ⟨hmem, hnot⟩ := Classical.not_imp.mp hd
      exact .undescribed hs hp hmem hnot
  · exact .garbled hs hp fun text h => htext ⟨text, h⟩

/-- What is not ready is waited for, or its payload is refused. -/
theorem demand_of_barred (h : Barred c m) :
    (∃ reason message, m.demand c = .wait reason message) ∨
      ∃ hosting payload e, m.demand c = .agent hosting payload ∧
        HostedWork.klusterlet c.nameText hosting payload = .error e := by
  cases hdemand : m.demand c with
  | wait reason message => exact Or.inl ⟨reason, message, rfl⟩
  | agent hosting payload =>
    refine Or.inr ⟨hosting, payload, ?_⟩
    cases hbuild : HostedWork.klusterlet c.nameText hosting payload with
    | error e => exact ⟨e, rfl, rfl⟩
    | ok agent => exact absurd ⟨payload, hdemand, hbuild⟩ (not_equipped h)

/-! ## Steps that fail only when something was laid in wait -/

/-- What is laid in wait is only used up, and a step fails only by it. -/
theorem meets_surely {post : Except Failure α → Memory → Prop} {p : Pass α} (hm : m.Filed)
    (hok : m.Quiet → ∃ a, (m.talk t p.run).1 = .ok a)
    (h : Meets t allowed (fun r m' => m'.Filed → (m.Quiet → m'.Quiet) →
      (∀ f, r = .error f → ¬m.Quiet) → post r m') p m) : Meets t allowed post p m := by
  obtain ⟨htrace, hpost⟩ := Dialogue.meets_iff.mp h
  refine Dialogue.meets_iff.mpr ⟨htrace, hpost (hm.talk t _) (fun hq => hq.talk t _) ?_⟩
  intro f hf hq
  obtain ⟨a, ha⟩ := hok hq
  cases hf.symm.trans ha

theorem ok_of_abreast {v : Sight} {same : α → α → Prop} {p : Pass α}
    (h : Abreast t v (Well same) p p m m) : ∃ a, (m.talk t p.run).1 = .ok a := by
  obtain ⟨a, -, ha, -, -⟩ := h.1
  exact ⟨a, ha⟩

theorem syncFinalizer_ok (hm : m.Filed) (hq : m.Quiet) (hc : c.metadata.IsNamed) (works : Nat) :
    ∃ a, (m.talk t (syncFinalizer ctx c works).run).1 = .ok a :=
  ok_of_abreast (abreast_syncFinalizer
    (Twins.refl (Independence.calm_sight hm hq c.nameText)) (ManagedCluster.anyName_eq hc) works)

theorem setConditions_ok (hm : m.Filed) (hq : m.Quiet) (hc : c.metadata.IsNamed)
    (new : List Condition) :
    ∃ a, (m.talk t (setConditions ctx c new).run).1 = .ok a :=
  ok_of_abreast (abreast_setConditions
    (Twins.refl (Independence.calm_sight hm hq c.nameText)) (ManagedCluster.anyName_eq hc) new)

theorem applyWork_ok (hm : m.Filed) (hq : m.Quiet) (hd : m.clusters.get? c.nameText = some d)
    (hhosting : d.hosting? = some hosting) {desired : ManifestWork}
    (hnamed : desired.metadata.IsNamed) (hkey : desired.key = agentKey c hosting) :
    ∃ a, (m.talk t (applyWork c desired).run).1 = .ok a := by
  have hsight : (Independence.sight c.nameText m).hosting = some hosting := by
    show (m.clusters.get? c.nameText).bind _ = _
    rw [hd]
    exact hhosting
  refine ok_of_abreast (abreast_applyWork
    (Twins.refl (Independence.calm_sight hm hq c.nameText)) c hnamed ?_)
  rw [hkey]
  exact ((Independence.sight c.nameText m).brought hosting hsight).1

/-! ## Up to the import -/

/-- Before a live cluster is imported, its works are listed and its finalizer is seen to.  That
fails only when something was laid in wait, and the import finds all that it takes as it was. -/
theorem reconcile_live_meets {post : Except Failure Outcome → Memory → Prop} (hl : Lax allowed)
    (hm : m.Named) (hc : m.clusters.get? name = some c) (hhosted : c.isHosted = true)
    (hlive : c.isDeleting = false) (hfails : ∀ f m₁, Alike m m₁ → ¬m.Quiet → post (.error f) m₁)
    (himport : ∀ d m₁, Within { clusters := (· = c.nameText) } m m₁ → Before c m d m₁ →
      m₁.demand c = m.demand c → m₁.Filed → (m.Quiet → m₁.Quiet) →
      Meets t allowed (fun r m' => post (r.map fun _ => .done) m')
        (importCluster ctx c (m.worksOf c)) m₁) :
    Meets t allowed post (reconcile ctx name) m := by
  have hname : c.nameText = name := hm.clusters name c hc
  have hnamed : c.metadata.IsNamed := hm.clusterNames name c hc
  have hstored : m.clusters.get? c.nameText = some c := hname.symm ▸ hc
  unfold reconcile
  refine meets_bind.mpr (getCluster_meets hl.reads hc ?_)
  dsimp only [Next]
  rw [hhosted, if_pos rfl]
  refine meets_bind.mpr (listWorks_meets hl.reads hnamed (fun hlaid f m₁ hm₁ => ?_) ?_)
  · exact hfails f m₁ hm₁ fun hq => hlaid (hq.failures .listWorks)
  refine meets_bind.mpr (meets_surely hm.toFiled (fun hq => syncFinalizer_ok hm.toFiled hq hnamed _)
    (syncFinalizer_live_meets hl hnamed hstored rfl hlive (fun f m₁ hm₁ _ _ hloud => ?_)
      fun d m₁ hwithin hd hsync hfiled hquiet _ => ?_))
  · exact hfails f m₁ hm₁ (hloud f rfl)
  have h₁ : Before c m d m₁ := Before.synced ⟨hnamed, hstored, rfl, rfl, rfl⟩ hwithin hd hsync
  have hdemand : m₁.demand c = m.demand c :=
    Hub.Memory.demand_of_cluster hwithin hstored hd hsync.bare
  simp only [hlive, Bool.false_eq_true, if_false]
  refine meets_bind.mpr ((himport d m₁ hwithin h₁ hdemand hfiled hquiet).imp
    (fun _ _ hq => hq) fun r m' hpost => ?_)
  cases r with
  | error f => exact hpost
  | ok u => exact meets_pure.mpr hpost

/-! ## With the import barred -/

/-- Works and secrets are as before. -/
def Kept (m m' : Memory) : Prop := m'.works = m.works ∧ m'.secrets = m.secrets

theorem Kept.trans {m₂ : Memory} (h : Kept m m₁) (h' : Kept m₁ m₂) : Kept m m₂ :=
  ⟨h'.1.trans h.1, h'.2.trans h.2⟩

theorem kept_of_alike (h : Alike m m₁) : Kept m m₁ := ⟨h.works, h.secrets⟩

theorem kept_of_within (h : Within { clusters := (· = c.nameText) } m m₁) : Kept m m₁ :=
  ⟨h.works_eq fun _ => id, h.secrets_eq fun _ => id⟩

theorem setConditions_kept (hl : Lax allowed) (h : Before c m d m₁) (new : List Condition) :
    Meets t allowed (fun _ m' => Kept m₁ m') (setConditions ctx c new) m₁ :=
  setConditions_meets hl h.named h.stored (ManagedCluster.nameText_of_bare h.bare) h.status
    (fun _ _ hm => kept_of_alike hm) fun _ _ hwithin _ _ => kept_of_within hwithin

theorem failWith_kept (hl : Lax allowed) (h : Before c m d m₁) (new : Condition) (f : Failure) :
    Meets t allowed (fun _ m' => Kept m₁ m') (failWith ctx c new f : Pass α) m₁ := by
  refine meets_bind.mpr (meets_attempt.mpr ((setConditions_kept hl h [new]).imp
    (fun _ _ hq => hq) fun r m' hkept => ?_))
  cases r <;> exact meets_throw.mpr hkept

/-- A pass over a cluster that is barred gets no further than to say so. -/
theorem reconcile_barred (hl : Lax allowed) (hm : m.Named) (hc : m.clusters.get? name = some c)
    (hhosted : c.isHosted = true) (hlive : c.isDeleting = false) (h : Barred c m) :
    Meets t allowed (fun _ m' => Kept m m') (reconcile ctx name) m := by
  refine reconcile_live_meets hl hm hc hhosted hlive (fun _ _ hm₁ _ => kept_of_alike hm₁)
    fun d m₁ hwithin h₁ hdemand _ _ => ?_
  have hkept : Kept m m₁ := kept_of_within hwithin
  have himport : Meets t allowed (fun _ m' => Kept m₁ m')
      (importCluster ctx c (m.worksOf c)) m₁ := by
    refine importCluster_cases hl.reads h₁.named
      (fun reason message hwait => setConditions_kept hl h₁ _)
      fun hosting payload hagent => ?_
    rw [hdemand] at hagent
    obtain ⟨reason, message, hwait⟩ | ⟨hosting', payload', e, hagent', hbuild⟩ :=
      demand_of_barred h
    · rw [hwait] at hagent
      cases hagent
    · rw [hagent'] at hagent
      cases hagent
      unfold bringAgent
      rw [ManagedCluster.anyName_eq h₁.named, hbuild]
      exact failWith_kept hl h₁ _ _
  exact himport.imp (fun _ _ hq => hq) fun _ _ hrest => hkept.trans hrest

/-! ## Without a kubeconfig -/

/-- The agent is there and all that it takes, but the auto-import secret has no kubeconfig for it:
it gives none at all, or blanks. -/
structure Unarmed (c : ManagedCluster) (m : Memory) (hosting : String) : Prop where
  passed : ¬Barred c m
  hosted : c.hosting? = some hosting
  available : ∃ w, m.works.get? (agentKey c hosting) = some w ∧ w.isAvailable = true
  blank : ∃ s, m.secrets.get? (autoImportKey c) = some s ∧
    ∀ b ∈ s.autoImportKubeconfig, HostedWork.isAsciiBlank b = true

/-- No work is written but the one with this key, and none is removed. -/
def OnlyPuts (k : ObjectKey) : Request → Prop
  | .createWork w | .replaceWork w => w.key = k
  | .deleteWork _ | .releaseWork _ => False
  | _ => True

theorem lax_onlyPuts {k : ObjectKey} : Lax fun q _ => OnlyPuts k q := by
  intro q _ hq
  cases q <;> first | exact trivial | exact absurd trivial hq

/-- The cluster shows that its import has failed. -/
def ShowsFailure (c : ManagedCluster) (m : Memory) : Prop :=
  ∃ d x, m.clusters.get? c.nameText = some d ∧
    Conditions.find? d.conditions Names.importSucceeded = some x ∧
      x.status = .false ∧ x.reason = Progress.importFailed

/-- The pass has left all but the agent's work as it was, and if nothing was laid in wait, it has
failed for want of a kubeconfig and said so. -/
structure Refused (c : ManagedCluster) (m : Memory) (hosting : String)
    (r : Except Failure α) (m' : Memory) : Prop where
  works : ∀ k, k ≠ agentKey c hosting → m'.works.get? k = m.works.get? k
  secrets : m'.secrets = m.secrets
  fails : m.Quiet → r = .error (.build .missingKubeconfig) ∧ ShowsFailure c m'

/-- So far only the agent's work was written, and nothing has failed that was not laid in wait. -/
structure Onward (c : ManagedCluster) (m : Memory) (hosting : String) (m₁ : Memory) : Prop where
  works : ∀ k, k ≠ agentKey c hosting → m₁.works.get? k = m.works.get? k
  secrets : m₁.secrets = m.secrets
  filed : m₁.Filed
  quiet : m.Quiet → m₁.Quiet

theorem Onward.kept {m₂ : Memory} (h : Onward c m hosting m₁) (hkept : Kept m₁ m₂)
    (hfiled : m₂.Filed) (hquiet : m₁.Quiet → m₂.Quiet) : Onward c m hosting m₂ where
  works k hk := hkept.1 ▸ h.works k hk
  secrets := hkept.2.trans h.secrets
  filed := hfiled
  quiet hq := hquiet (h.quiet hq)

theorem Onward.refused {m₂ : Memory} {r : Except Failure α} (h : Onward c m hosting m₁)
    (hkept : Kept m₁ m₂) (hfails : m.Quiet →
      r = .error (.build .missingKubeconfig) ∧ ShowsFailure c m₂) : Refused c m hosting r m₂ where
  works k hk := hkept.1 ▸ h.works k hk
  secrets := hkept.2.trans h.secrets
  fails := hfails

theorem Refused.map {β : Type} {r : Except Failure α} (h : Refused c m hosting r m') (g : α → β) :
    Refused c m hosting (r.map g) m' where
  works := h.works
  secrets := h.secrets
  fails hq := by
    obtain ⟨hr, hshows⟩ := h.fails hq
    exact ⟨by rw [hr]; rfl, hshows⟩

theorem showsFailure_of_reported {d' : ManagedCluster} {message : String}
    (hd' : m'.clusters.get? c.nameText = some d')
    (hr : Reported [Progress.pending ctx.now Progress.importFailed message] d d') :
    ShowsFailure c m' := by
  have hshown := hr.shows (List.pairwise_singleton _ _) (List.mem_singleton.mpr rfl)
  obtain ⟨x, hx, hsame⟩ := (Option.any_eq_true _ _).mp hshown
  simp only [Condition.sameState, Bool.and_eq_true, beq_iff_eq] at hsame
  exact ⟨d', x, hd', hx, hsame.1.1, hsame.1.2⟩

/-- When something was laid in wait, no more is said than that nothing is touched. -/
theorem Onward.refused_of_loud {m₂ : Memory} {r : Except Failure α} (h : Onward c m hosting m₁)
    (hkept : Kept m₁ m₂) (hloud : ¬m₁.Quiet) : Refused c m hosting r m₂ :=
  h.refused hkept fun hq => absurd (h.quiet hq) hloud

theorem handOver_refused {s : Secret} (hl : Lax allowed) (h : Onward c m hosting m₁)
    (hd : Before c m d m₁) (hblank : ∀ b ∈ s.autoImportKubeconfig, HostedWork.isAsciiBlank b = true)
    (ready : Bool) : Meets t allowed (Refused c m hosting) (handOver ctx c hosting ready s) m₁ := by
  unfold handOver
  rw [HostedWork.kubeconfig_of_blank hblank]
  refine meets_bind.mpr (meets_attempt.mpr (meets_surely h.filed
    (fun hq => setConditions_ok h.filed hq hd.named _) (setConditions_meets hl hd.named hd.stored
      (ManagedCluster.nameText_of_bare hd.bare) hd.status (fun f m₂ hm₂ _ _ hloud => ?_)
      fun d' m₂ hwithin hd' hr _ _ _ => ?_)))
  · exact meets_throw.mpr (h.refused_of_loud (kept_of_alike hm₂) (hloud f rfl))
  · exact meets_throw.mpr (h.refused (kept_of_within hwithin) fun _ =>
      ⟨rfl, showsFailure_of_reported hd' hr⟩)

/-- What was reported on a work still stands when it is brought again, written or not. -/
theorem isAvailable_of_brought {w w₀ : ManifestWork} (h : Brought agent (some w₀) w) :
    w.isAvailable = w₀.isAvailable := by
  have hstatus : w.status = w₀.status :=
    (ManifestWork.status_of_unversioned h).trans (ManifestWork.status_brought agent (some w₀))
  unfold ManifestWork.isAvailable ManifestWork.conditions
  rw [hstatus]

theorem bringAgent_refused (hl : Lax allowed) (hm : m.Filed) (h : Onward c m hosting m₁)
    (hd : Before c m d m₁) (hworks : m₁.works = m.works) (hlive : c.isDeleting = false)
    (hput : ∀ (w : ManifestWork) m₂, w.key = agentKey c hosting →
      allowed (.createWork w) m₂ ∧ allowed (.replaceWork w) m₂)
    (hunarmed : Unarmed c m hosting)
    (hbuild : HostedWork.klusterlet c.nameText hosting payload = .ok agent)
    (works : ClusterWorks) :
    Meets t allowed (Refused c m hosting) (bringAgent ctx c works hosting payload) m₁ := by
  have hkey : agent.key = agentKey c hosting := HostedWork.key_klusterlet hbuild
  obtain ⟨w₀, hw₀, havailable⟩ := hunarmed.available
  obtain ⟨s, hs, hblank⟩ := hunarmed.blank
  have hnamed : agent.metadata.IsNamed := (HostedWork.isOwn_of_klusterlet hbuild).named
  unfold bringAgent
  rw [ManagedCluster.anyName_eq hd.named, hbuild]
  have happly : m₁.Quiet → ∃ a, (m₁.talk t (applyWork c agent).run).1 = .ok a := fun hq =>
    applyWork_ok h.filed hq hd.stored
      ((ManagedCluster.hosting?_of_bare hd.bare).trans hunarmed.hosted) hnamed hkey
  refine meets_bind.mpr (meets_attempt.mpr (meets_surely h.filed happly (applyWork_meets hl hnamed
    (fun w hw => hput w m₁ (hw.trans hkey)) (fun w hw => hm.works _ w (hworks ▸ hw))
    (fun f m₂ hm₂ _ _ hloud => ?_) fun w m₂ hwithin _ hbrought hfiled hquiet _ => ?_)))
  · exact (failWith_kept hl (hd.alike hm₂) _ f).imp (fun _ _ hq => hq) fun _ _ hkept =>
      h.refused_of_loud ((kept_of_alike hm₂).trans hkept) (hloud f rfl)
  rw [hkey, hworks, hw₀] at hbrought
  have hstill : w.isAvailable = true := (isAvailable_of_brought hbrought).trans havailable
  have h₂ : Onward c m hosting m₂ := {
    works := fun k hk => (hwithin.works k fun he => hk (he.trans hkey)).trans (h.works k hk)
    secrets := (hwithin.secrets_eq fun _ => id).trans h.secrets
    filed := hfiled
    quiet := fun hq => hquiet (h.quiet hq) }
  have hd₂ : Before c m d m₂ := ⟨hd.named, (hwithin.clusters _ id).trans hd.stored, hd.bare,
    hd.status, (hwithin.secrets _ id).trans hd.secret⟩
  refine meets_bind.mpr (meets_surely h₂.filed (fun hq => syncFinalizer_ok h₂.filed hq hd.named 1)
    (syncFinalizer_live_meets hl hd.named hd₂.stored hd₂.bare hlive (fun f m₃ hm₃ _ _ hloud => ?_)
      fun d₃ m₃ hwithin₃ hd' hsync hfiled hquiet _ => ?_))
  · exact h₂.refused_of_loud (kept_of_alike hm₃) (hloud f rfl)
  have h₃ : Onward c m hosting m₃ := h₂.kept (kept_of_within hwithin₃) hfiled hquiet
  have hd₃ : Before c m d₃ m₃ := hd₂.synced hwithin₃ hd' hsync
  refine meets_bind.mpr (getSecret_meets hl.reads (hd₃.secret.trans hs) ?_)
  dsimp only [Next]
  rw [hstill, if_pos rfl]
  exact handOver_refused hl h₃ hd₃ hblank _

/-- A pass without a kubeconfig to hand over gets as far as to bring the agent. -/
theorem reconcile_unarmed (hl : Lax allowed)
    (hput : ∀ (w : ManifestWork) m', w.key = agentKey c hosting →
      allowed (.createWork w) m' ∧ allowed (.replaceWork w) m')
    (hm : m.Named) (hc : m.clusters.get? name = some c) (hhosted : c.isHosted = true)
    (hlive : c.isDeleting = false) (hunarmed : Unarmed c m hosting) :
    Meets t allowed (Refused c m hosting) (reconcile ctx name) m := by
  have hstart : Onward c m hosting m := ⟨fun _ _ => rfl, rfl, hm.toFiled, id⟩
  obtain ⟨hosting', agent, payload, hdemand, hbuild⟩ :=
    (barred_or_equipped c m).resolve_left hunarmed.passed
  obtain rfl : hosting' = hosting :=
    Option.some.inj ((Hub.Memory.hosting?_of_demand hdemand).symm.trans hunarmed.hosted)
  refine reconcile_live_meets hl hm hc hhosted hlive
    (fun _ _ hm₁ hloud => hstart.refused_of_loud (kept_of_alike hm₁) hloud)
    fun d m₁ hwithin hd₁ hdemand₁ hfiled hquiet => ?_
  have h₁ : Onward c m hosting' m₁ := hstart.kept (kept_of_within hwithin) hfiled hquiet
  have himport : Meets t allowed (Refused c m hosting')
      (importCluster ctx c (m.worksOf c)) m₁ := by
    refine importCluster_cases hl.reads hd₁.named (fun reason message hwait => ?_)
      fun hosting payload' hagent => ?_
    · rw [hdemand₁, hdemand] at hwait
      cases hwait
    · rw [hdemand₁, hdemand] at hagent
      cases hagent
      exact bringAgent_refused hl hm.toFiled h₁ hd₁ (hwithin.works_eq fun _ => id) hlive hput
        hunarmed hbuild _
  exact himport.imp (fun _ _ hq => hq) fun _ _ hrest => hrest.map _

/-! ## The pass -/

/-- Whatever fails, a pass over a live cluster writes no work and no secret while the import is
barred.  While there is only no kubeconfig to hand over, it writes no work but the agent's and no
secret, and it fails for that and says so, if nothing else fails. -/
theorem gates_hold (hm : m.Named) (hc : m.clusters.get? name = some c)
    (hhosted : c.isHosted = true) (hlive : c.isDeleting = false) :
    (Barred c m → Kept m (Run.afterPass ctx name m) ∧
      ∀ i ∈ Run.issuedBy ctx name m, ¬i.request.IsWorkChange) ∧
    ∀ hosting, Unarmed c m hosting →
      Refused c m hosting (Run.outcome ctx name m) (Run.afterPass ctx name m) ∧
        ∀ i ∈ Run.issuedBy ctx name m, OnlyPuts (agentKey c hosting) i.request := by
  refine ⟨fun hbarred => ?_, fun hosting hunarmed => ?_⟩
  · exact (Run.pass_of_meets (reconcile_barred lax_sparing hm hc hhosted hlive hbarred)).symm
  · exact (Run.pass_of_meets (reconcile_unarmed lax_onlyPuts (fun _ _ hw => ⟨hw, hw⟩) hm hc
      hhosted hlive hunarmed)).symm

open Sample

/-- An object, and after it a list. -/
def half : List Char := "apiVersion: v1\nkind: Namespace\n---\n- a".toList

/-- After the agent was brought, its payload was exchanged for one that is no good throughout. -/
def spoilt : Memory :=
  Run.after "c" (setUp (hosted "c" "h") ++ [
    onePass,
    .change (.secret {
      metadata := { name := some (Names.importSecret "c"), nspace := some "c" }
      data := some (.singleton Names.importPayload (Utf8.encode half)) })]) {}

/-- The agent's work is available, and the kubeconfig for it is a blank. -/
def disarmed : Memory :=
  Run.after "c" (setUp (hosted "c" "h") ++ [
    onePass,
    .change (.report ⟨"h", "c-hosted-klusterlet"⟩ {
      conditions := [⟨Names.workAvailable, .true, "", "", none⟩] }),
    .change (.secret {
      metadata := { name := some Names.autoImportSecret, nspace := some "c" }
      data := some (.singleton Names.kubeconfig [0x20]) })]) {}

theorem barred_of_half {s : Secret} (hs : m.secrets.get? (payloadKey c) = some s)
    (hp : s.payload? = some (Utf8.encode half)) : Barred c m := by
  have hlist : "- a".toList ∈ Payload.documents half ∧
      (Payload.decode (String.ofList "- a".toList)).toOption = none := by decide +kernel
  refine .undescribed hs hp hlist.1 fun h => ?_
  obtain ⟨v, hv⟩ := Payload.exists_decode_iff.mpr h
  rw [hv] at hlist
  cases hlist.2

/-- All is there to bring the agent, which has been brought before, but not to hand over. -/
def isUnarmed (c : ManagedCluster) (m : Memory) (hosting : String) : Bool :=
  (match m.demand c with
    | .agent hosting payload => (HostedWork.klusterlet c.nameText hosting payload).toOption.isSome
    | .wait _ _ => false) &&
  c.hosting? == some hosting &&
  (m.works.get? (agentKey c hosting)).any (·.isAvailable) &&
  (m.secrets.get? (autoImportKey c)).any (·.autoImportKubeconfig.all HostedWork.isAsciiBlank)

theorem unarmed_of_isUnarmed (h : isUnarmed c m hosting = true) : Unarmed c m hosting := by
  simp only [isUnarmed, Bool.and_eq_true, beq_iff_eq] at h
  obtain ⟨⟨⟨hready, hhosting⟩, hw⟩, hs⟩ := h
  obtain ⟨w, hw, havailable⟩ := (Option.any_eq_true _ _).mp hw
  obtain ⟨s, hs, hblank⟩ := (Option.any_eq_true _ _).mp hs
  refine ⟨fun hbarred => ?_, hhosting, ⟨w, hw, havailable⟩, ⟨s, hs, List.all_eq_true.mp hblank⟩⟩
  split at hready
  · next hosting' payload hdemand =>
    cases hbuild : HostedWork.klusterlet c.nameText hosting' payload with
    | ok agent => exact not_equipped hbarred ⟨payload, hdemand, hbuild⟩
    | error e =>
      rw [hbuild] at hready
      cases hready
  · cases hready

theorem gates_hold_of_samples :
    (∃ c, spoilt.clusters.get? "c" = some c ∧ Barred c spoilt ∧
      spoilt.works.contains ⟨"h", "c-hosted-klusterlet"⟩ = true ∧
      Kept spoilt (Run.afterPass { now := now } "c" spoilt) ∧
      ∀ i ∈ Run.issuedBy { now := now } "c" spoilt, ¬i.request.IsWorkChange) ∧
    ∃ c, disarmed.clusters.get? "c" = some c ∧ Unarmed c disarmed "h" ∧
      Run.outcome { now := now } "c" disarmed = .error (.build .missingKubeconfig) ∧
      ShowsFailure c (Run.afterPass { now := now } "c" disarmed) := by
  constructor
  · have hfacts : spoilt.works.contains ⟨"h", "c-hosted-klusterlet"⟩ = true ∧
        (spoilt.clusters.get? "c").any (fun c => c.isHosted && !c.isDeleting &&
          (spoilt.secrets.get? (payloadKey c)).any
            (·.payload? == some (Utf8.encode half))) = true := by decide +kernel
    obtain ⟨c, hc, hfacts'⟩ := (Option.any_eq_true _ _).mp hfacts.2
    simp only [Bool.and_eq_true, Bool.not_eq_true'] at hfacts'
    obtain ⟨⟨hhosted, hlive⟩, hpayload⟩ := hfacts'
    obtain ⟨s, hs, hp⟩ := (Option.any_eq_true _ _).mp hpayload
    have hbarred : Barred c spoilt := barred_of_half hs (beq_iff_eq.mp hp)
    have hnamed : spoilt.Named := Run.named_after _ Hub.Memory.named_empty (by decide +kernel)
    exact ⟨c, hc, hbarred, hfacts.1, (gates_hold hnamed hc hhosted hlive).1 hbarred⟩
  · have hfacts : (disarmed.clusters.get? "c").any (fun c => c.isHosted && !c.isDeleting &&
        isUnarmed c disarmed "h") = true := by decide +kernel
    have hfree : disarmed.failures = .empty ∧ disarmed.conflicts = 0 := by decide +kernel
    have hquiet : disarmed.Quiet := ⟨fun op => hfree.1 ▸ Table.get?_empty op, hfree.2⟩
    obtain ⟨c, hc, hfacts⟩ := (Option.any_eq_true _ _).mp hfacts
    simp only [Bool.and_eq_true, Bool.not_eq_true'] at hfacts
    obtain ⟨⟨hhosted, hlive⟩, hunarmed⟩ := hfacts
    have hunarmed := unarmed_of_isUnarmed hunarmed
    have hnamed : disarmed.Named := Run.named_after _ Hub.Memory.named_empty (by decide +kernel)
    have hrefused : Refused c disarmed "h" (Run.outcome { now := now } "c" disarmed)
        (Run.afterPass { now := now } "c" disarmed) :=
      ((gates_hold hnamed hc hhosted hlive).2 "h" hunarmed).1
    exact ⟨c, hc, hunarmed, hrefused.fails hquiet⟩

end Gates
end Hosting
