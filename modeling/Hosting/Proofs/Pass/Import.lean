import Hosting.Proofs.Pass.Underway

/-!
# What an import comes to

`Imported` tells the ways in which an import can end: it has failed somewhere, or all of its
plan has been carried out, which the ends that do not fail say each in its own way.
-/

namespace Hosting

theorem Secret.key_retried (s : Secret) : s.retried.1.key = s.key := rfl

namespace Pass

open Hub (Request Memory Lenient Open)
open Hub.Memory (Alike Within)

variable {t : Instant} {allowed : Request → Memory → Prop} {ctx : Context}
  {c d d' : ManagedCluster} {m m' m'' : Memory}

/-! ## How it can end -/

/-- The credentials of the secret `s` are in the stored work `w` of the cluster, and the
cluster `d` says so. -/
structure HandedOver (c : ManagedCluster) (s : Secret) (d : ManagedCluster) (m' : Memory) :
    Prop where
  shown : d.conditions.has Names.kubeconfigCreated .true = true
  work : ∃ h desired w, c.hosting? = some h ∧
    HostedWork.kubeconfig c.nameText h s.autoImportKubeconfig = .ok desired ∧
    m'.works.get? ⟨h, Names.kubeconfigWork c.nameText⟩ = some w ∧ Applied desired w

/-- All of the plan is done, and the secret is not to be used up any more. -/
def Arrived (c d : ManagedCluster) (m' : Memory) : Prop :=
  ',' ∉ c.nameText.toList → ∃ p, Reached m' c d p ∧ p.consumes = false

/-- The ends of an import that began in the state `m`, when the finalizer was on the
stored cluster as `held` says. -/
inductive Imported (c : ManagedCluster) (held : Bool) (m : Memory) :
    Except Failure Unit → Memory → Prop where
  /-- A step has failed, before the auto-import secret was used up. -/
  | failed {f : Failure} {d : ManagedCluster} {m' : Memory} (h : Underway c m d m') :
    Imported c held m (.error f) m'
  /-- No work could be brought yet. -/
  | waiting {d : ManagedCluster} {m' : Memory} (h : Underway c m d m')
    (works : m'.works = m.works) (sync : d.isHeld = held) (arrived : Arrived c d m') :
    Imported c held m (.ok ()) m'
  /-- The agent's work is there. -/
  | brought {d : ManagedCluster} {m' : Memory} (h : Underway c m d m')
    (works : m'.HoldsWork c) (sync : d.isHeld = heldAfter c.isHeld 1 held)
    (arrived : Arrived c d m') : Imported c held m (.ok ()) m'
  /-- The credentials are handed over, and their secret is gone. -/
  | handedOver {d : ManagedCluster} {m' : Memory} {s : Secret}
    (within : Within (importScope c) m m') (stored : m'.clusters.get? c.nameText = some d)
    (bare : d.bare = c.bare)
    (secret : m.secrets.get? (autoImportKey c) = some s) (used : s.isKept = false)
    (gone : m'.secrets.get? (autoImportKey c) = none) (done : HandedOver c s d m')
    (works : m'.HoldsWork c) (sync : d.isHeld = heldAfter c.isHeld 1 held)
    (arrived : Arrived c d m') (faithful : Faithful c m d m') : Imported c held m (.ok ()) m'

variable {held : Bool}

namespace Imported

variable {r : Except Failure Unit}

theorem within (h : Imported c held m r m') : Within (importScope c) m m' := by
  cases h with
  | failed h => exact h.within
  | waiting h => exact h.within
  | brought h => exact h.within
  | handedOver within => exact within

theorem faithful (h : Imported c held m r m') :
    ∃ d, m'.clusters.get? c.nameText = some d ∧ Faithful c m d m' := by
  cases h with
  | failed h => exact ⟨_, h.stored, h.faithful⟩
  | waiting h => exact ⟨_, h.stored, h.faithful⟩
  | brought h => exact ⟨_, h.stored, h.faithful⟩
  | handedOver _ stored _ _ _ _ _ _ _ _ faithful => exact ⟨_, stored, faithful⟩

theorem arrived (h : Imported c held m (.ok ()) m') :
    ∃ d, m'.clusters.get? c.nameText = some d ∧ d.bare = c.bare ∧ Arrived c d m' := by
  cases h with
  | waiting h _ _ arrived => exact ⟨_, h.stored, h.bare, arrived⟩
  | brought h _ _ arrived => exact ⟨_, h.stored, h.bare, arrived⟩
  | handedOver _ stored bare _ _ _ _ _ _ arrived => exact ⟨_, stored, bare, arrived⟩

end Imported

theorem setConditions_underway (hl : Lenient allowed) {new : List Condition}
    (hnew : Foreseen c m' new) (h : Underway c m d m') (hstatus : d.status = c.status)
    {post : Except Failure Unit → Memory → Prop}
    (herr : ∀ f m'', Alike m' m'' → post (.error f) m'')
    (hok : ∀ d' m'', Underway c m d' m'' → Within { clusters := (· = c.nameText) } m' m'' →
      m''.plan? c = m'.plan? c → Reported new d d' → post (.ok ()) m'') :
    Meets t allowed post (setConditions ctx c new) m' := by
  refine setConditions_meets hl.lax h.named h.stored h.nameText hstatus herr ?_
  intro d' m'' hwithin hd' hr
  have hdemand := Hub.Memory.demand_of_cluster hwithin h.stored hd' hr.bare
  refine hok d' m'' (h.reported hnew hwithin hd' hr) hwithin ?_ hr
  exact Hub.Memory.plan?_congr hdemand (hwithin.works_eq fun _ => id) (hwithin.secrets _ id)

/-- What is recorded before a failure does not hold it up. -/
theorem failWith_underway (hl : Lenient allowed) {new : Condition} {f : Failure}
    (hnew : new.type = Names.importSucceeded) (h : Underway c m d m')
    (hstatus : d.status = c.status) :
    Meets t allowed (Imported c held m) (failWith ctx c new f) m' := by
  refine meets_bind.mpr (meets_attempt.mpr
    (setConditions_underway hl (foreseen_singleton hnew) h hstatus ?_ ?_))
  · intro g m'' hm
    exact meets_throw.mpr (Imported.failed (h.alike hm))
  · intro d' m'' h' _ _ _
    exact meets_throw.mpr (Imported.failed h')

/-- All of the plan is done but for one thing that it tells. -/
def Nearly (c : ManagedCluster) (m' : Memory) (new : Condition) : Prop :=
  ',' ∉ c.nameText.toList → ∃ p, m'.plan? c = some p ∧ p.Fulfilled m' ∧
    p.words = [new].map Condition.entry ∧ p.consumes = false

theorem Nearly.arrived {new : Condition} (h : Nearly c m' new) (hr : Reported [new] d d')
    (hplan : m''.plan? c = m'.plan? c) (hworks : m''.works = m'.works) : Arrived c d' m'' := by
  intro hn
  obtain ⟨p, hp, hful, hwords, hkept⟩ := h hn
  refine ⟨p, Hub.Memory.reached_of_reported (hplan.trans hp) ?_ hwords ?_ hr, hkept⟩
  · unfold Plan.Fulfilled
    rw [hworks]
    exact hful
  · exact List.pairwise_singleton _ _

/-- A condition ends the import of a cluster that waits for someone else. -/
theorem setConditions_waiting (hl : Lenient allowed) {new : Condition}
    (hnew : new.type = Names.importSucceeded) (hnearly : Nearly c m' new) (h : Underway c m d m')
    (hstatus : d.status = c.status) (hworks : m'.works = m.works) (hheld : d.isHeld = held) :
    Meets t allowed (Imported c held m) (setConditions ctx c [new]) m' := by
  refine setConditions_underway hl (foreseen_singleton hnew) h hstatus ?_ ?_
  · intro g m'' hm
    exact Imported.failed (h.alike hm)
  · intro d' m'' h' hwithin hplan hr
    have hw : m''.works = m'.works := hwithin.works_eq fun _ => id
    refine Imported.waiting h' (hw.trans hworks) ?_ (hnearly.arrived hr hplan hw)
    rw [ManagedCluster.isHeld_congr hr.finalizers, hheld]

theorem setConditions_brought (hl : Lenient allowed) {new : Condition}
    (hnew : new.type = Names.importSucceeded) (hnearly : Nearly c m' new) (h : Underway c m d m')
    (hstatus : d.status = c.status) (hworks : m'.HoldsWork c)
    (hheld : d.isHeld = heldAfter c.isHeld 1 held) :
    Meets t allowed (Imported c held m) (setConditions ctx c [new]) m' := by
  refine setConditions_underway hl (foreseen_singleton hnew) h hstatus ?_ ?_
  · intro g m'' hm
    exact Imported.failed (h.alike hm)
  · intro d' m'' h' hwithin hplan hr
    have hw : m''.works = m'.works := hwithin.works_eq fun _ => id
    refine Imported.brought h' ((Hub.Memory.holdsWork_congr hw rfl).mpr hworks) ?_
      (hnearly.arrived hr hplan hw)
    rw [ManagedCluster.isHeld_congr hr.finalizers, hheld]

/-! ## The agent's work -/

/-- The agent of the payload is wanted, and its work is there as it is wanted. -/
structure Placed (c : ManagedCluster) (hosting : String) (agent w : ManifestWork) (m' : Memory) :
    Prop where
  demand : ∃ payload, m'.demand c = .agent hosting payload ∧
    HostedWork.klusterlet c.nameText hosting payload = .ok agent
  stored : m'.works.get? ⟨hosting, Names.klusterletWork c.nameText⟩ = some w
  fulfils : w.fulfils agent = true

namespace Placed

variable {hosting : String} {agent handed w : ManifestWork} {s : Secret}

theorem hosting? (h : Placed c hosting agent w m') : c.hosting? = some hosting := by
  obtain ⟨payload, hdemand, -⟩ := h.demand
  exact Hub.Memory.hosting?_of_demand hdemand

theorem key (h : Placed c hosting agent w m') :
    agent.key = ⟨hosting, Names.klusterletWork c.nameText⟩ := by
  obtain ⟨payload, -, hagent⟩ := h.demand
  exact HostedWork.key_klusterlet hagent

theorem fulfilled (h : Placed c hosting agent w m') (condition : Instant → Condition) :
    (Plan.bring agent condition).Fulfilled m' := by
  intro desired hdesired
  rw [List.mem_singleton.mp hdesired, h.key]
  exact ⟨w, h.stored, h.fulfils⟩

theorem holdsWork (h : Placed c hosting agent w m') : m'.HoldsWork c := by
  obtain ⟨payload, -, hagent⟩ := h.demand
  exact Hub.Memory.holdsWork_of_isOwn (HostedWork.isOwn_of_klusterlet hagent) h.hosting?
    (h.key ▸ h.stored) (applied_of_fulfils h.fulfils)

theorem congr (h : Placed c hosting agent w m') (hdemand : m''.demand c = m'.demand c)
    (hworks : m''.works.get? ⟨hosting, Names.klusterletWork c.nameText⟩ =
      m'.works.get? ⟨hosting, Names.klusterletWork c.nameText⟩) : Placed c hosting agent w m'' where
  demand := hdemand ▸ h.demand
  stored := hworks.trans h.stored
  fulfils := h.fulfils

theorem plan?_without (h : Placed c hosting agent w m')
    (hs : m'.secrets.get? (autoImportKey c) = none) :
    m'.plan? c = some (Plan.bring agent fun now => withoutSecret now c.nameText
      (m'.credentials c.nameText hosting) (w.isReadyToApply c.nameText)) := by
  obtain ⟨payload, hdemand, hagent⟩ := h.demand
  unfold Hub.Memory.plan?
  rw [hdemand]
  dsimp only
  rw [h.stored, hs]
  exact Plan.agent?_without hagent

theorem plan?_waiting (h : Placed c hosting agent w m')
    (hs : m'.secrets.get? (autoImportKey c) = some s) (havailable : w.isAvailable = false) :
    m'.plan? c = some (Plan.bring agent fun now => Progress.pending now Progress.importing
      "Wait for importing resources to be available on the hosting cluster") := by
  obtain ⟨payload, hdemand, hagent⟩ := h.demand
  unfold Hub.Memory.plan?
  rw [hdemand]
  dsimp only
  rw [h.stored, hs]
  exact Plan.agent?_waiting hagent havailable

theorem plan?_handOver (h : Placed c hosting agent w m')
    (hs : m'.secrets.get? (autoImportKey c) = some s) (havailable : w.isAvailable = true)
    (hhanded : HostedWork.kubeconfig c.nameText hosting s.autoImportKubeconfig = .ok handed) :
    m'.plan? c =
      some (Plan.handOver agent handed (w.isReadyToApply c.nameText) s.isKept) := by
  obtain ⟨payload, hdemand, hagent⟩ := h.demand
  unfold Hub.Memory.plan?
  rw [hdemand]
  dsimp only
  rw [h.stored, hs]
  exact Plan.agent?_handOver hagent havailable hhanded

/-- Once the agent is there, there is only a plan if the work of its credentials can be built. -/
theorem kubeconfig_of_plan? (h : Placed c hosting agent w m')
    (hs : m'.secrets.get? (autoImportKey c) = some s) (havailable : w.isAvailable = true)
    {p : Plan} (hp : m'.plan? c = some p) :
    ∃ handed, HostedWork.kubeconfig c.nameText hosting s.autoImportKubeconfig = .ok handed := by
  obtain ⟨payload, hdemand, hagent⟩ := h.demand
  cases hhanded : HostedWork.kubeconfig c.nameText hosting s.autoImportKubeconfig with
  | ok handed => exact ⟨handed, rfl⟩
  | error e =>
    have hnone : m'.plan? c = none := by
      unfold Hub.Memory.plan?
      rw [hdemand]
      dsimp only
      rw [h.stored, hs]
      exact Plan.agent?_of_unbuilt hagent havailable hhanded
    rw [hnone] at hp
    cases hp

end Placed

/-! ## The credentials -/

theorem HandedOver.congr {s : Secret} (h : HandedOver c s d m') (hw : m''.works = m'.works) :
    HandedOver c s d m'' where
  shown := h.shown
  work := hw ▸ h.work

theorem withoutSecret_of_hasHosted {works : ClusterWorks} {name : String}
    (h : works.hasHosted (Names.kubeconfigWork name) = true) (now : Instant) (ready : Bool) :
    withoutSecret now name works ready =
      if ready then Progress.succeeded now
      else Progress.pending now Progress.importing waitForKubeconfig := by
  unfold withoutSecret
  rw [if_pos h]

/-- All is done for which the secret `s` was needed. -/
structure Handed (c : ManagedCluster) (hosting : String) (s : Secret) (d : ManagedCluster)
    (m' : Memory) : Prop where
  agent : ∃ agent handed w, Placed c hosting agent w m' ∧
    Reached m' c d (Plan.handOver agent handed (w.isReadyToApply c.nameText) s.isKept)
  listed : (m'.credentials c.nameText hosting).hasHosted (Names.kubeconfigWork c.nameText) = true
  done : HandedOver c s d m'

namespace Handed

variable {hosting : String} {s : Secret}

theorem holdsWork (h : Handed c hosting s d m') : m'.HoldsWork c := by
  obtain ⟨agent, handed, w, hplaced, -⟩ := h.agent
  exact hplaced.holdsWork

theorem arrived_of_kept (h : Handed c hosting s d m') (hkept : s.isKept = true) :
    Arrived c d m' := by
  intro _
  obtain ⟨agent, handed, w, hplaced, hreached⟩ := h.agent
  refine ⟨_, hreached, ?_⟩
  show (!s.isKept) = false
  rw [hkept, Bool.not_true]

/-- Without the secret there is less to do, all of which is done. -/
theorem reached_of_gone (h : Handed c hosting s d m')
    (hwithin : Within { secrets := (· = autoImportKey c) } m' m'')
    (hgone : m''.secrets.get? (autoImportKey c) = none) (hused : s.isKept = false) :
    ∃ p p', Reached m' c d p ∧ p.consumes = true ∧ Reached m'' c d p' ∧ p'.consumes = false ∧
      p'.works.isEmpty = p.works.isEmpty := by
  obtain ⟨agent, handed, w, hplaced, hreached⟩ := h.agent
  have hworks : m''.works = m'.works := hwithin.works_eq fun _ => id
  have hplaced'' := hplaced.congr (Hub.Memory.demand_of_secret hwithin) (by rw [hworks])
  have hlisted : (m''.credentials c.nameText hosting).hasHosted
      (Names.kubeconfigWork c.nameText) = true := by
    unfold Hub.Memory.credentials
    rw [hworks]
    exact h.listed
  refine ⟨_, _, hreached, ?_, ⟨hplaced''.plan?_without hgone, hplaced''.fulfilled _, ?_⟩, rfl, rfl⟩
  · show (!s.isKept) = true
    rw [hused, Bool.not_false]
  · intro e he
    rw [Plan.bring, Plan.tell, withoutSecret_of_hasHosted hlisted] at he
    exact hreached.words e (List.mem_cons_of_mem _ he)

end Handed

theorem consume_meets (hl : Lenient allowed) {hosting : String} {s : Secret}
    (h : Underway c m d m') (hs : m.secrets.get? (autoImportKey c) = some s)
    (hhanded : Handed c hosting s d m') (hheld : d.isHeld = heldAfter c.isHeld 1 held) :
    Meets t allowed (Imported c held m) (consume c s) m' := by
  unfold consume
  rw [ManagedCluster.anyName_eq h.named]
  split
  · next hkept =>
    exact Imported.brought h hhanded.holdsWork hheld (hhanded.arrived_of_kept hkept)
  next hkept =>
  refine meets_bind.mpr (ask_meets (Hub.Memory.deleteSecret_gives (autoImportKey c)) (hl _ _ id)
    (fun f m'' hm => Imported.failed (h.alike hm)) fun _ m₁ hdel => ?_)
  refine publish_meets hl.lax fun m'' hm => ?_
  have hwithin : Within { secrets := (· = autoImportKey c) } m' m'' :=
    hdel.1.trans (Within.of_alike _ hm)
  have hw : m''.works = m'.works := hwithin.works_eq fun _ => id
  have hgone : m''.secrets.get? (autoImportKey c) = none := hm.secrets ▸ hdel.2
  have hused : s.isKept = false := Bool.eq_false_iff.mpr hkept
  obtain ⟨p, p', hreached, hconsumes, hreached', hconsumed, hsame⟩ :=
    hhanded.reached_of_gone hwithin hgone hused
  refine Imported.handedOver
    (h.within.trans (hwithin.mono (fun _ => False.elim) (fun _ => False.elim) fun _ => id))
    ((hwithin.clusters _ id).trans h.stored) h.bare hs hused hgone (hhanded.done.congr hw)
    ((Hub.Memory.holdsWork_congr hw rfl).mpr hhanded.holdsWork) hheld
    (fun _ => ⟨p', hreached', hconsumed⟩) ⟨h.faithful.tended, ?_, fun hn d₀ hd₀ => ?_⟩
  · rw [hw]
    exact h.faithful.retains
  · exact (Hub.Memory.goal?_of_consumed hreached hreached' hconsumes hw hgone hsame).trans
      (h.faithful.goal hn d₀ hd₀)

/-- Counting a failed attempt leaves the data of the secret as they are. -/
theorem countRetry_meets (hl : Lenient allowed) {s : Secret} (h : Underway c m d m')
    (hs : m'.secrets.get? (autoImportKey c) = some s) (hkey : s.key = autoImportKey c)
    (hconsumes : ∀ p, m'.plan? c = some p → p.consumes = !s.isKept)
    {post : Except Failure Unit → Memory → Prop}
    (hpost : ∀ r m'', Underway c m d m'' → post r m'') :
    Meets t allowed post (countRetry s) m' := by
  refine meets_bind.mpr (ask_meets (Hub.Memory.replaceSecret_gives s.retried.1) (hl _ _ id)
    (fun f m'' hm => hpost _ m'' (h.alike hm)) fun s' m'' hrep => ?_)
  obtain ⟨hs', hwithin, hstored⟩ := hrep
  rw [Secret.key_retried, hkey] at hwithin hstored
  rw [hs'] at hstored
  have hw : m''.works = m'.works := hwithin.works_eq fun _ => id
  refine hpost _ m'' (h.trans ⟨h.named, ?_, (hwithin.clusters _ id).trans h.stored,
    ⟨h.faithful.tended, fun k v hv => ⟨v, hw ▸ hv, .refl v⟩, fun _ d₀ hd₀ => ?_⟩, fun s₀ hs₀ => ?_⟩)
  · exact hwithin.mono (fun _ => False.elim) (fun _ => False.elim) fun _ => id
  · rw [h.stored, Option.some.injEq] at hd₀
    rw [← hd₀]
    exact Hub.Memory.goal?_of_retried hs hwithin hstored hconsumes
  · rw [hs, Option.some.injEq] at hs₀
    exact ⟨_, hstored, by rw [← hs₀]; exact ⟨rfl, rfl⟩⟩

theorem handedOver_shown {now : Instant} {state : Condition}
    (hr : Reported [Progress.handedOver now, state] d d')
    (hnew : [Progress.handedOver now, state].Pairwise (·.type ≠ ·.type)) :
    d'.conditions.has Names.kubeconfigCreated .true = true := by
  have hshown := hr.shows hnew List.mem_cons_self
  unfold shows at hshown
  rw [Option.any_eq_true] at hshown
  obtain ⟨x, hx, hstate⟩ := hshown
  have hstatus : (x.status == Verdict.true) = true := by
    unfold Condition.sameState at hstate
    rw [Bool.and_eq_true, Bool.and_eq_true] at hstate
    exact hstate.1.1
  unfold Conditions.has
  rw [Option.any_eq_true]
  exact ⟨x, hx, hstatus⟩

/-- What is told of credentials that have been handed over. -/
def told (now : Instant) (ready : Bool) : List Condition :=
  [Progress.handedOver now,
    if ready then Progress.succeeded now
    else Progress.pending now Progress.importing waitForKubeconfig]

theorem types_told (now : Instant) (ready : Bool) :
    (told now ready).map (·.type) = [Names.kubeconfigCreated, Names.importSucceeded] := by
  cases ready <;> rfl

theorem pairwise_told (now : Instant) (ready : Bool) :
    (told now ready).Pairwise (·.type ≠ ·.type) := by
  have h : ((told now ready).map (·.type)).Pairwise (· ≠ ·) := by
    rw [types_told]
    decide
  exact List.pairwise_map.mp h

theorem words_bring_withoutSecret {agent : ManifestWork} {works works' : ClusterWorks}
    {name : String} (h : works.hasHosted (Names.kubeconfigWork name) =
      works'.hasHosted (Names.kubeconfigWork name)) {now : Instant} {ready : Bool} :
    (Plan.bring agent fun now => withoutSecret now name works ready).words =
      [withoutSecret now name works' ready].map Condition.entry := by
  unfold Plan.bring Plan.tell withoutSecret
  rw [h]
  cases ready <;> rfl

theorem words_handOver (agent handed : ManifestWork) (now : Instant) (ready kept : Bool) :
    (Plan.handOver agent handed ready kept).words = (told now ready).map Condition.entry := by
  cases ready <;> rfl

/-- While the credentials are handed over, both conditions are open. -/
theorem foreseen_of_handOver {agent handed : ManifestWork} {ready kept : Bool}
    (hplan : m'.plan? c = some (Plan.handOver agent handed ready kept)) {new : List Condition}
    (hnew : ∀ x ∈ new, x.type ∈ [Names.kubeconfigCreated, Names.importSucceeded]) :
    Foreseen c m' new where
  progress x hx := (List.Perm.swap _ _ []).mem_iff.mp (hnew x hx)
  plan p hp x hx := by
    rw [hplan, Option.some.injEq] at hp
    rw [← hp, words_handOver agent handed ⟨0, 0⟩, List.map_map]
    show x.type ∈ (told ⟨0, 0⟩ ready).map (·.type)
    rw [types_told]
    exact hnew x hx

/-- The works of the agent and of its credentials are there as they are wanted, and so is the
secret that the credentials are from. -/
structure Handing (c : ManagedCluster) (hosting : String) (s : Secret)
    (agent w handed v : ManifestWork) (m' : Memory) : Prop where
  placed : Placed c hosting agent w m'
  available : w.isAvailable = true
  secret : m'.secrets.get? (autoImportKey c) = some s
  built : HostedWork.kubeconfig c.nameText hosting s.autoImportKubeconfig = .ok handed
  stored : m'.works.get? ⟨hosting, Names.kubeconfigWork c.nameText⟩ = some v
  fulfils : v.fulfils handed = true
  named : v.metadata.name = some (Names.kubeconfigWork c.nameText)

namespace Handing

variable {hosting : String} {s : Secret} {agent w handed v : ManifestWork}

theorem of_brought (hplaced : Placed c hosting agent w m') (havailable : w.isAvailable = true)
    (hs : m'.secrets.get? (autoImportKey c) = some s)
    (hbuild : HostedWork.kubeconfig c.nameText hosting s.autoImportKubeconfig = .ok handed)
    (hfiled : ∀ u, m'.works.get? handed.key = some u → u.key = handed.key)
    (hwithin : Within { works := (· = handed.key) } m' m'')
    (hv : m''.works.get? handed.key = some v)
    (hbrought : Brought handed (m'.works.get? handed.key) v) :
    Handing c hosting s agent w handed v m'' := by
  have hkey := HostedWork.key_kubeconfig hbuild
  have hsecrets : m''.secrets = m'.secrets := hwithin.secrets_eq fun _ => id
  have hvkey : v.key = handed.key := hbrought.key hfiled
  refine ⟨?_, havailable, hsecrets ▸ hs, hbuild, hkey ▸ hv,
    hbrought.fulfils (HostedWork.isOwn_of_kubeconfig hbuild).self, ?_⟩
  · refine hplaced.congr (Hub.Memory.demand_of_works hwithin c) (hwithin.works _ fun he => ?_)
    rw [hkey] at he
    exact Names.klusterletWork_ne_kubeconfigWork _ _ (ObjectKey.mk.inj he).2
  · refine (ManifestWork.nameText_eq_iff (Names.kubeconfigWork_ne_empty _)).mp ?_
    show v.key.name = _
    rw [hvkey, hkey]

theorem plan? (h : Handing c hosting s agent w handed v m') :
    m'.plan? c = some (Plan.handOver agent handed (w.isReadyToApply c.nameText) s.isKept) :=
  h.placed.plan?_handOver h.secret h.available h.built

theorem of_cluster (h : Handing c hosting s agent w handed v m')
    (hwithin : Within { clusters := (· = c.nameText) } m' m'')
    (hd : m'.clusters.get? c.nameText = some d) (hd' : m''.clusters.get? c.nameText = some d')
    (hbare : d'.bare = d.bare) : Handing c hosting s agent w handed v m'' where
  placed := h.placed.congr (Hub.Memory.demand_of_cluster hwithin hd hd' hbare)
    (hwithin.works _ id)
  available := h.available
  secret := (hwithin.secrets _ id).trans h.secret
  built := h.built
  stored := (hwithin.works _ id).trans h.stored
  fulfils := h.fulfils
  named := h.named

theorem done (h : Handing c hosting s agent w handed v m') {now : Instant}
    (hr : Reported (told now (w.isReadyToApply c.nameText)) d d') : Handed c hosting s d' m' := by
  have happlied := applied_of_fulfils h.fulfils
  have hlabel := happlied.label _ _ (HostedWork.label?_kubeconfig h.built)
  refine ⟨⟨agent, handed, w, h.placed, ?_⟩, ?_, handedOver_shown hr (pairwise_told now _), hosting,
    handed, v, h.placed.hosting?, h.built, h.stored, happlied⟩
  · refine Hub.Memory.reached_of_reported h.plan? ?_ (words_handOver _ _ now _ _)
      (pairwise_told now _) hr
    intro desired hdesired
    rcases List.mem_cons.mp hdesired with rfl | hdesired
    · rw [h.placed.key]
      exact ⟨w, h.placed.stored, h.placed.fulfils⟩
    · rw [List.mem_singleton.mp hdesired, HostedWork.key_kubeconfig h.built]
      exact ⟨v, h.stored, h.fulfils⟩
  · refine ClusterWorks.hasHosted_iff.mpr ⟨v, Option.mem_toList.mpr ?_, h.named⟩
    rw [Option.filter_eq_some_iff, beq_iff_eq]
    exact ⟨h.stored, hlabel⟩

end Handing

/-- A failure to hand the credentials over is recorded and counted. -/
theorem failHandOver_meets (hl : Lenient allowed) {s : Secret} {new : List Condition}
    {f : Except Failure Unit → Except Failure Unit → Failure} (hnew : Foreseen c m' new)
    (h : Underway c m d m') (hstatus : d.status = c.status)
    (hs : m'.secrets.get? (autoImportKey c) = some s) (hkey : s.key = autoImportKey c)
    (hconsumes : ∀ p, m'.plan? c = some p → p.consumes = !s.isKept) :
    Meets t allowed (Imported c held m) (do
      let recorded ← attempt (setConditions ctx c new)
      let counted ← attempt (countRetry s)
      throw (f recorded counted)) m' := by
  refine meets_bind.mpr (meets_attempt.mpr (setConditions_underway hl hnew h hstatus ?_ ?_))
  · intro g m₁ hm₁
    refine meets_bind.mpr (meets_attempt.mpr (countRetry_meets hl (h.alike hm₁)
      (hm₁.secrets ▸ hs) hkey ?_ fun _ _ h₂ => meets_throw.mpr (Imported.failed h₂)))
    rw [Hub.Memory.plan?_of_alike hm₁]
    exact hconsumes
  · intro d₁ m₁ h₁ hwithin hplan _
    refine meets_bind.mpr (meets_attempt.mpr (countRetry_meets hl h₁
      ((hwithin.secrets_eq fun _ => id) ▸ hs) hkey ?_
      fun _ _ h₂ => meets_throw.mpr (Imported.failed h₂)))
    rw [hplan]
    exact hconsumes

/-- Once both works are there, it only remains to tell of it and to use the secret up. -/
theorem tell_meets (hl : Lenient allowed) {hosting : String} {s : Secret}
    {agent w handed v : ManifestWork} (h : Underway c m d m') (hstatus : d.status = c.status)
    (hs₀ : m.secrets.get? (autoImportKey c) = some s)
    (hhanding : Handing c hosting s agent w handed v m')
    (hheld : d.isHeld = heldAfter c.isHeld 1 held) :
    Meets t allowed (Imported c held m) (do
      setConditions ctx c (told ctx.now (w.isReadyToApply c.nameText))
      consume c s) m' := by
  refine meets_bind.mpr (setConditions_underway hl
    (foreseen_of_handOver hhanding.plan? fun x hx => ?_) h hstatus ?_ ?_)
  · have hmem : x.type ∈ (told ctx.now (w.isReadyToApply c.nameText)).map (·.type) :=
      List.mem_map_of_mem hx
    rwa [types_told] at hmem
  · intro g m₁ hm₁
    exact Imported.failed (h.alike hm₁)
  · intro d₁ m₁ h₁ hwithin _ hr
    have hhanding₁ := hhanding.of_cluster hwithin h.stored h₁.stored hr.bare
    refine consume_meets hl h₁ hs₀ (hhanding₁.done hr) ?_
    rw [ManagedCluster.isHeld_congr hr.finalizers, hheld]

theorem handOver_meets (hl : Lenient allowed) {hosting : String} {agent w : ManifestWork}
    {s : Secret} (h : Underway c m d m') (hstatus : d.status = c.status)
    (hplaced : Placed c hosting agent w m') (havailable : w.isAvailable = true)
    (hs₀ : m.secrets.get? (autoImportKey c) = some s)
    (hs : m'.secrets.get? (autoImportKey c) = some s) (hkey : s.key = autoImportKey c)
    (hfiled : ∀ v, m'.works.get? ⟨hosting, Names.kubeconfigWork c.nameText⟩ = some v →
      v.key = ⟨hosting, Names.kubeconfigWork c.nameText⟩)
    (hheld : d.isHeld = heldAfter c.isHeld 1 held) :
    Meets t allowed (Imported c held m)
      (handOver ctx c hosting (w.isReadyToApply c.nameText) s) m' := by
  unfold handOver
  rw [ManagedCluster.anyName_eq h.named]
  cases hbuild : HostedWork.kubeconfig c.nameText hosting s.autoImportKubeconfig with
  | error e => exact failWith_underway hl rfl h hstatus
  | ok handed =>
    have hplan := hplaced.plan?_handOver hs havailable hbuild
    have hown := HostedWork.isOwn_of_kubeconfig hbuild
    rw [← HostedWork.key_kubeconfig hbuild] at hfiled
    refine meets_bind.mpr (meets_attempt.mpr (applyWork_meets hl.lax hown.named
      (fun w _ => hl.puts _ w) hfiled ?_ ?_))
    · intro f m₁ hm
      have hplan₁ := (Hub.Memory.plan?_of_alike hm c).trans hplan
      refine failHandOver_meets hl (foreseen_of_handOver hplan₁ fun x hx => ?_) (h.alike hm) hstatus
        (hm.secrets ▸ hs) hkey fun p hp => ?_
      · rw [List.mem_singleton.mp hx]
        exact List.mem_cons_self
      · rw [hplan₁, Option.some.injEq] at hp
        rw [← hp]
        rfl
    · intro v m₁ hwithin hv hbrought
      have hhanding := Handing.of_brought hplaced havailable hs hbuild hfiled hwithin hv hbrought
      refine tell_meets hl ?_ hstatus hs₀ hhanding hheld
      refine h.brought hplaced.hosting? hown (hhanding.plan?.trans hplan.symm) (fun p hp => ?_)
        hwithin hv hbrought fun hn _ hnone => ?_
      · rw [hplan, Option.some.injEq] at hp
        rw [← hp]
        exact List.mem_cons_of_mem _ (List.mem_singleton.mpr rfl)
      · exact (Hub.Memory.worksOf_eq_empty_iff hn).mp hnone hplaced.holdsWork

/-! ## The whole import -/

/-- Since the state `m` the agent's work has been brought, which leaves the secret and the work
of the credentials as they were. -/
structure Installed (c : ManagedCluster) (hosting : String) (agent w : ManifestWork) (m : Memory)
    (d : ManagedCluster) (m' : Memory) : Prop where
  underway : Underway c m d m'
  status : d.status = c.status
  placed : Placed c hosting agent w m'
  secret : m'.secrets.get? (autoImportKey c) = m.secrets.get? (autoImportKey c)
  credentials : m'.works.get? ⟨hosting, Names.kubeconfigWork c.nameText⟩ =
    m.works.get? ⟨hosting, Names.kubeconfigWork c.nameText⟩

namespace Installed

variable {hosting : String} {payload : Bytes} {agent w : ManifestWork}

theorem of_brought (h : Underway c m d m) (hstatus : d.status = c.status)
    (hdemand : m.demand c = .agent hosting payload)
    (hbuild : HostedWork.klusterlet c.nameText hosting payload = .ok agent)
    (hinStep : d.isHeld = true → (m.worksOf c).total ≠ 0)
    (hwithin : Within { works := (· = agent.key) } m m')
    (hw : m'.works.get? agent.key = some w) (hbrought : Brought agent (m.works.get? agent.key) w) :
    Installed c hosting agent w m d m' := by
  have hown := HostedWork.isOwn_of_klusterlet hbuild
  have hkey := HostedWork.key_klusterlet hbuild
  have hplan : m'.plan? c = m.plan? c := by
    refine Hub.Memory.plan?_of_agent hdemand (hkey ▸ hwithin) (hkey ▸ hw) ?_
    rw [ManifestWork.status_of_unversioned hbrought, ManifestWork.status_brought, hkey]
  refine ⟨?_, hstatus, ⟨⟨payload, ?_, hbuild⟩, hkey ▸ hw, hbrought.fulfils hown.self⟩,
    hwithin.secrets _ id, hwithin.works _ fun he => ?_⟩
  · refine h.brought (Hub.Memory.hosting?_of_demand hdemand) hown hplan (fun p hp => ?_) hwithin hw
      hbrought fun _ => hinStep
    exact Hub.Memory.mem_works_of_plan? hdemand hbuild hp
  · exact (Hub.Memory.demand_of_works hwithin c).trans hdemand
  · rw [hkey] at he
    exact Names.klusterletWork_ne_kubeconfigWork _ _ (ObjectKey.mk.inj he).2.symm

theorem synced {copy : Bool} (h : Installed c hosting agent w m d m')
    (hwithin : Within { clusters := (· = c.nameText) } m' m'')
    (hd' : m''.clusters.get? c.nameText = some d') (hsync : Synced copy 1 d d') :
    Installed c hosting agent w m d' m'' where
  underway := h.underway.synced (fun hn => iff_of_false Nat.one_ne_zero fun hnone =>
    (Hub.Memory.worksOf_eq_empty_iff hn).mp hnone h.placed.holdsWork) hwithin hd' hsync
  status := hsync.status.trans h.status
  placed := h.placed.congr
    (Hub.Memory.demand_of_cluster hwithin h.underway.stored hd' hsync.bare) (hwithin.works _ id)
  secret := (hwithin.secrets _ id).trans h.secret
  credentials := (hwithin.works _ id).trans h.credentials

end Installed

/-- Without a secret the cluster waits for its credentials, or is ready. -/
theorem withoutSecret_meets (hl : Lenient allowed) {hosting : String} {agent w : ManifestWork}
    (hm : m.Filed) (h : Installed c hosting agent w m d m')
    (hs : m'.secrets.get? (autoImportKey c) = none)
    (hheld : d.isHeld = heldAfter c.isHeld 1 held) :
    Meets t allowed (Imported c held m) (setConditions ctx c
      [withoutSecret ctx.now c.nameText (m.worksOf c) (w.isReadyToApply c.nameText)]) m' := by
  refine setConditions_brought hl ?_ (fun hn => ?_) h.underway h.status h.placed.holdsWork hheld
  · unfold withoutSecret
    split <;> rfl
  · refine ⟨_, h.placed.plan?_without hs, h.placed.fulfilled _, words_bring_withoutSecret ?_, rfl⟩
    -- the listing is from before, but the work of the credentials is as it was
    rw [← Hub.Memory.hasHosted_credentials hn hm h.placed.hosting?]
    unfold Hub.Memory.credentials
    rw [h.credentials]

theorem bringAgent_meets (hl : Lenient allowed) {hosting : String} {payload : Bytes}
    (hm : m.Filed) (h : Underway c m d m) (hstatus : d.status = c.status)
    (hlive : c.isDeleting = false) (hdemand : m.demand c = .agent hosting payload)
    (hinStep : d.isHeld = true → (m.worksOf c).total ≠ 0) :
    Meets t allowed (Imported c d.isHeld m)
      (bringAgent ctx c (m.worksOf c) hosting payload) m := by
  unfold bringAgent
  rw [ManagedCluster.anyName_eq h.named]
  cases hbuild : HostedWork.klusterlet c.nameText hosting payload with
  | error e => exact failWith_underway hl rfl h hstatus
  | ok agent =>
    refine meets_bind.mpr (meets_attempt.mpr (applyWork_meets hl.lax
      (HostedWork.isOwn_of_klusterlet hbuild).named (fun w _ => hl.puts _ w) (hm.works _) ?_ ?_))
    · intro f m₁ hm₁
      exact failWith_underway hl rfl (h.alike hm₁) hstatus
    intro w m₁ hwithin hw hbrought
    have h₁ := Installed.of_brought h hstatus hdemand hbuild hinStep hwithin hw hbrought
    refine meets_bind.mpr
      (syncFinalizer_live_meets hl.lax h.named h₁.underway.stored h₁.underway.bare hlive ?_ ?_)
    · intro f m₂ hm₂
      exact Imported.failed (h₁.underway.alike hm₂)
    intro d₂ m₂ hwithin₂ hd₂ hsync
    have h₂ := h₁.synced hwithin₂ hd₂ hsync
    cases hs : m.secrets.get? (autoImportKey c) with
    | none =>
      have hs₂ := h₂.secret.trans hs
      refine meets_bind.mpr (getSecret_meets hl.reads hs₂ ?_)
      exact withoutSecret_meets hl hm h₂ hs₂ hsync.held
    | some s =>
      have hs₂ := h₂.secret.trans hs
      refine meets_bind.mpr (getSecret_meets hl.reads hs₂ ?_)
      dsimp only [Next]
      cases havailable : w.isAvailable with
      | true =>
        rw [if_pos rfl]
        refine handOver_meets hl h₂.underway h₂.status h₂.placed havailable hs hs₂
          (hm.secrets _ s hs) (fun v hv => ?_) hsync.held
        rw [h₂.credentials] at hv
        exact hm.works _ v hv
      | false =>
        rw [if_neg Bool.false_ne_true]
        refine setConditions_brought hl rfl (fun _ => ?_) h₂.underway h₂.status
          h₂.placed.holdsWork hsync.held
        exact ⟨_, h₂.placed.plan?_waiting hs₂ havailable, h₂.placed.fulfilled _, rfl, rfl⟩

/-- An import waits, or brings the agent, as is asked of it. -/
theorem importCluster_cases (ho : Open allowed) (hnamed : c.metadata.IsNamed)
    {works : ClusterWorks}
    {post : Except Failure Unit → Memory → Prop}
    (hwait : ∀ reason message, m.demand c = .wait reason message →
      Meets t allowed post (setConditions ctx c [Progress.pending ctx.now reason message]) m)
    (hagent : ∀ hosting payload, m.demand c = .agent hosting payload →
      Meets t allowed post (bringAgent ctx c works hosting payload) m) :
    Meets t allowed post (importCluster ctx c works) m := by
  unfold Hub.Memory.demand at hwait hagent
  unfold importCluster
  rw [ManagedCluster.anyName_eq hnamed]
  cases hh : c.hosting? with
  | none =>
    rw [hh] at hwait
    exact hwait _ _ rfl
  | some hosting =>
    rw [hh] at hwait hagent
    refine meets_bind.mpr (getCluster_meets ho rfl ?_)
    dsimp only [Next] at hwait hagent ⊢
    cases hproblem : hostingProblem? hosting (m.clusters.get? hosting) with
    | some problem =>
      rw [hproblem] at hwait
      exact hwait _ _ rfl
    | none =>
      rw [hproblem] at hwait hagent
      refine meets_bind.mpr (getSecret_meets ho rfl ?_)
      dsimp only [Next] at hwait hagent ⊢
      cases hs : m.secrets.get? ⟨c.nameText, Names.importSecret c.nameText⟩ with
      | none =>
        rw [hs] at hwait
        exact hwait _ _ rfl
      | some s =>
        rw [hs] at hwait hagent
        dsimp only at hwait hagent ⊢
        cases hpayload : s.payload? with
        | none =>
          rw [hpayload] at hwait
          exact hwait _ _ rfl
        | some payload =>
          rw [hpayload] at hagent
          exact hagent _ _ rfl

theorem importCluster_meets (hl : Lenient allowed) (hm : m.Filed)
    (h : Underway c m d m) (hstatus : d.status = c.status) (hlive : c.isDeleting = false)
    (hinStep : d.isHeld = true → (m.worksOf c).total ≠ 0) :
    Meets t allowed (Imported c d.isHeld m) (importCluster ctx c (m.worksOf c)) m := by
  refine importCluster_cases hl.reads h.named (fun reason message hdemand => ?_)
    fun hosting payload hdemand => ?_
  · refine setConditions_waiting hl rfl (fun _ => ?_) h hstatus rfl rfl
    refine ⟨Plan.wait reason message, ?_, fun _ hdesired => ?_, rfl, rfl⟩
    · unfold Hub.Memory.plan?
      rw [hdemand]
    · cases hdesired
  · exact bringAgent_meets hl hm h hstatus hlive hdemand hinStep

/-! ## From an earlier state -/

/-- What came to pass from `m'` on came to pass from `m` on, if only the cluster was written
between them. -/
theorem Imported.from_earlier {r : Except Failure Unit} (h : Underway c m d m')
    (hwithin : Within { clusters := (· = c.nameText) } m m') (h' : Imported c held m' r m'') :
    Imported c held m r m'' := by
  cases h' with
  | failed hu => exact failed (h.trans hu)
  | waiting hu works sync arrived =>
    exact waiting (h.trans hu) (works.trans (hwithin.works_eq fun _ => id)) sync arrived
  | brought hu works sync arrived => exact brought (h.trans hu) works sync arrived
  | handedOver within stored bare secret used gone done works sync arrived faithful =>
    rw [hwithin.secrets_eq fun _ => id] at secret
    exact handedOver ((within_importScope hwithin).trans within) stored bare secret used gone done
      works sync arrived (h.faithful.trans h.stored faithful)

end Pass
end Hosting
