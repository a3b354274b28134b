import Hosting.Proofs.Pass.Plan

/-!
# Where an import leads

The goal of a state is how the objects of a cluster stand once the plan has been carried
out, without versions, times and counts of attempts.  Each kind of step that a pass makes,
as far as it comes, leaves the goal as it is; a state in which the plan has been carried out
is its own goal (`goal?_of_settled`).
-/

namespace Hosting

/-! ## Finalizers -/

namespace Finalizers

/-- The finalizers of a cluster that has a number of works, and gets some or not.  The
finalizer is taken off a cluster without works even if it is put on in the end. -/
def ledTo (gets : Bool) (works : Nat) (fs : Option (List String)) : Option (List String) :=
  let stripped := if works = 0 then released fs else fs
  if gets || works != 0 then held stripped else stripped

variable {gets : Bool} {works : Nat} {fs : Option (List String)}

theorem ledTo_of_ne (h : works ≠ 0) : ledTo gets works fs = held fs := by
  simp [ledTo, h]

theorem ledTo_released (h : works = 0) : ledTo gets works (released fs) = ledTo gets works fs := by
  simp [ledTo, h, released_released]

theorem ledTo_held (h : works ≠ 0) : ledTo gets works (held fs) = ledTo gets works fs := by
  rw [ledTo_of_ne h, ledTo_of_ne h, held_held]

theorem ledTo_of_gets (h : works = 0 → holds fs = false) : ledTo true works fs = held fs := by
  by_cases hw : works = 0
  · simp [ledTo, hw, released_of_not_holds (h hw)]
  · exact ledTo_of_ne hw

theorem ledTo_of_inStep (h : holds fs = decide (works ≠ 0)) (hgets : gets = true → works ≠ 0) :
    ledTo gets works fs = fs := by
  by_cases hw : works = 0
  · have hnot : gets = false := Bool.eq_false_iff.mpr fun hg => hgets hg hw
    have hfs : holds fs = false := by rw [h, hw]; rfl
    simp [ledTo, hw, hnot, released_of_not_holds hfs]
  · have hfs : holds fs = true := by rw [h]; exact decide_eq_true hw
    rw [ledTo_of_ne hw, held_of_holds hfs]

end Finalizers

/-! ## Goals -/

/-- How the objects of a cluster stand, without versions, times and counts. -/
structure Standing where
  finalizers : Option (List String)
  words : String → List Said
  works : ObjectKey → Option ManifestWork
  secret : Option Secret

/-- The secret without its version and the count of attempts. -/
def Secret.plain (s : Secret) : Secret :=
  { s with metadata := { s.metadata with
      resourceVersion := none
      annotations := s.metadata.annotations.map (·.erase Names.autoImportRetry) } }

namespace Secret

theorem autoImportKubeconfig_retried (s : Secret) (n : Nat) :
    Secret.autoImportKubeconfig
      { s.retried.1 with metadata := Hub.Memory.stamped s.retried.1.metadata n } =
        s.autoImportKubeconfig := rfl

theorem isKept_retried (s : Secret) (n : Nat) :
    Secret.isKept { s.retried.1 with metadata := Hub.Memory.stamped s.retried.1.metadata n } =
      s.isKept := by
  have hne : Names.keepAutoImport ≠ Names.autoImportRetry := by decide
  show (((s.metadata.annotations.getD .empty).insert Names.autoImportRetry _).get?
    Names.keepAutoImport).isSome = _
  rw [Table.get?_insert_of_ne _ hne]
  unfold isKept Metadata.annotation?
  cases s.metadata.annotations <;> rfl

theorem plain_retried {s : Secret} (n : Nat) (h : s.isKept = true) :
    Secret.plain { s.retried.1 with metadata := Hub.Memory.stamped s.retried.1.metadata n } =
      s.plain := by
  unfold isKept Metadata.annotation? at h
  cases ha : s.metadata.annotations with
  | none =>
    rw [ha] at h
    cases h
  | some annotations =>
    unfold plain retried Hub.Memory.stamped
    dsimp only
    rw [ha, Option.getD_some, Option.map_some, Option.map_some, Table.erase_insert_self]

end Secret

open Hub (Memory)

/-- How the objects of the cluster stand, which was read as `c` and is stored as `d`. -/
def Hub.Memory.standing (m : Memory) (c d : ManagedCluster) : Standing where
  finalizers := d.metadata.finalizers
  words := d.conditions.said
  works k := (m.works.get? k).map ManifestWork.unversioned
  secret := (m.secrets.get? (autoImportKey c)).map Secret.plain

/-- How they stand once the plan has been carried out. -/
def Plan.goal (p : Plan) (m : Memory) (c d : ManagedCluster) : Standing where
  finalizers := Finalizers.ledTo (!p.works.isEmpty) (m.worksOf c).total d.metadata.finalizers
  words := p.words.foldl Conditions.enter d.conditions.said
  works k := match p.works.find? (·.key == k) with
    | none => (m.works.get? k).map ManifestWork.unversioned
    | some desired => some (desired.brought (m.works.get? k)).unversioned
  secret := if p.consumes then none
    else (m.secrets.get? (autoImportKey c)).map Secret.plain

def Hub.Memory.goal? (m : Memory) (c d : ManagedCluster) : Option Standing :=
  (m.plan? c).map fun p => p.goal m c d

/-- The works of the plan are there as it wants them. -/
def Plan.Fulfilled (p : Plan) (m : Memory) : Prop :=
  ∀ desired ∈ p.works, ∃ w, m.works.get? desired.key = some w ∧ w.fulfils desired = true

/-- The works of the plan are there, and what it tells is told. -/
structure Reached (m : Memory) (c d : ManagedCluster) (p : Plan) : Prop where
  plan : m.plan? c = some p
  works : p.Fulfilled m
  words : ∀ e ∈ p.words, (d.conditions.said e.1).head? = some e.2

theorem Reached.of_bare {m : Memory} {c d e : ManagedCluster} {p : Plan} (h : Reached m c e p)
    (hbare : d.bare = c.bare) : Reached m d e p where
  plan := (Hub.Memory.plan?_of_bare hbare m).trans h.plan
  works := h.works
  words := h.words

namespace Hub.Memory

open Pass

variable {m m' : Memory} {c d d' : ManagedCluster} {p : Plan}

theorem goal?_of_bare (h : d.bare = c.bare) (m : Memory) (e : ManagedCluster) :
    m.goal? d e = m.goal? c e := by
  unfold goal? Plan.goal autoImportKey
  rw [plan?_of_bare h, worksOf_of_bare h, ManagedCluster.nameText_of_bare h]

theorem goal?_congr (hplan : m'.plan? c = m.plan? c)
    (hgoal : ∀ p, m.plan? c = some p → p.goal m' c d' = p.goal m c d) :
    m'.goal? c d' = m.goal? c d := by
  unfold goal?
  rw [hplan]
  cases hp : m.plan? c with
  | none => rfl
  | some p => exact congrArg some (hgoal p hp)

/-! ### Steps on the cluster -/

theorem goal?_of_cluster (h : Within { clusters := (· = c.nameText) } m m')
    (hd : m.clusters.get? c.nameText = some d) (hd' : m'.clusters.get? c.nameText = some d')
    (hbare : d'.bare = d.bare)
    (hfinalizers : ∀ gets, Finalizers.ledTo gets (m.worksOf c).total d'.metadata.finalizers =
      Finalizers.ledTo gets (m.worksOf c).total d.metadata.finalizers)
    (hwords : ∀ p, m.plan? c = some p → p.words.foldl Conditions.enter d'.conditions.said =
      p.words.foldl Conditions.enter d.conditions.said) : m'.goal? c d' = m.goal? c d := by
  have hworks : m'.works = m.works := h.works_eq fun _ => id
  have hsecrets : m'.secrets = m.secrets := h.secrets_eq fun _ => id
  have hdemand := demand_of_cluster h hd hd' hbare
  refine goal?_congr (plan?_congr hdemand hworks (by rw [hsecrets])) fun p hp => ?_
  unfold Plan.goal
  rw [worksOf_congr hworks, hworks, hsecrets, hfinalizers, hwords p hp]

theorem goal?_of_alike (h : Alike m m') (hd : m.clusters.get? c.nameText = some d) :
    m'.goal? c d = m.goal? c d :=
  goal?_of_cluster (Within.of_alike _ h) hd (h.clusters ▸ hd) rfl (fun _ => rfl) fun _ _ => rfl

/-- Conditions of which the plan tells anyway make no difference in the end. -/
theorem goal?_of_reported {new : List Condition} (h : Within { clusters := (· = c.nameText) } m m')
    (hd : m.clusters.get? c.nameText = some d) (hd' : m'.clusters.get? c.nameText = some d')
    (hr : Reported new d d')
    (hnew : ∀ p, m.plan? c = some p → ∀ x ∈ new, x.type ∈ p.words.map (·.1)) :
    m'.goal? c d' = m.goal? c d := by
  refine goal?_of_cluster h hd hd' hr.bare (fun gets => ?_) fun p hp => ?_
  · rw [hr.finalizers]
  · rw [hr.said]
    refine Conditions.foldl_enter_absorb fun e he => ?_
    obtain ⟨x, hx, rfl⟩ := List.mem_map.mp he
    exact hnew p hp x hx

theorem goal?_of_synced {copy : Bool} {works : Nat}
    (h : Within { clusters := (· = c.nameText) } m m')
    (hd : m.clusters.get? c.nameText = some d) (hd' : m'.clusters.get? c.nameText = some d')
    (hs : Synced copy works d d') (hworks : works = 0 ↔ (m.worksOf c).total = 0) :
    m'.goal? c d' = m.goal? c d := by
  refine goal?_of_cluster h hd hd' hs.bare (fun gets => ?_) fun p _ => ?_
  · rw [hs.finalizers]
    by_cases hw : works = 0
    · rw [if_pos hw]
      split
      · exact Finalizers.ledTo_released (hworks.mp hw)
      · rfl
    · rw [if_neg hw]
      split
      · rfl
      · exact Finalizers.ledTo_held fun h0 => hw (hworks.mpr h0)
  · unfold ManagedCluster.conditions
    rw [hs.status]

/-! ### Steps on works -/

theorem holdsWork_of_isOwn {hosting : String} {desired w : ManifestWork}
    (hown : HostedWork.IsOwn c.nameText hosting desired) (hh : c.hosting? = some hosting)
    (hw : m.works.get? desired.key = some w) (happlied : Applied desired w) : m.HoldsWork c := by
  refine ⟨desired.key, w, hw, Or.inr ⟨?_, happlied.label _ _ hown.label⟩⟩
  rcases hown.key with hkey | hkey
  · rw [hkey, hh]
  · rw [hkey, hh]

/-- A work of the plan is brought to a cluster that has the finalizer only with works. -/
theorem goal?_of_brought {hosting : String} {desired w : ManifestWork}
    (hn : ',' ∉ c.nameText.toList) (hh : c.hosting? = some hosting)
    (hown : HostedWork.IsOwn c.nameText hosting desired) (hplan : m'.plan? c = m.plan? c)
    (hdesired : ∀ p, m.plan? c = some p → desired ∈ p.works)
    (hwithin : Within { works := (· = desired.key) } m m')
    (hw : m'.works.get? desired.key = some w)
    (hbrought : Brought desired (m.works.get? desired.key) w)
    (hheld : d.isHeld = true → (m.worksOf c).total ≠ 0) : m'.goal? c d = m.goal? c d := by
  refine goal?_congr hplan fun p hp => ?_
  have hmem := hdesired p hp
  have hgets : (!p.works.isEmpty) = true := by
    cases hworks : p.works with
    | nil =>
      rw [hworks] at hmem
      cases hmem
    | cons x xs => rfl
  have hful : w.fulfils desired = true := hbrought.fulfils hown.self
  have htotal : (m'.worksOf c).total ≠ 0 := fun h0 =>
    (worksOf_eq_empty_iff hn).mp h0 (holdsWork_of_isOwn hown hh hw (applied_of_fulfils hful))
  have hnot (h0 : (m.worksOf c).total = 0) : Finalizers.holds d.metadata.finalizers = false :=
    Bool.eq_false_iff.mpr fun hh => hheld hh h0
  -- the plan gets the cluster a work, so the finalizer is on in the end, with this one or not
  have hfinalizers :
      Finalizers.ledTo (!p.works.isEmpty) (m'.worksOf c).total d.metadata.finalizers =
        Finalizers.ledTo (!p.works.isEmpty) (m.worksOf c).total d.metadata.finalizers := by
    rw [hgets, Finalizers.ledTo_of_ne htotal, Finalizers.ledTo_of_gets hnot]
  have hworks : (p.goal m' c d).works = (p.goal m c d).works := by
    funext k
    show (match p.works.find? (·.key == k) with | none => _ | some desired => _ : Option _) =
      match p.works.find? (·.key == k) with | none => _ | some desired => _
    by_cases hk : k = desired.key
    · rw [hk, find?_works_of_plan? hp hmem]
      dsimp only
      rw [hw, ManifestWork.brought_of_fulfils hful]
      exact congrArg some hbrought
    · rw [hwithin.works k hk]
  have hsecrets : m'.secrets = m.secrets := hwithin.secrets_eq fun _ => id
  unfold Plan.goal at hworks ⊢
  dsimp only at hworks
  rw [hfinalizers, hworks, hsecrets]

/-! ### Steps on the secret -/

/-- A failed attempt is counted in a secret that the plan uses up, or that is to be kept. -/
theorem goal?_of_retried {s : Secret} {n : Nat} (hs : m.secrets.get? (autoImportKey c) = some s)
    (hwithin : Within { secrets := (· = autoImportKey c) } m m')
    (hs' : m'.secrets.get? (autoImportKey c) =
      some { s.retried.1 with metadata := stamped s.retried.1.metadata n })
    (hconsumes : ∀ p, m.plan? c = some p → p.consumes = !s.isKept) :
    m'.goal? c d = m.goal? c d := by
  have hworks : m'.works = m.works := hwithin.works_eq fun _ => id
  have hdemand : m'.demand c = m.demand c := demand_of_secret hwithin
  have hplan : m'.plan? c = m.plan? c := by
    unfold plan? credentials
    rw [hdemand, hworks, hs, hs']
    simp only [Plan.agent?_congr (Secret.autoImportKubeconfig_retried s n)
      (Secret.isKept_retried s n)]
  refine goal?_congr hplan fun p hp => ?_
  have hsecret : (p.goal m' c d).secret = (p.goal m c d).secret := by
    show (if p.consumes then none else (m'.secrets.get? _).map _) =
      if p.consumes then none else (m.secrets.get? _).map _
    rw [hconsumes p hp, hs, hs', Option.map_some, Option.map_some]
    cases hk : s.isKept with
    | false => rfl
    | true => rw [Secret.plain_retried n hk]
  unfold Plan.goal at hsecret ⊢
  dsimp only at hsecret
  rw [worksOf_congr hworks, hworks, hsecret]

/-! ### Ends -/

theorem reached_of_reported {new : List Condition} (hplan : m.plan? c = some p)
    (hful : p.Fulfilled m) (hwords : p.words = new.map Condition.entry)
    (hnew : new.Pairwise (·.type ≠ ·.type)) (hr : Reported new d d') : Reached m c d' p := by
  refine ⟨hplan, hful, fun e he => ?_⟩
  rw [hwords] at he
  obtain ⟨x, hx, rfl⟩ := List.mem_map.mp he
  exact Conditions.head?_said_iff.mpr (hr.shows hnew hx)

theorem holdsWork_of_reached (h : Reached m c d p) (hne : (!p.works.isEmpty) = true) :
    m.HoldsWork c := by
  cases hworks : p.works with
  | nil =>
    rw [hworks] at hne
    cases hne
  | cons desired rest =>
    have hdesired : desired ∈ p.works := hworks ▸ List.mem_cons_self
    obtain ⟨hosting, hh, hown⟩ := isOwn_of_plan? h.plan hdesired
    obtain ⟨w, hw, hful⟩ := h.works desired hdesired
    exact holdsWork_of_isOwn hown hh hw (applied_of_fulfils hful)

/-- Where the plan has been carried out only the finalizers and the secret may change. -/
theorem goal_of_reached (h : Reached m c d p) : p.goal m c d = {
    finalizers := Finalizers.ledTo (!p.works.isEmpty) (m.worksOf c).total d.metadata.finalizers
    words := d.conditions.said
    works := (m.standing c d).works
    secret := if p.consumes then none
      else (m.secrets.get? (autoImportKey c)).map Secret.plain } := by
  have hwords : p.words.foldl Conditions.enter d.conditions.said = d.conditions.said :=
    Conditions.foldl_enter_of_head? h.words
  have hworks : (p.goal m c d).works = (m.standing c d).works := by
    funext k
    show (match p.works.find? (·.key == k) with | none => _ | some desired => _ : Option _) =
      (m.works.get? k).map ManifestWork.unversioned
    cases hfind : p.works.find? (·.key == k) with
    | none => rfl
    | some desired =>
      have hkey : desired.key = k := by simpa using List.find?_some hfind
      obtain ⟨w, hw, hful⟩ := h.works desired (List.mem_of_find?_eq_some hfind)
      dsimp only
      rw [← hkey, hw, ManifestWork.brought_of_fulfils hful]
      rfl
  unfold Plan.goal at hworks ⊢
  dsimp only at hworks
  rw [hwords, hworks]

/-- The secret is used up once all else is done, and there is another plan after it. -/
theorem goal?_of_consumed {p' : Plan} (h : Reached m c d p) (h' : Reached m' c d p')
    (hconsumes : p.consumes = true) (hworks : m'.works = m.works)
    (hgone : m'.secrets.get? (autoImportKey c) = none)
    (hsame : p'.works.isEmpty = p.works.isEmpty) :
    m'.goal? c d = m.goal? c d := by
  have hsecret : (if p'.consumes then none
      else (m'.secrets.get? (autoImportKey c)).map Secret.plain) = none := by
    rw [hgone]
    split <;> rfl
  unfold goal?
  rw [h.plan, h'.plan, Option.map_some, Option.map_some, goal_of_reached h, goal_of_reached h']
  unfold standing
  rw [hsecret, hconsumes, if_pos rfl, worksOf_congr hworks, hworks, hsame]

/-- What has been carried out is its own goal. -/
theorem goal?_of_settled (hn : ',' ∉ c.nameText.toList) (h : Reached m c d p)
    (hkept : p.consumes = false) (hheld : d.isHeld = decide ((m.worksOf c).total ≠ 0)) :
    m.goal? c d = some (m.standing c d) := by
  have hgets : (!p.works.isEmpty) = true → (m.worksOf c).total ≠ 0 := fun hne h0 =>
    (worksOf_eq_empty_iff hn).mp h0 (holdsWork_of_reached h hne)
  unfold goal?
  rw [h.plan, Option.map_some, goal_of_reached h, Finalizers.ledTo_of_inStep hheld hgets, hkept,
    if_neg Bool.false_ne_true]
  rfl

end Hub.Memory
end Hosting
