import Hosting.Proofs.Pass.Goal

/-!
# What holds all along an import

Whichever of its steps an import has come to, only objects of the import are changed, what
others own of them is left alone, and the goal stays the same.  Until the work of the
credentials is there, the auto-import secret keeps its data.
-/

namespace Hosting
namespace Pass

open Hub (Memory)
open Hub.Memory (Scope Alike Within)

/-- The cluster, its works on the hosting cluster, and its auto-import secret. -/
def importScope (c : ManagedCluster) : Scope where
  clusters := (· = c.nameText)
  works k := c.hosting? = some k.nspace ∧
    (k.name = Names.klusterletWork c.nameText ∨ k.name = Names.kubeconfigWork c.nameText)
  secrets := (· = autoImportKey c)

theorem within_importScope {c : ManagedCluster} {m m' : Memory}
    (h : Within { clusters := (· = c.nameText) } m m') : Within (importScope c) m m' :=
  h.mono (fun _ => id) (fun _ => False.elim) fun _ => False.elim

theorem importScope_of_bare {c d : ManagedCluster} (h : d.bare = c.bare) :
    importScope d = importScope c := by
  unfold importScope autoImportKey
  rw [ManagedCluster.nameText_of_bare h, ManagedCluster.hosting?_of_bare h]

theorem importScope_of_isOwn {c : ManagedCluster} {hosting : String} {desired : ManifestWork}
    (hh : c.hosting? = some hosting) (hown : HostedWork.IsOwn c.nameText hosting desired) :
    (importScope c).works desired.key := by
  rcases hown.key with hkey | hkey
  · rw [hkey]
    exact ⟨hh, Or.inl rfl⟩
  · rw [hkey]
    exact ⟨hh, Or.inr rfl⟩

/-- A pass that read the live cluster `c`, which is stored as `d` now, has left alone what is
not its own of the cluster and of the works, and has not been led astray. -/
structure Faithful (c : ManagedCluster) (m : Memory) (d : ManagedCluster) (m' : Memory) :
    Prop where
  tended : c.Tended d
  retains : ∀ k w, m.works.get? k = some w → ∃ w', m'.works.get? k = some w' ∧ w.Retains w'
  goal : ',' ∉ c.nameText.toList → ∀ d₀, m.clusters.get? c.nameText = some d₀ →
    m'.goal? c d = m.goal? c d₀

/-- A pass that read the cluster as `c` and began in the state `m` has come to the state
`m'`, where `d` is stored. -/
structure Underway (c : ManagedCluster) (m : Memory) (d : ManagedCluster) (m' : Memory) :
    Prop where
  named : c.metadata.IsNamed
  within : Within (importScope c) m m'
  stored : m'.clusters.get? c.nameText = some d
  faithful : Faithful c m d m'
  secret : ∀ s, m.secrets.get? (autoImportKey c) = some s →
    ∃ s', m'.secrets.get? (autoImportKey c) = some s' ∧ s'.data = s.data ∧ s'.type = s.type

/-- Conditions that tell of the progress, as the plan does in the end. -/
structure Foreseen (c : ManagedCluster) (m : Memory) (new : List Condition) : Prop where
  progress : ∀ x ∈ new, x.type ∈ ManagedCluster.progressTypes
  plan : ∀ p, m.plan? c = some p → ∀ x ∈ new, x.type ∈ p.words.map (·.1)

variable {c d d' : ManagedCluster} {m m' m'' : Memory}

theorem foreseen_singleton {x : Condition} (h : x.type = Names.importSucceeded) :
    Foreseen c m [x] where
  progress y hy := by
    rw [List.mem_singleton.mp hy, h]
    exact List.mem_cons_self
  plan p hp y hy := by
    rw [List.mem_singleton.mp hy, h]
    exact Hub.Memory.importSucceeded_mem_words hp

theorem Faithful.trans (h : Faithful c m d m') (hd : m'.clusters.get? c.nameText = some d)
    (h' : Faithful c m' d' m'') : Faithful c m d' m'' where
  tended := h'.tended
  retains k w hw := by
    obtain ⟨w', hw', hr⟩ := h.retains k w hw
    obtain ⟨w'', hw'', hr'⟩ := h'.retains k w' hw'
    exact ⟨w'', hw'', hr.trans hr'⟩
  goal hn d₀ hd₀ := (h'.goal hn d hd).trans (h.goal hn d₀ hd₀)

namespace Underway

theorem refl (hnamed : c.metadata.IsNamed) (hd : m.clusters.get? c.nameText = some d)
    (htended : c.Tended d) : Underway c m d m := by
  refine ⟨hnamed, Within.refl _ m, hd,
    ⟨htended, fun k w hw => ⟨w, hw, .refl w⟩, fun _ d₀ hd₀ => ?_⟩,
    fun s hs => ⟨s, hs, rfl, rfl⟩⟩
  rw [hd, Option.some.injEq] at hd₀
  rw [hd₀]

theorem bare (h : Underway c m d m') : d.bare = c.bare := h.faithful.tended.bare

theorem nameText (h : Underway c m d m') : d.nameText = c.nameText :=
  ManagedCluster.nameText_of_bare h.bare

theorem trans (h : Underway c m d m') (h' : Underway c m' d' m'') : Underway c m d' m'' where
  named := h.named
  within := h.within.trans h'.within
  stored := h'.stored
  faithful := h.faithful.trans h.stored h'.faithful
  secret s hs := by
    obtain ⟨s', hs', hdata, htype⟩ := h.secret s hs
    obtain ⟨s'', hs'', hdata', htype'⟩ := h'.secret s' hs'
    exact ⟨s'', hs'', hdata'.trans hdata, htype'.trans htype⟩

/-- A step that concerns nothing but the cluster. -/
theorem of_cluster (hnamed : c.metadata.IsNamed)
    (hwithin : Within { clusters := (· = c.nameText) } m m')
    (hd : m.clusters.get? c.nameText = some d) (hd' : m'.clusters.get? c.nameText = some d')
    (htended : c.Tended d') (hgoal : ',' ∉ c.nameText.toList → m'.goal? c d' = m.goal? c d) :
    Underway c m d' m' := by
  have hworks : m'.works = m.works := hwithin.works_eq fun _ => id
  have hsecrets : m'.secrets = m.secrets := hwithin.secrets_eq fun _ => id
  refine ⟨hnamed, within_importScope hwithin, hd', ⟨htended, fun k w hw => ?_, fun hn d₀ hd₀ => ?_⟩,
    fun s hs => ⟨s, hsecrets ▸ hs, rfl, rfl⟩⟩
  · exact ⟨w, hworks ▸ hw, .refl w⟩
  · rw [hd, Option.some.injEq] at hd₀
    rw [← hd₀, hgoal hn]

theorem alike (h : Underway c m d m') (h' : Alike m' m'') : Underway c m d m'' :=
  h.trans (of_cluster h.named (Within.of_alike _ h') h.stored (h'.clusters ▸ h.stored)
    h.faithful.tended fun _ => Hub.Memory.goal?_of_alike h' h.stored)

theorem reported {new : List Condition} (h : Underway c m d m') (hnew : Foreseen c m' new)
    (hwithin : Within { clusters := (· = c.nameText) } m' m'')
    (hd' : m''.clusters.get? c.nameText = some d') (hr : Reported new d d') :
    Underway c m d' m'' :=
  h.trans (of_cluster h.named hwithin h.stored hd'
    (h.faithful.tended.trans (hr.tended hnew.progress))
    fun _ => Hub.Memory.goal?_of_reported hwithin h.stored hd' hr hnew.plan)

theorem synced {copy : Bool} {works : Nat} (h : Underway c m d m')
    (hworks : ',' ∉ c.nameText.toList → (works = 0 ↔ (m'.worksOf c).total = 0))
    (hwithin : Within { clusters := (· = c.nameText) } m' m'')
    (hd' : m''.clusters.get? c.nameText = some d') (hs : Synced copy works d d') :
    Underway c m d' m'' :=
  h.trans (of_cluster h.named hwithin h.stored hd' (h.faithful.tended.trans hs.tended)
    fun hn => Hub.Memory.goal?_of_synced hwithin h.stored hd' hs (hworks hn))

theorem brought {hosting : String} {desired w : ManifestWork} (h : Underway c m d m')
    (hh : c.hosting? = some hosting) (hown : HostedWork.IsOwn c.nameText hosting desired)
    (hplan : m''.plan? c = m'.plan? c)
    (hdesired : ∀ p, m'.plan? c = some p → desired ∈ p.works)
    (hwithin : Within { works := (· = desired.key) } m' m'')
    (hw : m''.works.get? desired.key = some w)
    (hbrought : Brought desired (m'.works.get? desired.key) w)
    (hheld : ',' ∉ c.nameText.toList → d.isHeld = true → (m'.worksOf c).total ≠ 0) :
    Underway c m d m'' := by
  have hsecrets : m''.secrets = m'.secrets := hwithin.secrets_eq fun _ => id
  refine h.trans ⟨h.named, ?_, (hwithin.clusters _ id).trans h.stored,
    ⟨h.faithful.tended, ?_, ?_⟩, ?_⟩
  · exact hwithin.mono (fun _ => False.elim) (fun _ hk => hk ▸ importScope_of_isOwn hh hown)
      fun _ => False.elim
  · intro k v hv
    by_cases hk : k = desired.key
    · subst hk
      rw [hv] at hbrought
      exact ⟨w, hw, ManifestWork.retains_brought hown hbrought⟩
    · exact ⟨v, (hwithin.works k hk).trans hv, .refl v⟩
  · intro hn d₀ hd₀
    rw [h.stored, Option.some.injEq] at hd₀
    subst hd₀
    exact Hub.Memory.goal?_of_brought hn hh hown hplan hdesired hwithin hw hbrought (hheld hn)
  · intro s hs
    exact ⟨s, hsecrets ▸ hs, rfl, rfl⟩

end Underway

end Pass
end Hosting
