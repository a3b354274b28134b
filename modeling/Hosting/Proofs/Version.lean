import Hosting.Proofs.Run

/-!
# Versions

Whatever is written gets a number that the hub has not given before (`later_answer`).  So a
version stands for the cluster that was written under it: an update that is made from a copy
and is not refused has found that very copy (`stored_of_written`).  Of a work that cannot be
said, since the time of its deletion and the loss of its finalizers are noted under the
version that it has.
-/

namespace Hosting

theorem Text.decimal_inj {a b : Nat} (h : Text.decimal a = Text.decimal b) : a = b := by
  have htext (n : Nat) : (Text.decimal n).toList = Nat.toDigits 10 n := by
    have hlength : 1 - (Nat.toDigits 10 n).length = 0 :=
      Nat.sub_eq_zero_of_le Nat.length_toDigits_pos
    simp [Text.decimal, Text.padded, Text.toDigits, hlength]
  have hdigits : Nat.toDigits 10 a = Nat.toDigits 10 b := by
    rw [← htext a, h, htext b]
  rw [← Nat.ofDigitChars_ten_toDigits (n := a), hdigits, Nat.ofDigitChars_ten_toDigits]

/-- The cluster under no version. -/
def ManagedCluster.unversioned (c : ManagedCluster) : ManagedCluster :=
  { c with metadata := { c.metadata with resourceVersion := none } }

theorem ManagedCluster.unversioned_of_bare {c d : ManagedCluster} (h : d.bare = c.bare)
    (hfinalizers : d.metadata.finalizers = c.metadata.finalizers) (hstatus : d.status = c.status) :
    d.unversioned = c.unversioned := by
  have hrest (c : ManagedCluster) : c.unversioned =
      { c.bare with
        metadata := { c.bare.metadata with finalizers := c.metadata.finalizers }
        status := c.status } := rfl
  rw [hrest d, hrest c, h, hfinalizers, hstatus]

namespace Metadata

/-- Its version is one of those numbered past `a` and up to `b`. -/
def Dated (m : Metadata) (a b : Nat) : Prop :=
  ∃ v, a < v ∧ v ≤ b ∧ m.resourceVersion = some (Text.decimal v)

variable {m m' : Metadata} {a a' b b' c : Nat}

theorem Dated.mono (h : m.Dated a b) (ha : a' ≤ a) (hb : b ≤ b') : m.Dated a' b' := by
  obtain ⟨v, hav, hvb, hv⟩ := h
  exact ⟨v, Nat.lt_of_le_of_lt ha hav, Nat.le_trans hvb hb, hv⟩

theorem Dated.congr (h : m.Dated a b) (hv : m'.resourceVersion = m.resourceVersion) :
    m'.Dated a b := by
  obtain ⟨v, hav, hvb, hm⟩ := h
  exact ⟨v, hav, hvb, hv.trans hm⟩

theorem Dated.ne (h : m.Dated a b) (h' : m'.Dated b c) :
    m'.resourceVersion ≠ m.resourceVersion := by
  obtain ⟨v, -, hvb, hv⟩ := h
  obtain ⟨v', hbv', -, hv'⟩ := h'
  intro heq
  rw [hv, hv', Option.some.injEq] at heq
  have hvv' := Text.decimal_inj heq
  omega

end Metadata

namespace Hub
namespace Memory

/-! ## Tables whose entries are dated -/

section Tables

variable {κ β : Type} [KeyOrder κ] {kept : β → β → Prop} {metadata : β → Metadata}
  {a b b' : Nat} {t u w : Table κ β}

/-- What is found in `u` is kept from `t`, or dated past `a` and up to `b`. -/
def Renewed (kept : β → β → Prop) (metadata : β → Metadata) (a b : Nat) (t u : Table κ β) :
    Prop :=
  ∀ k v', u.get? k = some v' →
    (∃ v, t.get? k = some v ∧ kept v v') ∨ (metadata v').Dated a b

theorem Renewed.refl (hrefl : ∀ v, kept v v) (a b : Nat) (t : Table κ β) :
    Renewed kept metadata a b t t :=
  fun _ v hv => Or.inl ⟨v, hv, hrefl v⟩

theorem Renewed.insert [DecidableEq κ] (hrefl : ∀ v, kept v v) (t : Table κ β) (k : κ) {v : β}
    (hv : (∃ v₀, t.get? k = some v₀ ∧ kept v₀ v) ∨ (metadata v).Dated a b) :
    Renewed kept metadata a b t (t.insert k v) := by
  intro k' v' hk'
  rw [Table.get?_insert] at hk'
  split at hk'
  · next heq =>
    cases hk'
    exact heq ▸ hv
  · exact Or.inl ⟨v', hk', hrefl v'⟩

theorem Renewed.erase [DecidableEq κ] (hrefl : ∀ v, kept v v) (t : Table κ β) (k : κ) :
    Renewed kept metadata a b t (t.erase k) := by
  intro k' v' hk'
  rw [Table.get?_erase] at hk'
  split at hk'
  · cases hk'
  · exact Or.inl ⟨v', hk', hrefl v'⟩

theorem Renewed.trans (htrans : ∀ {v v' v''}, kept v v' → kept v' v'' → kept v v'')
    (hkept : ∀ {v v'}, kept v v' →
      (metadata v').resourceVersion = (metadata v).resourceVersion)
    (hab : a ≤ b) (hb : b ≤ b') (h : Renewed kept metadata a b t u)
    (h' : Renewed kept metadata b b' u w) : Renewed kept metadata a b' t w := by
  intro k v'' hv''
  rcases h' k v'' hv'' with ⟨v', hv', hk'⟩ | hdated
  · rcases h k v' hv' with ⟨v, hv, hk⟩ | hdated
    · exact Or.inl ⟨v, hv, htrans hk hk'⟩
    · exact Or.inr ((hdated.mono (Nat.le_refl a) hb).congr (hkept hk'))
  · exact Or.inr (hdated.mono hab (Nat.le_refl b'))

end Tables

/-! ## What a later state holds -/

/-- The work is under the same version. -/
def SameVersion (w w' : ManifestWork) : Prop :=
  w'.metadata.resourceVersion = w.metadata.resourceVersion

theorem SameVersion.refl (w : ManifestWork) : SameVersion w w := rfl

/-- The state `m'` comes after the state `m`: what it holds is from then, or under a version
that has been given since. -/
structure Later (m m' : Memory) : Prop where
  version : m.version ≤ m'.version
  clusters : Renewed (· = ·) ManagedCluster.metadata m.version m'.version m.clusters m'.clusters
  works : Renewed SameVersion ManifestWork.metadata m.version m'.version m.works m'.works
  secrets : Renewed (· = ·) Secret.metadata m.version m'.version m.secrets m'.secrets

variable {m m' m'' : Memory}

namespace Later

theorem of_clusters (hv : m.version ≤ m'.version) (hw : m'.works = m.works)
    (hs : m'.secrets = m.secrets)
    (hc : Renewed (· = ·) ManagedCluster.metadata m.version m'.version m.clusters m'.clusters) :
    Later m m' :=
  ⟨hv, hc, hw ▸ Renewed.refl SameVersion.refl _ _ _, hs ▸ Renewed.refl (fun _ => rfl) _ _ _⟩

theorem of_works (hv : m.version ≤ m'.version) (hc : m'.clusters = m.clusters)
    (hs : m'.secrets = m.secrets)
    (hw : Renewed SameVersion ManifestWork.metadata m.version m'.version m.works m'.works) :
    Later m m' :=
  ⟨hv, hc ▸ Renewed.refl (fun _ => rfl) _ _ _, hw, hs ▸ Renewed.refl (fun _ => rfl) _ _ _⟩

theorem of_secrets (hv : m.version ≤ m'.version) (hc : m'.clusters = m.clusters)
    (hw : m'.works = m.works)
    (hs : Renewed (· = ·) Secret.metadata m.version m'.version m.secrets m'.secrets) :
    Later m m' :=
  ⟨hv, hc ▸ Renewed.refl (fun _ => rfl) _ _ _, hw ▸ Renewed.refl SameVersion.refl _ _ _, hs⟩

theorem of_alike (h : Alike m m') (hv : m'.version = m.version) : Later m m' :=
  of_clusters (Nat.le_of_eq hv.symm) h.works h.secrets
    (h.clusters ▸ Renewed.refl (fun _ => rfl) _ _ _)

theorem refl (m : Memory) : Later m m := of_alike (Alike.refl m) rfl

theorem trans (h : Later m m') (h' : Later m' m'') : Later m m'' where
  version := Nat.le_trans h.version h'.version
  clusters := h.clusters.trans Eq.trans (fun h => h ▸ rfl) h.version h'.version h'.clusters
  works := h.works.trans (fun h h' => Eq.trans h' h) id h.version h'.version h'.works
  secrets := h.secrets.trans Eq.trans (fun h => h ▸ rfl) h.version h'.version h'.secrets

end Later

theorem dated_stamped (d : Metadata) (n : Nat) : (stamped d (n + 1)).Dated n (n + 1) :=
  ⟨n + 1, Nat.lt_succ_self n, Nat.le_refl _, rfl⟩

theorem later_unlessFailing {α : Type} {go : Except Error α × Memory} (h : Later m go.2)
    (op : Operation) : Later m (m.unlessFailing op go).2 := by
  unfold unlessFailing
  split
  · exact Later.of_alike ⟨rfl, rfl, rfl, rfl⟩ rfl
  · exact h

theorem later_ifCurrent {α β : Type} {kind name : String} {stored : Option α}
    {metadata : α → Metadata} {copy : Metadata} {go : α → Except Error β × Memory}
    (h : ∀ s, stored = some s → Later m (go s).2) :
    Later m (m.ifCurrent kind name stored metadata copy go).2 :=
  ifCurrent_ind (P := fun r => Later m r.2) (fun _ => Later.refl m) fun s hs _ => h s hs

theorem later_updateCluster (op : Operation) (write : String → Write)
    (edit : ManagedCluster → ManagedCluster) (c : ManagedCluster) :
    Later m (m.updateCluster op write edit c).2 := by
  unfold updateCluster
  dsimp only
  split
  · exact Later.of_alike ⟨rfl, rfl, rfl, rfl⟩ rfl
  refine later_unlessFailing (later_ifCurrent fun _ _ => ?_) op
  refine Later.of_clusters (Nat.le_succ _) rfl rfl ?_
  show Renewed _ _ _ _ _ (if _ then _ else _)
  split
  · exact Renewed.erase (fun _ => rfl) _ _
  · exact Renewed.insert (fun _ => rfl) _ _ (Or.inr (dated_stamped _ _))

/-- A work goes, or is kept with what a removal leaves of it. -/
theorem renewed_shed {ws : Table ObjectKey ManifestWork} {w w' : ManifestWork} {k : ObjectKey}
    (hw : ws.get? k = some w) (hw' : SameVersion w w') (p : Prop) [Decidable p] (a b : Nat) :
    Renewed SameVersion ManifestWork.metadata a b ws
      (if p then ws.erase k else ws.insert k w') := by
  split
  · exact Renewed.erase SameVersion.refl _ _
  · exact Renewed.insert SameVersion.refl _ _ (Or.inl ⟨w, hw, hw'⟩)

/-- Whatever the hub is asked, it gives no version a second time. -/
theorem later_answer (t : Instant) (q : Request) : Later m (m.answer t q).2 := by
  cases q with
  | getCluster n => exact Later.refl m
  | setFinalizers c => exact later_updateCluster _ _ _ c
  | setStatus c => exact later_updateCluster _ _ _ c
  | listWorks n s => exact later_unlessFailing (Later.refl m) _
  | getWork k => exact Later.refl m
  | createWork w =>
    refine later_unlessFailing ?_ _
    split
    · exact Later.refl m
    · exact Later.of_works (Nat.le_succ _) rfl rfl
        (Renewed.insert SameVersion.refl _ _ (Or.inr (dated_stamped _ _)))
  | replaceWork w =>
    refine later_unlessFailing (later_ifCurrent fun _ _ => ?_) _
    exact Later.of_works (Nat.le_succ _) rfl rfl
      (Renewed.insert SameVersion.refl _ _ (Or.inr (dated_stamped _ _)))
  | deleteWork k =>
    refine later_unlessFailing ?_ _
    split
    · exact Later.refl m
    · next w hw =>
      refine Later.of_works (Nat.le_refl _) rfl rfl (renewed_shed hw ?_ _ _ _)
      rfl
  | releaseWork k =>
    show Later m (m.releaseWork k).2
    unfold releaseWork
    split
    · exact Later.refl m
    · next w hw =>
      refine Later.of_works (Nat.le_refl _) rfl rfl (renewed_shed hw ?_ _ _ _)
      rfl
  | getSecret k => exact Later.refl m
  | replaceSecret s =>
    refine later_unlessFailing (later_ifCurrent fun _ _ => ?_) _
    exact Later.of_secrets (Nat.le_succ _) rfl rfl
      (Renewed.insert (fun _ => rfl) _ _ (Or.inr (dated_stamped _ _)))
  | deleteSecret k =>
    refine later_unlessFailing ?_ _
    split
    · exact Later.of_secrets (Nat.le_refl _) rfl rfl (Renewed.erase (fun _ => rfl) _ _)
    · exact Later.refl m
  | listAddOns n => exact Later.refl m
  | publish about e => exact Later.of_alike ⟨rfl, rfl, rfl, rfl⟩ rfl

theorem later_talk {α : Type} (t : Instant) (d : Talk α) : Later m (m.talk t d).2 := by
  unfold talk
  induction d generalizing m with
  | done a => exact Later.refl m
  | ask q next ih => exact (later_answer t q).trans (ih _)

theorem later_apply (e : Change) : Later m (e.apply m) := by
  cases e with
  | cluster c =>
    exact Later.of_clusters (Nat.le_succ _) rfl rfl
      (Renewed.insert (fun _ => rfl) _ _ (Or.inr (dated_stamped _ _)))
  | work w =>
    exact Later.of_works (Nat.le_succ _) rfl rfl
      (Renewed.insert SameVersion.refl _ _ (Or.inr (dated_stamped _ _)))
  | secret s =>
    exact Later.of_secrets (Nat.le_succ _) rfl rfl
      (Renewed.insert (fun _ => rfl) _ _ (Or.inr (dated_stamped _ _)))
  | addOn a => exact Later.of_clusters (Nat.le_refl _) rfl rfl (Renewed.refl (fun _ => rfl) _ _ _)
  | addOnGone k =>
    exact Later.of_clusters (Nat.le_refl _) rfl rfl (Renewed.refl (fun _ => rfl) _ _ _)
  | report k s =>
    show Later m (m.reportWork k s)
    unfold reportWork
    split
    · exact Later.refl m
    · next w hw =>
      exact Later.of_works (Nat.le_refl _) rfl rfl
        (Renewed.insert SameVersion.refl _ _ (Or.inl ⟨w, hw, rfl⟩))
  | failure op text => exact Later.of_alike ⟨rfl, rfl, rfl, rfl⟩ rfl
  | conflicts n => exact Later.of_alike ⟨rfl, rfl, rfl, rfl⟩ rfl
  | request now q => exact later_answer now q

/-! ## Dated states -/

/-- Every object is under a version that the hub has given. -/
structure Stamped (m : Memory) : Prop where
  clusters : ∀ k c, m.clusters.get? k = some c → c.metadata.Dated 0 m.version
  works : ∀ k w, m.works.get? k = some w → w.metadata.Dated 0 m.version
  secrets : ∀ k s, m.secrets.get? k = some s → s.metadata.Dated 0 m.version

theorem stamped_empty : Stamped {} := by
  refine ⟨?_, ?_, ?_⟩ <;>
  · intro k v h
    cases h

theorem Stamped.later (h : m.Stamped) (hl : Later m m') : m'.Stamped := by
  refine ⟨fun k c hc => ?_, fun k w hw => ?_, fun k s hs => ?_⟩
  · rcases hl.clusters k c hc with ⟨c₀, hc₀, rfl⟩ | hdated
    · exact (h.clusters k c₀ hc₀).mono (Nat.le_refl 0) hl.version
    · exact hdated.mono (Nat.zero_le _) (Nat.le_refl _)
  · rcases hl.works k w hw with ⟨w₀, hw₀, hsame⟩ | hdated
    · exact ((h.works k w₀ hw₀).mono (Nat.le_refl 0) hl.version).congr hsame
    · exact hdated.mono (Nat.zero_le _) (Nat.le_refl _)
  · rcases hl.secrets k s hs with ⟨s₀, hs₀, rfl⟩ | hdated
    · exact (h.secrets k s₀ hs₀).mono (Nat.le_refl 0) hl.version
    · exact hdated.mono (Nat.zero_le _) (Nat.le_refl _)

theorem stamped_after (name : String) (h : m.Stamped) (run : List Happening) :
    (Run.after name run m).Stamped := by
  induction run generalizing m with
  | nil => exact h
  | cons e rest ih =>
    cases e with
    | pass ctx => exact ih (h.later (later_talk ctx.now _))
    | change e => exact ih (h.later (later_apply e))

/-! ## Copies of clusters -/

/-- The cluster is a copy of one that was stored: under its version there is no other. -/
structure Known (c : ManagedCluster) (m : Memory) : Prop where
  dated : c.metadata.Dated 0 m.version
  same : ∀ d, m.clusters.get? c.nameText = some d →
    d.metadata.resourceVersion = c.metadata.resourceVersion → d = c

variable {c d e : ManagedCluster}

theorem known_of_stored (hs : m.Stamped) (hm : m.Filed) {n : String}
    (hc : m.clusters.get? n = some c) : Known c m := by
  refine ⟨hs.clusters n c hc, fun d hd _ => ?_⟩
  rw [hm.clusters n c hc, hc, Option.some.injEq] at hd
  exact hd.symm

theorem Known.later (h : Known c m) (hl : Later m m') : Known c m' := by
  refine ⟨h.dated.mono (Nat.le_refl 0) hl.version, fun d hd hv => ?_⟩
  rcases hl.clusters _ d hd with ⟨d₀, hd₀, rfl⟩ | hdated
  · exact h.same d₀ hd₀ hv
  · exact absurd hv (h.dated.ne hdated)

theorem stale?_of_dated (what : String) {stored incoming : Metadata} {a b c : Nat}
    (hi : incoming.Dated a b) (hs : stored.Dated b c) :
    ∃ f, stale? what stored incoming = some f ∧ f.isConflict = true := by
  have hne := hi.ne hs
  obtain ⟨v, -, -, hv⟩ := hi
  obtain ⟨v', -, -, hv'⟩ := hs
  unfold stale?
  rw [hv, hv', ne_eq, Option.some.injEq] at hne
  rw [hv, hv']
  dsimp only
  rw [if_neg (Ne.symm hne)]
  exact ⟨_, rfl, rfl⟩

theorem stale?_of_same {what : String} {stored incoming : Metadata}
    (h : incoming.resourceVersion = stored.resourceVersion) :
    stale? what stored incoming = none := by
  unfold stale?
  rw [h]
  cases stored.resourceVersion with
  | none => rfl
  | some v => exact if_pos rfl

theorem ifCurrent_of_same {α β : Type} {kind name : String} {s : α} {metadata : α → Metadata}
    {copy : Metadata} {go : α → Except Error β × Memory}
    (h : copy.resourceVersion = (metadata s).resourceVersion) :
    m.ifCurrent kind name (some s) metadata copy go = go s := by
  unfold ifCurrent
  dsimp only
  rw [stale?_of_same h]

theorem eq_of_stale? {what : String} {stored incoming : Metadata} {a b a' b' : Nat}
    (h : stale? what stored incoming = none) (hs : stored.Dated a b)
    (hi : incoming.Dated a' b') : stored.resourceVersion = incoming.resourceVersion := by
  obtain ⟨v, -, -, hv⟩ := hs
  obtain ⟨v', -, -, hv'⟩ := hi
  unfold stale? at h
  rw [hv, hv'] at h
  dsimp only at h
  split at h
  · next heq => rw [hv, hv', heq]
  · cases h

theorem stale?_of_ok {op : Operation} {write : String → Write}
    {edit : ManagedCluster → ManagedCluster} {u : ManagedCluster}
    (hok : (m.updateCluster op write edit e).1 = .ok u) :
    ∃ d, m.clusters.get? e.nameText = some d ∧
      stale? "ManagedCluster" d.metadata e.metadata = none := by
  unfold updateCluster unlessFailing ifCurrent at hok
  dsimp only at hok
  split at hok
  · cases hok
  split at hok
  · cases hok
  split at hok
  · cases hok
  next d hd =>
  split at hok
  · cases hok
  next hfresh => exact ⟨d, hd, hfresh⟩

/-- An update that is made from a copy of a cluster and is not refused has found the cluster
as it was copied. -/
theorem stored_of_written (hs : m.Stamped) (h : Known c m) (hname : e.nameText = c.nameText)
    (hversion : e.metadata.resourceVersion = c.metadata.resourceVersion) {t : Instant}
    {part : Part} {u : ManagedCluster} (hok : (m.talk t (part.write e)).1 = .ok u) :
    m.clusters.get? e.nameText = some c := by
  have hfresh : ∃ d, m.clusters.get? e.nameText = some d ∧
      stale? "ManagedCluster" d.metadata e.metadata = none := by
    cases part with
    | status => exact stale?_of_ok hok
    | finalizers => exact stale?_of_ok hok
  obtain ⟨d, hd, hfresh⟩ := hfresh
  have hsame := eq_of_stale? hfresh (hs.clusters _ d hd) (h.dated.congr hversion)
  rw [hd, h.same d (hname ▸ hd) (hsame.trans hversion)]

end Memory
end Hub
end Hosting
