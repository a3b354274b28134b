import Hosting.Proofs.Run

/-!
# What a cleanup leaves behind

The works of a cluster are looked for in its own namespace and in that of the cluster that
hosts it now.  `leftover_in_served` says what can be left when the finalizer is taken off:
only works in namespaces that the cluster was served in before, under an earlier value of
its annotation.
-/

namespace Hosting
namespace Leftovers

open Hub (Change Request Memory)
open Pass Sample

variable {name : String} {m m' : Memory} {k : ObjectKey}

def isHostedName (cluster n : String) : Bool :=
  n == Names.klusterletWork cluster || n == Names.kubeconfigWork cluster

/-- The work is filed under `k` and is one of the two of the cluster `name`. -/
def Leftover (name : String) (m : Memory) (k : ObjectKey) (w : ManifestWork) : Prop :=
  m.Labelled name k w ∧ isHostedName name k.name = true

/-! ## Namespaces that were served -/

/-- Where a pass over the live cluster brings works to. -/
def servedNow (name : String) (m : Memory) : Option String :=
  (m.clusters.get? name).bind fun c => if c.isHosted && !c.isDeleting then c.hosting? else none

/-- Where the passes of a run bring works to. -/
def served (name : String) : List Happening → Memory → List String
  | [], _ => []
  | .pass ctx :: rest, m =>
    (servedNow name m).toList ++ served name rest (Run.afterPass ctx name m)
  | .change e :: rest, m => served name rest (e.apply m)

theorem leftover_of_labels (hs : ∀ k w', m'.works.get? k = some w' →
      ∃ w, m.works.get? k = some w ∧ w'.metadata.labels = w.metadata.labels) {w' : ManifestWork}
    (h : Leftover name m' k w') : ∃ w, Leftover name m k w := by
  obtain ⟨w, hstored, hlabels⟩ := hs k w' h.1.1
  refine ⟨w, ⟨hstored, ?_⟩, h.2⟩
  unfold Metadata.label?
  rw [← hlabels]
  exact h.1.2

theorem leftover_of_sheds (hs : Hub.Memory.Sheds m m') {w' : ManifestWork}
    (h : Leftover name m' k w') : ∃ w, Leftover name m k w := by
  refine leftover_of_labels (fun k w' hw' => ?_) h
  obtain ⟨w, hw, hleaves⟩ := hs k w' hw'
  exact ⟨w, hw, hleaves.labels⟩

/-- A pass leaves no other works than there were, but in the namespace that it serves. -/
theorem leftover_of_afterPass (hm : m.Named) (ctx : Context) {w' : ManifestWork}
    (h : Leftover name (Run.afterPass ctx name m) k w') :
    (∃ w, Leftover name m k w) ∨ servedNow name m = some k.nspace := by
  have hpassed := Run.passed hm ctx name
  revert hpassed h
  generalize Run.outcome ctx name m = r, Run.afterPass ctx name m = m'
  intro h hpassed
  cases hpassed with
  | refused same => exact Or.inl (leftover_of_sheds (Hub.Memory.Sheds.of_works same.works) h)
  | idle => exact Or.inl ⟨w', h⟩
  | @imported c _ _ stored named hosted live ends =>
    by_cases hk : c.hosting? = some k.nspace
    · right
      rw [named] at stored
      simp [servedNow, stored, hosted, live, hk]
    · left
      refine ⟨w', ⟨?_, h.1.2⟩, h.2⟩
      rw [← ends.within.works k fun hscope => hk hscope.1]
      exact h.1.1
  | detached _ _ _ _ ends => exact Or.inl (leftover_of_sheds ends.sheds h)

def isOne (name : String) (w : ManifestWork) : Bool :=
  w.metadata.label? Names.hostedCluster == some name && isHostedName name w.nameText

/-- The change brings none of the two works of the cluster `name`. -/
def isQuiet (name : String) : Change → Bool
  | .work w => !isOne name w
  | .request _ (.createWork w) => !isOne name w
  | .request _ (.replaceWork w) => !isOne name w
  | _ => true

/-- Only passes bring the two works of the cluster. -/
def quietly (name : String) (run : List Happening) : Bool :=
  run.all fun
    | .pass _ => true
    | .change e => isQuiet name e

/-! ## What others do -/

theorem leftover_of_put {w u : ManifestWork} (hquiet : isOne name w = false)
    (hlabels : u.metadata.labels = w.metadata.labels)
    (hthere : m'.works.get? w.key = some u)
    (hother : ∀ k, k ≠ w.key → m'.works.get? k = m.works.get? k) {w' : ManifestWork}
    (h : Leftover name m' k w') : ∃ w, Leftover name m k w := by
  by_cases hk : k = w.key
  · subst hk
    have hu : u = w' := Option.some.inj (hthere.symm.trans h.1.1)
    have hlabel : w.metadata.label? Names.hostedCluster = some name := by
      unfold Metadata.label?
      rw [← hlabels, hu]
      exact h.1.2
    have hname : isHostedName name w.nameText = true := h.2
    rw [isOne, hlabel, hname] at hquiet
    simp at hquiet
  · exact ⟨w', ⟨hother k hk ▸ h.1.1, h.1.2⟩, h.2⟩

theorem leftover_of_answer {now : Instant} {q : Request}
    (hquiet : isQuiet name (.request now q) = true) {w' : ManifestWork}
    (h : Leftover name (m.answer now q).2 k w') : ∃ w, Leftover name m k w := by
  have hdone := Hub.Memory.worksDone_answer (m := m) now q
  revert hdone h
  generalize (m.answer now q).2 = m'
  intro h hdone
  cases hdone with
  | same works => exact leftover_of_sheds (Hub.Memory.Sheds.of_works works) h
  | @put w u asked stamp within there =>
    have hquiet : isOne name w = false := by
      rcases asked with rfl | rfl <;> exact Bool.not_eq_true' _ ▸ hquiet
    exact leftover_of_put hquiet (stamp ▸ rfl) there within.works h
  | removed _ _ sheds => exact leftover_of_sheds sheds h

theorem leftover_of_apply {e : Change} (hquiet : isQuiet name e = true) {w' : ManifestWork}
    (h : Leftover name (e.apply m) k w') : ∃ w, Leftover name m k w := by
  cases e with
  | work w =>
    refine leftover_of_put (u := { w with metadata := Memory.stamped w.metadata (m.version + 1) })
      (Bool.not_eq_true' _ ▸ hquiet) rfl ?_ (fun k' hk => ?_) h
    · exact Table.get?_insert_self _ _ _
    · exact Table.get?_insert_of_ne _ hk _
  | report k' s =>
    refine leftover_of_labels (fun k₁ w₁ hw₁ => ?_) h
    replace hw₁ : (m.reportWork k' s).works.get? k₁ = some w₁ := hw₁
    unfold Memory.reportWork at hw₁
    split at hw₁
    · exact ⟨w₁, hw₁, rfl⟩
    next w hw =>
    replace hw₁ : (m.works.insert k' { w with status := some s }).get? k₁ = some w₁ := hw₁
    rw [Table.get?_insert] at hw₁
    split at hw₁
    · next he =>
      cases hw₁
      exact ⟨w, he ▸ hw, rfl⟩
    · exact ⟨w₁, hw₁, rfl⟩
  | request now q => exact leftover_of_answer hquiet h
  | _ => exact ⟨w', h⟩

/-! ## Every run -/

/-- What is left in a run that began without any of the works is where the cluster was
served. -/
theorem leftover_of_run (hm : m.Named) {run : List Happening} (hrun : Run.isNamed run = true)
    (hquiet : quietly name run = true) {w' : ManifestWork}
    (h : Leftover name (Run.after name run m) k w') :
    (∃ w, Leftover name m k w) ∨ k.nspace ∈ served name run m := by
  induction run generalizing m with
  | nil => exact Or.inl ⟨w', h⟩
  | cons e rest ih =>
    unfold quietly at hquiet
    rw [List.all_cons, Bool.and_eq_true] at hquiet
    rw [Run.isNamed, List.all_cons, Bool.and_eq_true] at hrun
    cases e with
    | pass ctx =>
      rcases ih (Run.named_afterPass hm ctx name) hrun.2 hquiet.2 h with ⟨w, hw⟩ | hin
      · refine (leftover_of_afterPass hm ctx hw).imp_right fun hnow => ?_
        exact List.mem_append_left _ (Option.mem_toList.mpr hnow)
      · exact Or.inr (List.mem_append_right _ hin)
    | change e =>
      rcases ih (hm.apply hrun.1) hrun.2 hquiet.2 h with ⟨w, hw⟩ | hin
      · exact Or.inl (leftover_of_apply hquiet.1 hw)
      · exact Or.inr hin

def isHeldOn (name : String) (m : Memory) : Bool := (m.clusters.get? name).any (·.isHeld)

/-- The finalizer is only taken off a deleting cluster when none of its works is found. -/
theorem no_work_of_off (hn : ',' ∉ name.toList) (hm : m.Named) {c : ManagedCluster}
    (hc : m.clusters.get? name = some c) (hdel : c.isDeleting = true) (hheld : c.isHeld = true)
    (ctx : Context) (hoff : isHeldOn name (Run.afterPass ctx name m) = false) :
    ¬(Run.afterPass ctx name m).HoldsWork c := by
  have hstay {m' : Memory} (h : m'.clusters.get? name = some c) (h' : isHeldOn name m' = false) :
      False := by
    rw [isHeldOn, h, Option.any_some, hheld] at h'
    cases h'
  have hpassed := Run.passed hm ctx name
  revert hpassed hoff
  generalize Run.outcome ctx name m = r, Run.afterPass ctx name m = m'
  intro hoff hpassed
  cases hpassed with
  | refused same => exact (hstay (same.clusters ▸ hc) hoff).elim
  | idle => exact (hstay hc hoff).elim
  | imported stored named _ live =>
    rw [named, hc, Option.some.injEq] at stored
    rw [← stored, hdel] at live
    cases live
  | detached stored named _ _ ends =>
    rw [named, hc, Option.some.injEq] at stored
    subst stored named
    rcases ends.finalizer with ⟨d, hd, hdheld⟩ | hnone
    · rw [isHeldOn, hd, Option.any_some, hdheld, hheld] at hoff
      cases hoff
    · exact (Hub.Memory.worksOf_eq_empty_iff hn).mp hnone

/-- When a pass takes the finalizer off the deleting cluster, works that earlier passes have
brought are only left in namespaces that the cluster was served in before, and that neither
are its own nor that of the cluster which hosts it now. -/
theorem leftover_in_served (hn : ',' ∉ name.toList) (hm : m.Named)
    (hnone : ∀ k w, ¬Leftover name m k w) {run : List Happening} (hrun : Run.isNamed run = true)
    (hquiet : quietly name run = true) {c : ManagedCluster}
    (hc : (Run.after name run m).clusters.get? name = some c) (hdel : c.isDeleting = true)
    (hheld : c.isHeld = true) (ctx : Context)
    (hoff : isHeldOn name (Run.afterPass ctx name (Run.after name run m)) = false)
    {w : ManifestWork} (h : Leftover name (Run.afterPass ctx name (Run.after name run m)) k w) :
    k.nspace ∈ served name run m ∧ k.nspace ≠ name ∧ c.hosting? ≠ some k.nspace := by
  have hafter := Run.named_after name hm hrun
  have hname : c.nameText = name := hafter.clusters name c hc
  have hfound := no_work_of_off hn hafter hc hdel hheld ctx hoff
  refine ⟨?_, fun he => ?_, fun he => ?_⟩
  · rcases leftover_of_afterPass hafter ctx h with ⟨w₁, hw₁⟩ | hnow
    · exact (leftover_of_run hm hrun hquiet hw₁).resolve_left fun ⟨w₀, hw₀⟩ => hnone k w₀ hw₀
    · -- a pass over a deleting cluster serves none
      simp [servedNow, hc, hdel] at hnow
  · exact hfound ⟨k, w, h.1.1, Or.inl (he.trans hname.symm)⟩
  · exact hfound ⟨k, w, h.1.1, Or.inr ⟨he, hname ▸ h.1.2⟩⟩

/-- A pass takes the finalizer off the deleting cluster, and one of the two works is left. -/
structure LeftBehind (name : String) (m m' : Memory) : Prop where
  deleting : ∃ c, m.clusters.get? name = some c ∧ c.isHosted = true ∧ c.isDeleting = true ∧
    c.isHeld = true
  off : isHeldOn name m' = false
  left : ∃ k w, Leftover name m' k w

def leavesBehind (name : String) (k : ObjectKey) (m m' : Memory) : Bool :=
  (m.clusters.get? name).any (fun c => c.isHosted && c.isDeleting && c.isHeld) &&
    !isHeldOn name m' && isHostedName name k.name &&
    (m'.works.get? k).any (fun w => w.metadata.label? Names.hostedCluster == some name)

theorem LeftBehind.of_test (h : leavesBehind name k m m' = true) : LeftBehind name m m' := by
  unfold leavesBehind at h
  simp only [Bool.and_eq_true, Bool.not_eq_true', Option.any_eq_true, beq_iff_eq] at h
  obtain ⟨⟨⟨⟨c, hc, hfacts⟩, hoff⟩, hname⟩, w, hw, hlabel⟩ := h
  exact ⟨⟨c, hc, hfacts.1.1, hfacts.1.2, hfacts.2⟩, hoff, k, w, ⟨hw, hlabel⟩, hname⟩

/-- The cluster is served by `h`, then its annotation is changed, then it is deleted. -/
def rehosted (name hosting : String) : List Happening :=
  setUp (hosted name "h") ++ [
    onePass,
    .change (.cluster (held (hosted name hosting))),
    .change (.cluster (deleting (held (hosted name hosting))))]

theorem leftBehind_of_moved : LeftBehind "c" (Run.after "c" (rehosted "c" "g") {})
    (Run.afterPass { now := now } "c" (Run.after "c" (rehosted "c" "g") {})) :=
  LeftBehind.of_test (k := ⟨"h", "c-hosted-klusterlet"⟩) (by decide +kernel)

theorem leftover_in_served_of_moved :
    ∃ k w,
      Leftover "c" (Run.afterPass { now := now } "c" (Run.after "c" (rehosted "c" "g") {})) k w ∧
      k.nspace ∈ served "c" (rehosted "c" "g") {} := by
  obtain ⟨⟨c, hc, -, hdel, hheld⟩, hoff, k, w, hw⟩ := leftBehind_of_moved
  exact ⟨k, w, hw, (leftover_in_served (by decide) Hub.Memory.named_empty
    (fun k w hw => by cases hw.1.1) (by decide +kernel) (by decide) hc hdel hheld { now := now }
    hoff hw).1⟩

/-- The agent's work is left behind where the annotation pointed before, and also when the
name of the cluster makes no single selector. -/
theorem left_behind :
    LeftBehind "c" (Run.after "c" (rehosted "c" "g") {})
        (Run.afterPass { now := now } "c" (Run.after "c" (rehosted "c" "g") {})) ∧
      LeftBehind "a,b" (Run.after "a,b" (rehosted "a,b" "h") {})
        (Run.afterPass { now := now } "a,b" (Run.after "a,b" (rehosted "a,b" "h") {})) :=
  ⟨leftBehind_of_moved,
    LeftBehind.of_test (k := ⟨"h", "a,b-hosted-klusterlet"⟩) (by decide +kernel)⟩

end Leftovers
end Hosting
