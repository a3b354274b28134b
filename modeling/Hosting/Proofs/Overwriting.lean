import Hosting.Proofs.Version

/-!
# Works that are replaced from a copy

A replacement carries the version of the copy that it was made from.  `replace_from_copy` says
when it is taken: exactly as long as nothing has happened to the work that its version shows.
What the version does not show is a request to delete the work, or to take its finalizers off,
that leaves the work there: such a mark is undone by a replacement from an older copy
(`deletion_undone`).
-/

namespace Hosting

open Hub (Change Error Memory Request)
open Hub.Memory (Later SameVersion stamped)

namespace Hub

/-- The work filed under `k`, but for its status, which is the agent's. -/
def Memory.workAt (m : Memory) (k : ObjectKey) : Option ManifestWork :=
  (m.works.get? k).map fun w => { w with status := none }

def Memory.changedBy (m : Memory) (es : List Change) : Memory := es.foldl (fun m e => e.apply m) m

/-- The work is to be removed, or what holds it. -/
def Change.IsRemovalOf (k : ObjectKey) : Change → Prop
  | .request _ (.deleteWork k') | .request _ (.releaseWork k') => k' = k
  | _ => False

end Hub

namespace Overwriting

variable {m m' : Memory} {k : ObjectKey} {e : Change} {w w' x : ManifestWork} {t : Instant}

/-! ## What a version shows -/

/-- The change concerns the work, and its version shows it, unless the work is gone. -/
def Shows (k : ObjectKey) (e : Change) (m : Memory) : Prop :=
  (e.apply m).workAt k ≠ m.workAt k ∧
    ¬(e.IsRemovalOf k ∧ (e.apply m).works.contains k = true)

/-- One of the changes shows. -/
def Shown (k : ObjectKey) : List Change → Memory → Prop
  | [], _ => False
  | e :: es, m => Shows k e m ∨ Shown k es (e.apply m)

/-- A work that is there under `k` is under a version past `b`. -/
def Past (k : ObjectKey) (b : Nat) (m : Memory) : Prop :=
  ∀ x, m.works.get? k = some x → ∃ c, x.metadata.Dated b c

theorem Past.later {b : Nat} (h : Past k b m) (hb : b ≤ m.version) (hl : Later m m') :
    Past k b m' := by
  intro x hx
  rcases hl.works k x hx with ⟨w, hw, hsame⟩ | hdated
  · obtain ⟨c, hc⟩ := h w hw
    exact ⟨c, hc.congr hsame⟩
  · exact ⟨_, hdated.mono hb (Nat.le_refl _)⟩

theorem workAt_congr (h : m'.works.get? k = m.works.get? k) : m'.workAt k = m.workAt k := by
  unfold Memory.workAt
  rw [h]

/-- A removal of the work leaves it under its version, if it leaves it there. -/
theorem sameVersion_of_removal (h : e.IsRemovalOf k) (hx : (e.apply m).works.get? k = some x) :
    ∃ w, m.works.get? k = some w ∧ SameVersion w x := by
  cases e with
  | request now q =>
    have hdone : Memory.WorksDone m q ((Change.request now q).apply m) :=
      Memory.worksDone_answer now q
    revert hdone hx
    generalize (Change.request now q).apply m = m'
    intro hx hdone
    cases hdone with
    | same works => exact ⟨x, works ▸ hx, SameVersion.refl x⟩
    | put asked => rcases asked with rfl | rfl <;> cases h
    | removed _ _ sheds =>
      obtain ⟨w, hw, hleaves⟩ := sheds k x hx
      refine ⟨w, hw, ?_⟩
      show x.content.metadata.resourceVersion = w.content.metadata.resourceVersion
      rw [hleaves.content]
  | _ => cases h

/-- What was done to the work is told by its version. -/
def Told (k : ObjectKey) (m m' : Memory) : Prop :=
  m'.workAt k = m.workAt k ∨ Past k m.version m'

theorem told_of_works (h : m'.works.get? k = m.works.get? k) : Told k m m' :=
  Or.inl (workAt_congr h)

theorem told_of_put {d : Metadata} {k' : ObjectKey} (hw : w.metadata = stamped d (m.version + 1))
    (hthere : m'.works.get? k' = some w) (helse : ∀ k, k ≠ k' → m'.works.get? k = m.works.get? k) :
    Told k m m' := by
  by_cases hk : k = k'
  · subst hk
    refine Or.inr fun x hx => ⟨m.version + 1, ?_⟩
    rw [hthere, Option.some.injEq] at hx
    rw [← hx, hw]
    exact Memory.dated_stamped d m.version
  · exact told_of_works (helse k hk)

theorem told_of_answer {t : Instant} {q : Request} (h : ¬(Change.request t q).IsRemovalOf k) :
    Told k m (m.answer t q).2 := by
  have hdone := Memory.worksDone_answer (m := m) t q
  revert hdone
  generalize (m.answer t q).2 = m'
  intro hdone
  cases hdone with
  | same works => exact told_of_works (by rw [works])
  | put _ stamp within there => exact told_of_put stamp there within.works
  | removed asked within _ =>
    refine told_of_works (within.works k fun hk => h ?_)
    rcases asked with rfl | rfl <;> exact hk.symm

/-- Whatever else is done to a work is told by its version, its status aside. -/
theorem told_of_not_removal (h : ¬e.IsRemovalOf k) : Told k m (e.apply m) := by
  cases e with
  | work v =>
    exact told_of_put rfl (Table.get?_insert_self _ _ _) fun k hk => Table.get?_insert_of_ne _ hk _
  | report k' s =>
    show Told k m (m.reportWork k' s)
    unfold Memory.reportWork
    split
    · exact told_of_works rfl
    · next w hw =>
      by_cases hk : k = k'
      · subst hk
        refine Or.inl ?_
        unfold Memory.workAt
        rw [Table.get?_insert_self, hw]
        rfl
      · exact told_of_works (Table.get?_insert_of_ne _ hk _)
  | request now q => exact told_of_answer h
  | _ => exact told_of_works rfl

/-! ## Along a run -/

theorem past_of_shows (h : Shows k e m) : Past k m.version (e.apply m) := by
  by_cases hremoval : e.IsRemovalOf k
  · intro x hx
    refine absurd ⟨hremoval, ?_⟩ h.2
    unfold Table.contains
    rw [hx]
    rfl
  · exact (told_of_not_removal hremoval).resolve_left h.1

/-- A change that does not show leaves the work there, under its version. -/
theorem kept_of_not_shows (h : ¬Shows k e m) (hw : m.works.get? k = some w) :
    ∃ w', (e.apply m).works.get? k = some w' ∧ SameVersion w w' := by
  by_cases hsame : (e.apply m).workAt k = m.workAt k
  · unfold Memory.workAt at hsame
    rw [hw, Option.map_some, Option.map_eq_some_iff] at hsame
    obtain ⟨w', hw', hsame⟩ := hsame
    refine ⟨w', hw', ?_⟩
    show ({ w' with status := none } : ManifestWork).metadata.resourceVersion = _
    rw [hsame]
  · have hmarked : e.IsRemovalOf k ∧ (e.apply m).works.contains k = true :=
      Classical.byContradiction fun hnot => h ⟨hsame, hnot⟩
    obtain ⟨w', hw'⟩ := Option.isSome_iff_exists.mp hmarked.2
    obtain ⟨w₀, hw₀, hversion⟩ := sameVersion_of_removal hmarked.1 hw'
    rw [hw, Option.some.injEq] at hw₀
    exact ⟨w', hw', hw₀ ▸ hversion⟩

theorem later_changedBy (es : List Change) (m : Memory) : Later m (m.changedBy es) := by
  induction es generalizing m with
  | nil => exact Later.refl m
  | cons e es ih => exact (Memory.later_apply e).trans (ih (e.apply m))

theorem past_of_shown {b : Nat} (hb : b ≤ m.version) {es : List Change} (h : Shown k es m) :
    Past k b (m.changedBy es) := by
  induction es generalizing m with
  | nil => exact h.elim
  | cons e es ih =>
    have hlater : Later m (e.apply m) := Memory.later_apply e
    rcases h with hshows | hshown
    · have hpast : Past k b (e.apply m) := by
        intro x hx
        obtain ⟨c, hc⟩ := past_of_shows hshows x hx
        exact ⟨c, hc.mono hb (Nat.le_refl c)⟩
      exact hpast.later (Nat.le_trans hb hlater.version) (later_changedBy es _)
    · exact ih (Nat.le_trans hb hlater.version) hshown

theorem kept_of_not_shown {es : List Change} (h : ¬Shown k es m) (hw : m.works.get? k = some w) :
    ∃ w', (m.changedBy es).works.get? k = some w' ∧ SameVersion w w' := by
  induction es generalizing m w with
  | nil => exact ⟨w, hw, SameVersion.refl w⟩
  | cons e es ih =>
    obtain ⟨hshows, hshown⟩ := not_or.mp h
    obtain ⟨w₁, hw₁, hsame⟩ := kept_of_not_shows hshows hw
    obtain ⟨w₂, hw₂, hsame'⟩ := ih hshown hw₁
    exact ⟨w₂, hw₂, hsame'.trans hsame⟩

/-! ## The replacement -/

/-- A replacement of the work under `k` is refused: it comes too late, or the work is gone,
unless a failure was laid in wait for it. -/
structure Refused (k : ObjectKey) (m : Memory) (r : Except Error ManifestWork × Memory) :
    Prop where
  works : r.2.works = m.works
  error : ∃ f, r.1 = .error f ∧ (m.failures.get? .replaceWork = none →
    if m.works.contains k then f.isConflict = true else f.isNotFound = true)

/-- The replacement by `w'` is taken: all of the stored work but its status is now as in `w'`,
under a new version. -/
def Taken (k : ObjectKey) (w' : ManifestWork) (m : Memory)
    (r : Except Error ManifestWork × Memory) : Prop :=
  ∃ old u, m.works.get? k = some old ∧ r.1 = .ok u ∧ r.2.works.get? k = some u ∧
    u.unversioned = { w' with status := old.status }.unversioned

theorem refused_of_past {b : Nat} (hpast : Past w'.key b m) (hdated : w'.metadata.Dated 0 b) :
    Refused w'.key m (m.replaceWork w') := by
  unfold Memory.replaceWork Memory.unlessFailing Memory.ifCurrent
  split
  · next text hfailing =>
    refine ⟨rfl, _, rfl, fun hnone => ?_⟩
    rw [hfailing] at hnone
    cases hnone
  · split
    · next hgone =>
      refine ⟨rfl, _, rfl, fun _ => ?_⟩
      rw [if_neg (by rw [Table.contains, hgone]; exact Bool.false_ne_true)]
      rfl
    · next stored hstored =>
      obtain ⟨c, hc⟩ := hpast stored hstored
      obtain ⟨f, hf, hconflict⟩ := Memory.stale?_of_dated "ManifestWork" hdated hc
      rw [hf]
      refine ⟨rfl, f, rfl, fun _ => ?_⟩
      rw [if_pos (by rw [Table.contains, hstored]; rfl)]
      exact hconflict

theorem taken_of_same (hw : m.works.get? w'.key = some w)
    (hversion : w'.metadata.resourceVersion = w.metadata.resourceVersion)
    (hnone : m.failures.get? .replaceWork = none) :
    Taken w'.key w' m (m.replaceWork w') := by
  unfold Memory.replaceWork
  rw [Memory.unlessFailing_of_none hnone, hw, Memory.ifCurrent_of_same hversion]
  exact ⟨w, _, hw, rfl, Table.get?_insert_self _ _ _, rfl⟩

/-- A replacement that is made from a copy of a work is refused, and leaves the works as they
are, if anything has been done to the work since that its version shows.  If nothing has, it
is taken. -/
theorem replace_from_copy (hs : m.Stamped) (hw : m.works.get? k = some w) (hkey : w'.key = k)
    (hversion : w'.metadata.resourceVersion = w.metadata.resourceVersion) (es : List Change)
    (t : Instant) :
    (Shown k es m →
        Refused k (m.changedBy es) ((m.changedBy es).answer t (.replaceWork w'))) ∧
      (¬Shown k es m → (m.changedBy es).failures.get? .replaceWork = none →
        Taken k w' (m.changedBy es) ((m.changedBy es).answer t (.replaceWork w'))) := by
  subst hkey
  have hdated : w'.metadata.Dated 0 m.version := (hs.works _ w hw).congr hversion
  refine ⟨fun hshown => ?_, fun hnot hnone => ?_⟩
  · exact refused_of_past (past_of_shown (Nat.le_refl _) hshown) hdated
  · obtain ⟨w₁, hw₁, hsame⟩ := kept_of_not_shown hnot hw
    exact taken_of_same hw₁ (hversion.trans hsame.symm) hnone

/-! ## A work that is read, then written and deleted by others -/

open Sample

/-- The hub with a work of which someone takes a copy. -/
def posted : Memory := (Change.work (work "h" "w")).apply {}

def copied : ManifestWork :=
  { work "h" "w" with metadata := stamped (work "h" "w").metadata 1 }

def workKey : ObjectKey := ⟨"h", "w"⟩

/-- Someone else replaces the work, and then asks for its deletion. -/
def rewritten : List Change :=
  [.request now (.replaceWork (labelled "h" "w" "c")), .request now (.deleteWork workKey)]

theorem replace_from_copy_of_rewritten :
    Shown workKey rewritten posted ∧
      Refused workKey (posted.changedBy rewritten)
        ((posted.changedBy rewritten).answer now (.replaceWork copied)) := by
  have hshown : Shown workKey rewritten posted := by
    refine Or.inl ⟨fun hsame => ?_, fun hremoval => hremoval.1⟩
    have hlabels := congrArg (Option.map fun w => w.metadata.labels.isSome) hsame
    revert hlabels
    decide +kernel
  have hstamped : posted.Stamped := Memory.stamped_empty.later (Memory.later_apply _)
  have hkey : copied.key = workKey := rfl
  have hversion : copied.metadata.resourceVersion = copied.metadata.resourceVersion := rfl
  exact ⟨hshown, (replace_from_copy hstamped rfl hkey hversion rewritten now).1 hshown⟩

/-- Someone else asks for the deletion of the work. -/
def deleted : Memory := posted.changedBy [.request now (.deleteWork workKey)]

/-- A deletion that was asked for since the copy was taken is undone by a replacement. -/
theorem deletion_undone :
    posted.works.get? workKey = some copied ∧ copied.isDeleting = false ∧
      (deleted.works.get? workKey).any (·.isDeleting) = true ∧
      (deleted.answer now (.replaceWork copied)).1.toBool = true ∧
      ((deleted.answer now (.replaceWork copied)).2.works.get? workKey).any (!·.isDeleting) =
        true :=
  ⟨rfl, by decide +kernel⟩

end Overwriting
end Hosting
