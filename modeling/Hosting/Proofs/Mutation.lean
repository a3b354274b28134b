import Hosting.Proofs.Version

/-!
# Changes of a cluster

The changes that are made to a cluster by reading it, editing the copy and writing it back.  A
change concerns only the part that it is to write (`Mutation.took_edit`), and it comes to the
same under every version (`Blind`).
-/

namespace Hosting

open Hub (Part)

/-- A change that a client makes to a cluster. -/
inductive Mutation where
  | ensureFinalizer (f : String)
  | removeFinalizer (f : String)
  | mergeConditions (now : Instant) (new : List Condition)

namespace Mutation

def part : Mutation → Part
  | .ensureFinalizer _ | .removeFinalizer _ => .finalizers
  | .mergeConditions _ _ => .status

/-- The cluster with the change made, unless it already is as the change would leave it. -/
def edit : Mutation → ManagedCluster → Option ManagedCluster
  | .ensureFinalizer f, c => (c.metadata.addFinalizer? f).map fun m => { c with metadata := m }
  | .removeFinalizer f, c => (c.metadata.dropFinalizer? f).map fun m => { c with metadata := m }
  | .mergeConditions now new, c => Pass.mergeConditions now new c

def applied (u : Mutation) (c : ManagedCluster) : ManagedCluster := (u.edit c).getD c

variable {u : Mutation} {c d e : ManagedCluster}

/-- It changes only the part that it is to write, and leaves the version. -/
theorem took_edit (h : u.edit d = some e) :
    u.part.Took d e (some e) ∧ e.metadata.resourceVersion = d.metadata.resourceVersion := by
  cases u with
  | ensureFinalizer f =>
    obtain ⟨m, hm, rfl⟩ := Option.map_eq_some_iff.mp h
    rw [Metadata.addFinalizer?, Option.ite_none_left_eq_some, Option.some.injEq] at hm
    obtain ⟨-, rfl⟩ := hm
    exact ⟨Or.inl ⟨_, rfl, rfl, rfl, rfl⟩, rfl⟩
  | removeFinalizer f =>
    obtain ⟨m, hm, rfl⟩ := Option.map_eq_some_iff.mp h
    rw [Metadata.dropFinalizer?, Option.ite_none_right_eq_some, Option.some.injEq] at hm
    obtain ⟨-, rfl⟩ := hm
    exact ⟨Or.inl ⟨_, rfl, rfl, rfl, rfl⟩, rfl⟩
  | mergeConditions now new =>
    have h : Pass.mergeConditions now new d = some e := h
    rw [Pass.mergeConditions, Option.ite_none_left_eq_some, Option.some.injEq] at h
    obtain ⟨-, rfl⟩ := h
    exact ⟨⟨_, rfl, rfl, rfl, rfl⟩, rfl⟩

/-- What it does is the same under every version. -/
theorem edit_unversioned (u : Mutation) (c : ManagedCluster) :
    u.edit c.unversioned = (u.edit c).map (·.unversioned) := by
  cases u with
  | ensureFinalizer f =>
    show Option.map _ (if c.metadata.hasFinalizer f then none else _) =
      Option.map _ (Option.map _ (if c.metadata.hasFinalizer f then none else _))
    split <;> rfl
  | removeFinalizer f =>
    show Option.map _ (if c.metadata.hasFinalizer f then _ else none) =
      Option.map _ (Option.map _ (if c.metadata.hasFinalizer f then _ else none))
    split <;> rfl
  | mergeConditions now new =>
    show (if (Conditions.merge now new c.conditions).2.isEmpty then none else _) =
      Option.map _ (if (Conditions.merge now new c.conditions).2.isEmpty then none else _)
    split <;> rfl

theorem applied_unversioned (u : Mutation) (c : ManagedCluster) :
    u.applied c.unversioned = (u.applied c).unversioned := by
  unfold applied
  rw [edit_unversioned]
  cases u.edit c <;> rfl

theorem applied_of_edit (h : u.edit c = some e) : u.applied c = e := by
  unfold applied
  rw [h]
  rfl

end Mutation

namespace Hub

/-- What is written of a live cluster is what was to be written. -/
theorem Part.Took.unversioned {p : Part} {d e : ManagedCluster} {after : Option ManagedCluster}
    (h : p.Took d e after) (he : p.Took d e (some e)) (hlive : d.isDeleting = false) :
    ∃ d', after = some d' ∧ d'.isDeleting = false ∧ d'.unversioned = e.unversioned := by
  have hsame {fs : Option (List String)} {cs : Option Conditions} {d' : ManagedCluster}
      (hd' : d.Revised fs cs d') (he : d.Revised fs cs e) :
      d'.isDeleting = false ∧ d'.unversioned = e.unversioned := by
    refine ⟨(ManagedCluster.isDeleting_of_bare hd'.bare).trans hlive, ?_⟩
    exact ManagedCluster.unversioned_of_bare (hd'.bare.trans he.bare.symm)
      (hd'.finalizers.trans he.finalizers.symm) (hd'.status.trans he.status.symm)
  have hnot : d.isDeleting ≠ true := by rw [hlive]; exact Bool.false_ne_true
  cases p with
  | status =>
    obtain ⟨d', hd', hrevised⟩ := h
    obtain ⟨e', he', hrevised'⟩ := he
    rw [Option.some.injEq] at he'
    exact ⟨d', hd', hsame hrevised (he' ▸ hrevised')⟩
  | finalizers =>
    obtain ⟨d', hd', hrevised⟩ := h.resolve_right fun hgone => hnot hgone.1
    obtain ⟨e', he', hrevised'⟩ := he.resolve_right fun hgone => hnot hgone.1
    rw [Option.some.injEq] at he'
    exact ⟨d', hd', hsame hrevised (he' ▸ hrevised')⟩

theorem Part.Took.nameText {p : Part} {d e : ManagedCluster} (h : p.Took d e (some e)) :
    e.nameText = d.nameText := by
  have hsame {fs : Option (List String)} {cs : Option Conditions} {e' : ManagedCluster}
      (he' : some e = some e') (h : d.Revised fs cs e') : e.nameText = d.nameText := by
    rw [Option.some.inj he']
    exact ManagedCluster.nameText_of_bare h.bare
  cases p with
  | status =>
    obtain ⟨e', he', hrevised⟩ := h
    exact hsame he' hrevised
  | finalizers =>
    rcases h with ⟨e', he', hrevised⟩ | ⟨-, -, hgone⟩
    · exact hsame he' hrevised
    · cases hgone

end Hub

/-! ## Edits that do not look at the version -/

/-- The edit is the same under every version, which it leaves as it is. -/
structure Blind (edit : ManagedCluster → Option ManagedCluster) : Prop where
  view : ∀ d, edit d.unversioned = (edit d).map (·.unversioned)
  name : ∀ d e, edit d = some e → e.nameText = d.nameText
  version : ∀ d e, edit d = some e → e.metadata.resourceVersion = d.metadata.resourceVersion

theorem blind_mutation (u : Mutation) : Blind u.edit where
  view := u.edit_unversioned
  name _ _ h := (Mutation.took_edit h).1.nameText
  version _ _ h := (Mutation.took_edit h).2

theorem blind_addFinalizer : Blind Pass.addFinalizer := by
  have hblind := blind_mutation (.ensureFinalizer Names.workFinalizer)
  have hunless (d : ManagedCluster) : Pass.addFinalizer d =
      if d.isDeleting then none else (Mutation.ensureFinalizer Names.workFinalizer).edit d := rfl
  refine ⟨fun d => ?_, fun d e h => ?_, fun d e h => ?_⟩
  · have hdeleting : d.unversioned.isDeleting = d.isDeleting := rfl
    rw [hunless, hunless, hdeleting]
    split
    · rfl
    · exact hblind.view d
  · rw [hunless, Option.ite_none_left_eq_some] at h
    exact hblind.name d e h.2
  · rw [hunless, Option.ite_none_left_eq_some] at h
    exact hblind.version d e h.2

end Hosting
