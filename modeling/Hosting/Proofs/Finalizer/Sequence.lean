import Hosting.Finalizer
import Mathlib.Data.List.Induction
import Mathlib.Data.Set.Defs

/-!
# Finalizers put on and taken off in turn

Whoever waits for an object puts a name of its own on the list of its finalizers, and takes it off
when it is done.  What the list holds after any such calls is read off their sequence (`Follows`):
of each name the last call for it decides, and the names that nobody called keep their places and
their number.  `calls_decide` says so, and what each of the calls on the way tells and does.
-/

namespace Hosting
namespace Finalizers

/-- A finalizer is put on the list, or taken off. -/
inductive Call where
  | add (f : String)
  | drop (f : String)
  deriving DecidableEq, Repr

namespace Call

def name : Call → String
  | .add f | .drop f => f

/-- The metadata with the list changed, or nothing when the list is as the call would have it. -/
def change? : Call → Metadata → Option Metadata
  | .add f, m => m.addFinalizer? f
  | .drop f, m => m.dropFinalizer? f

/-- The call tells of a change. -/
def reports (k : Call) (m : Metadata) : Bool := (k.change? m).isSome

def apply (k : Call) (m : Metadata) : Metadata := (k.change? m).getD m

end Call

/-- The metadata after the calls. -/
def after (calls : List Call) (m : Metadata) : Metadata := calls.foldl (fun m k => k.apply m) m

/-- The list, empty when it is missing. -/
def entries (m : Metadata) : List String := m.finalizers.getD []

/-- The names on the list. -/
def names (m : Metadata) : Set String := {f | m.hasFinalizer f = true}

/-- The last call for a name. -/
def lastOf (f : String) (calls : List Call) : Option Call :=
  (calls.filter (·.name == f)).getLast?

/-- The name is on the list in the end: its last call was to put it there, or there was no call
for it and it was there before. -/
def Lasts (f : String) (calls : List Call) (m : Metadata) : Prop :=
  lastOf f calls = some (.add f) ∨ lastOf f calls = none ∧ f ∈ names m

variable {m m' : Metadata} {f g : String} {k : Call} {calls : List Call}

/-! ## One call -/

theorem hasFinalizer_iff : m.hasFinalizer f = true ↔ f ∈ entries m := by
  unfold Metadata.hasFinalizer entries
  cases m.finalizers <;> simp

theorem mem_names_iff : f ∈ names m ↔ f ∈ entries m := hasFinalizer_iff

theorem apply_add (f : String) (m : Metadata) : (Call.add f).apply m =
    if f ∈ entries m then m else { m with finalizers := some (entries m ++ [f]) } := by
  show (m.addFinalizer? f).getD m = _
  unfold Metadata.addFinalizer?
  by_cases h : f ∈ entries m
  · rw [if_pos (hasFinalizer_iff.mpr h), if_pos h]
    rfl
  · rw [if_neg fun hf => h (hasFinalizer_iff.mp hf), if_neg h]
    rfl

/-- Where there is no entry of the name, taking it off leaves the list alone. -/
theorem apply_drop (f : String) (m : Metadata) : (Call.drop f).apply m =
    { m with finalizers := m.finalizers.map fun fs => fs.filter (· != f) } := by
  show (m.dropFinalizer? f).getD m = _
  unfold Metadata.dropFinalizer?
  by_cases h : m.hasFinalizer f = true
  · rw [if_pos h]
    rfl
  · rw [if_neg h, Option.getD_none]
    have hf : f ∉ entries m := fun hf => h (hasFinalizer_iff.mpr hf)
    have hsame : m.finalizers.map (fun fs => fs.filter (· != f)) = m.finalizers := by
      unfold entries at hf
      cases hm : m.finalizers with
      | none => rfl
      | some fs =>
        rw [hm] at hf
        refine congrArg some (List.filter_eq_self.mpr fun g hg => ?_)
        exact bne_iff_ne.mpr fun hgf => hf (hgf ▸ hg)
    rw [hsame]

theorem entries_add (f : String) (m : Metadata) :
    entries ((Call.add f).apply m) = entries m ++ if f ∈ entries m then [] else [f] := by
  rw [apply_add]
  by_cases h : f ∈ entries m
  · rw [if_pos h, if_pos h, List.append_nil]
  · rw [if_neg h, if_neg h]
    rfl

theorem entries_drop (f : String) (m : Metadata) :
    entries ((Call.drop f).apply m) = (entries m).filter (· != f) := by
  rw [apply_drop]
  unfold entries
  cases m.finalizers <;> rfl

theorem hasFinalizer_add (f : String) (m : Metadata) :
    ((Call.add f).apply m).hasFinalizer f = true := by
  show ((m.addFinalizer? f).getD m).hasFinalizer f = true
  cases h : m.addFinalizer? f with
  | none => exact Metadata.addFinalizer?_eq_none_iff.mp h
  | some m' => exact Metadata.hasFinalizer_of_addFinalizer? h

theorem not_hasFinalizer_drop (f : String) (m : Metadata) :
    ((Call.drop f).apply m).hasFinalizer f = false := by
  show ((m.dropFinalizer? f).getD m).hasFinalizer f = false
  cases h : m.dropFinalizer? f with
  | none => exact Metadata.dropFinalizer?_eq_none_iff.mp h
  | some m' => exact Metadata.not_hasFinalizer_of_dropFinalizer? h

theorem hasFinalizer_apply_of_ne (h : g ≠ k.name) (m : Metadata) :
    (k.apply m).hasFinalizer g = m.hasFinalizer g := by
  unfold Call.apply
  cases hk : k.change? m with
  | none => rfl
  | some m' =>
    cases k with
    | add f => exact Metadata.hasFinalizer_addFinalizer?_of_ne h hk
    | drop f => exact Metadata.hasFinalizer_dropFinalizer?_of_ne h hk

theorem mem_names_apply (k : Call) (m : Metadata) (g : String) :
    g ∈ names (k.apply m) ↔ k = .add g ∨ k ≠ .drop g ∧ g ∈ names m := by
  show (k.apply m).hasFinalizer g = true ↔ k = .add g ∨ k ≠ .drop g ∧ m.hasFinalizer g = true
  by_cases h : g = k.name
  · subst h
    cases k with
    | add f => simp [Call.name, hasFinalizer_add]
    | drop f => simp [Call.name, not_hasFinalizer_drop]
  · have hadd : k ≠ .add g := fun he => h (he ▸ rfl)
    have hdrop : k ≠ .drop g := fun he => h (he ▸ rfl)
    simp [hasFinalizer_apply_of_ne h, hadd, hdrop]

theorem reports_add : (Call.add f).reports m = true ↔ f ∉ entries m := by
  show (m.addFinalizer? f).isSome = true ↔ _
  rw [← not_iff_not, not_not, ← hasFinalizer_iff, ← Metadata.addFinalizer?_eq_none_iff]
  exact Option.not_isSome_iff_eq_none

theorem reports_drop : (Call.drop f).reports m = true ↔ f ∈ entries m := by
  show (m.dropFinalizer? f).isSome = true ↔ _
  rw [← not_iff_not, ← hasFinalizer_iff, Bool.not_eq_true (m.hasFinalizer f),
    ← Metadata.dropFinalizer?_eq_none_iff]
  exact Option.not_isSome_iff_eq_none

theorem reports_iff : k.reports m = true ↔ names (k.apply m) ≠ names m := by
  constructor
  · intro h hsame
    have hname := mem_names_apply k m k.name
    rw [hsame, mem_names_iff] at hname
    cases k with
    | add f => exact reports_add.mp h (hname.mpr (Or.inl rfl))
    | drop f =>
      rcases hname.mp (reports_drop.mp h) with hadd | hdrop
      · cases hadd
      · exact hdrop.1 rfl
  · intro h
    refine Classical.byContradiction fun hnot => h ?_
    have hnone : k.change? m = none := Option.not_isSome_iff_eq_none.mp hnot
    unfold Call.apply
    rw [hnone]
    rfl

/-- No entry of another name comes, goes or moves. -/
theorem others_apply {p : String → Bool} (h : p k.name = false) :
    (entries (k.apply m)).filter p = (entries m).filter p := by
  cases k with
  | add f =>
    have hf : ¬p f = true := by
      rw [show p f = false from h]
      exact Bool.false_ne_true
    rw [entries_add, List.filter_append]
    by_cases hmem : f ∈ entries m
    · rw [if_pos hmem, List.filter_nil, List.append_nil]
    · rw [if_neg hmem, List.filter_cons_of_neg hf, List.filter_nil, List.append_nil]
  | drop f =>
    rw [entries_drop, List.filter_filter]
    refine List.filter_congr fun g _ => ?_
    by_cases hg : g = f
    · subst hg
      rw [show p g = false from h, Bool.false_and]
    · rw [bne_iff_ne.mpr hg, Bool.and_true]

theorem missing_apply : (k.apply m).finalizers = none ↔
    m.finalizers = none ∧ ∀ f, k ≠ .add f := by
  cases k with
  | add f =>
    refine iff_of_false (fun h => ?_) fun h => h.2 f rfl
    have hmem : f ∈ names ((Call.add f).apply m) := (mem_names_apply _ _ _).mpr (Or.inl rfl)
    rw [mem_names_iff] at hmem
    unfold entries at hmem
    rw [h] at hmem
    cases hmem
  | drop f =>
    rw [apply_drop]
    simp

theorem rest_apply (k : Call) (m : Metadata) (fs : Option (List String)) :
    { k.apply m with finalizers := fs } = { m with finalizers := fs } := by
  cases k with
  | add f =>
    rw [apply_add]
    split <;> rfl
  | drop f => rw [apply_drop]

/-! ## A sequence of calls -/

/-- The metadata `m'` is what has become of `m` by calls that came one after another. -/
structure Follows (m : Metadata) (calls : List Call) (m' : Metadata) : Prop where
  names : ∀ f, f ∈ names m' ↔ Lasts f calls m
  /-- The names for which there was no call stand as often as they did, and in their order. -/
  others : (entries m').filter (· ∉ calls.map Call.name) =
    (entries m).filter (· ∉ calls.map Call.name)
  missing : m'.finalizers = none ↔ m.finalizers = none ∧ ∀ f, Call.add f ∉ calls
  rest : { m' with finalizers := m.finalizers } = m

/-- What the call tells and does. -/
structure Call.Holds (k : Call) (m : Metadata) : Prop where
  reports : k.reports m = true ↔ Finalizers.names (k.apply m) ≠ Finalizers.names m
  /-- All entries of the name are taken off, and no other. -/
  dropped : ∀ f, k = .drop f → entries (k.apply m) = (entries m).filter (· != f)
  /-- What has been put on is taken off again without a trace, but for the list being there. -/
  undone : ∀ f, k = .add f → k.reports m = true →
    (Call.drop f).apply (k.apply m) = { m with finalizers := some (entries m) }

theorem lastOf_concat (f : String) (calls : List Call) (k : Call) :
    lastOf f (calls ++ [k]) = if k.name = f then some k else lastOf f calls := by
  unfold lastOf
  rw [List.filter_append]
  by_cases h : k.name = f
  · have hk : [k].filter (·.name == f) = [k] := List.filter_cons_of_pos (beq_iff_eq.mpr h)
    rw [if_pos h, hk, List.getLast?_concat]
  · have hk : [k].filter (·.name == f) = [] :=
      List.filter_cons_of_neg fun hf => h (beq_iff_eq.mp hf)
    rw [if_neg h, hk, List.append_nil]

theorem after_concat (calls : List Call) (k : Call) (m : Metadata) :
    after (calls ++ [k]) m = k.apply (after calls m) := List.foldl_append

theorem mem_names_after (f : String) (calls : List Call) (m : Metadata) :
    f ∈ names (after calls m) ↔ Lasts f calls m := by
  induction calls using List.reverseRecOn with
  | nil => simp [after, Lasts, lastOf]
  | append_singleton calls k ih =>
    rw [after_concat, mem_names_apply, ih]
    unfold Lasts
    rw [lastOf_concat]
    by_cases h : k.name = f
    · rw [if_pos h]
      cases k with
      | add g => simp_all [Call.name]
      | drop g => simp_all [Call.name]
    · rw [if_neg h]
      cases k with
      | add g => simp_all [Call.name]
      | drop g => simp_all [Call.name]

theorem others_after {p : String → Bool} (h : ∀ k ∈ calls, p k.name = false) (m : Metadata) :
    (entries (after calls m)).filter p = (entries m).filter p := by
  induction calls generalizing m with
  | nil => rfl
  | cons k calls ih =>
    rw [List.forall_mem_cons] at h
    exact (ih h.2 (k.apply m)).trans (others_apply h.1)

theorem missing_after (calls : List Call) (m : Metadata) : (after calls m).finalizers = none ↔
    m.finalizers = none ∧ ∀ f, Call.add f ∉ calls := by
  induction calls generalizing m with
  | nil => simp [after]
  | cons k calls ih =>
    show (after calls (k.apply m)).finalizers = none ↔ _
    rw [ih, missing_apply, and_assoc, ← forall_and]
    simp only [List.mem_cons, not_or, ne_eq, eq_comm]

theorem rest_after (calls : List Call) (m : Metadata) (fs : Option (List String)) :
    { after calls m with finalizers := fs } = { m with finalizers := fs } := by
  induction calls generalizing m with
  | nil => rfl
  | cons k calls ih => exact (ih (k.apply m)).trans (rest_apply k m fs)

theorem follows_after (calls : List Call) (m : Metadata) : Follows m calls (after calls m) where
  names f := mem_names_after f calls m
  others := by
    refine others_after (fun k hk => ?_) m
    exact decide_eq_false (not_not.mpr (List.mem_map_of_mem hk))
  missing := missing_after calls m
  rest := rest_after calls m m.finalizers

theorem drop_add (h : (Call.add f).reports m = true) :
    (Call.drop f).apply ((Call.add f).apply m) = { m with finalizers := some (entries m) } := by
  have hf : f ∉ entries m := reports_add.mp h
  have hrest : (entries m ++ [f]).filter (· != f) = entries m := by
    rw [List.filter_append, List.filter_eq_self.mpr]
    · simp
    · exact fun g hg => bne_iff_ne.mpr fun hgf => hf (hgf ▸ hg)
  rw [apply_add, if_neg hf, apply_drop]
  show { m with finalizers := some ((entries m ++ [f]).filter (· != f)) } = _
  rw [hrest]

theorem holds_apply (k : Call) (m : Metadata) : k.Holds m where
  reports := reports_iff
  dropped := by
    rintro f rfl
    exact entries_drop f m
  undone := by
    rintro f rfl h
    exact drop_add h

/-- Whatever calls are made for the finalizers of an object, each tells whether it has changed the
names on the list, and the list is in the end what follows from the calls in their order. -/
theorem calls_decide (m : Metadata) (calls : List Call) :
    Follows m calls (after calls m) ∧
      ∀ before k rest, calls = before ++ k :: rest → k.Holds (after before m) :=
  ⟨follows_after calls m, fun before k _ _ => holds_apply k (after before m)⟩

end Finalizers
end Hosting
