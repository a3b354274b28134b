import Hosting.Finalizer
import Hosting.Names

/-!
# The finalizer that holds a cluster

What becomes of a list of finalizers when the one that holds a cluster with works is put on
or taken off.  Both are done at most once, and neither touches those of others.
-/

namespace Hosting
namespace Finalizers

/-- The finalizer is on the list. -/
def holds (fs : Option (List String)) : Bool := fs.any (·.contains Names.workFinalizer)

def released (fs : Option (List String)) : Option (List String) :=
  fs.map fun l => l.filter (· != Names.workFinalizer)

def held (fs : Option (List String)) : Option (List String) :=
  if holds fs then fs else some (fs.getD [] ++ [Names.workFinalizer])

/-- The finalizers of others. -/
def others (fs : Option (List String)) : List String :=
  (fs.getD []).filter (· != Names.workFinalizer)

variable {fs : Option (List String)}

theorem holds_released : holds (released fs) = false := by
  cases fs with
  | none => rfl
  | some l => simp [holds, released]

theorem holds_held : holds (held fs) = true := by
  unfold held
  split
  · assumption
  · simp [holds]

theorem released_of_not_holds (h : holds fs = false) : released fs = fs := by
  cases fs with
  | none => rfl
  | some l =>
    have hl : Names.workFinalizer ∉ l := by simpa [holds] using h
    refine congrArg some (List.filter_eq_self.mpr fun f hf => ?_)
    exact bne_iff_ne.mpr fun he => hl (he ▸ hf)

theorem held_of_holds (h : holds fs = true) : held fs = fs := if_pos h

theorem released_released : released (released fs) = released fs :=
  released_of_not_holds holds_released

theorem held_held : held (held fs) = held fs := held_of_holds holds_held

theorem others_released : others (released fs) = others fs := by
  cases fs with
  | none => rfl
  | some l => simp [others, released]

theorem others_held : others (held fs) = others fs := by
  unfold held
  split
  · rfl
  · simp [others]

/-- Of a list that is empty once the finalizer is off, nothing was anybody else's. -/
theorem others_of_released (h : (released fs).getD [] = []) : others fs = [] := by
  rw [← others_released, others, h]
  rfl

end Finalizers

namespace Metadata

variable {m m' : Metadata}

theorem finalizers_of_dropFinalizer? (h : m.dropFinalizer? Names.workFinalizer = some m') :
    m'.finalizers = Finalizers.released m.finalizers := by
  rw [dropFinalizer?, Option.ite_none_right_eq_some, Option.some.injEq] at h
  rw [← h.2]
  rfl

theorem finalizers_of_addFinalizer? (h : m.addFinalizer? Names.workFinalizer = some m') :
    m'.finalizers = Finalizers.held m.finalizers := by
  rw [addFinalizer?, Option.ite_none_left_eq_some, Option.some.injEq] at h
  obtain ⟨hnone, rfl⟩ := h
  exact (if_neg hnone).symm

end Metadata
end Hosting
