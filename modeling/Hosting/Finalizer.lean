import Hosting.Resource.Metadata

/-!
Finalizers: names that keep an object until each is taken off.  Adding and dropping give
nothing when the list is already as they would leave it.
-/

namespace Hosting
namespace Metadata

def hasFinalizer (m : Metadata) (f : String) : Bool := m.finalizers.any (·.contains f)

/-- The metadata with `f` at the end of the finalizers, unless it is there. -/
def addFinalizer? (m : Metadata) (f : String) : Option Metadata :=
  if m.hasFinalizer f then none
  else some { m with finalizers := some (m.finalizers.getD [] ++ [f]) }

/-- The metadata without any occurrence of `f`, unless there is none. -/
def dropFinalizer? (m : Metadata) (f : String) : Option Metadata :=
  if m.hasFinalizer f then
    some { m with finalizers := m.finalizers.map fun fs => fs.filter (· != f) }
  else none

theorem addFinalizer?_eq_none_iff {m : Metadata} {f : String} :
    m.addFinalizer? f = none ↔ m.hasFinalizer f = true := by
  simp [addFinalizer?]

theorem dropFinalizer?_eq_none_iff {m : Metadata} {f : String} :
    m.dropFinalizer? f = none ↔ m.hasFinalizer f = false := by
  simp [dropFinalizer?]

theorem hasFinalizer_of_addFinalizer? {m m' : Metadata} {f : String}
    (h : m.addFinalizer? f = some m') : m'.hasFinalizer f = true := by
  simp only [addFinalizer?, Option.ite_none_left_eq_some, Option.some.injEq] at h
  obtain ⟨_, rfl⟩ := h
  simp [hasFinalizer]

theorem not_hasFinalizer_of_dropFinalizer? {m m' : Metadata} {f : String}
    (h : m.dropFinalizer? f = some m') : m'.hasFinalizer f = false := by
  simp only [dropFinalizer?, Option.ite_none_right_eq_some, Option.some.injEq] at h
  obtain ⟨_, rfl⟩ := h
  cases m.finalizers <;> simp [hasFinalizer]

/-- Adding a finalizer leaves the other ones as they are. -/
theorem hasFinalizer_addFinalizer?_of_ne {m m' : Metadata} {f g : String} (hne : g ≠ f)
    (h : m.addFinalizer? f = some m') : m'.hasFinalizer g = m.hasFinalizer g := by
  simp only [addFinalizer?, Option.ite_none_left_eq_some, Option.some.injEq] at h
  obtain ⟨_, rfl⟩ := h
  cases hm : m.finalizers <;> simp [hasFinalizer, hm, hne]

theorem hasFinalizer_dropFinalizer?_of_ne {m m' : Metadata} {f g : String} (hne : g ≠ f)
    (h : m.dropFinalizer? f = some m') : m'.hasFinalizer g = m.hasFinalizer g := by
  simp only [dropFinalizer?, Option.ite_none_right_eq_some, Option.some.injEq] at h
  obtain ⟨_, rfl⟩ := h
  cases hm : m.finalizers <;> simp [hasFinalizer, hm, hne]

end Metadata
end Hosting
