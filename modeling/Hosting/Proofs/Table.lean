import Hosting.Table

/-!
# Looking into tables

A table is its look-up: what is found under a key is what stands in the entries, and two
tables in which the same is found are the same table.
-/

namespace Hosting
namespace Table

variable {κ β : Type} [KeyOrder κ]

/-! ## Entries -/

/-- An entry of an ordered list is the one that is found under its key. -/
theorem find_of_mem {es : List (κ × β)} {k : κ} {v : β}
    (h : es.Pairwise (fun a b => KeyOrder.before a.1 b.1 = true)) (hm : (k, v) ∈ es) :
    find k es = some v := by
  induction es with
  | nil => cases hm
  | cons x xs ih =>
    have hx := List.pairwise_cons.mp h
    rcases List.mem_cons.mp hm with rfl | hm
    · simp [find, KeyOrder.irrefl]
    · have hb : KeyOrder.before x.1 k = true := hx.1 (k, v) hm
      simp only [find, hb, Bool.or_true, if_true]
      exact ih hx.2 hm

theorem mem_of_find {es : List (κ × β)} {k : κ} {v : β} (h : find k es = some v) :
    (k, v) ∈ es := by
  induction es with
  | nil => cases h
  | cons x xs ih =>
    unfold find at h
    split at h
    · exact List.mem_cons_of_mem x (ih h)
    · next hb =>
      simp only [Bool.or_eq_true, not_or, Bool.not_eq_true] at hb
      have he : k = x.1 := KeyOrder.total hb.1 hb.2
      have hv : x.2 = v := Option.some.inj h
      rw [he, ← hv]
      exact List.mem_cons_self

theorem mem_entries_iff {t : Table κ β} {k : κ} {v : β} :
    (k, v) ∈ t.entries ↔ t.get? k = some v :=
  ⟨find_of_mem t.ordered, mem_of_find⟩

theorem nodup_keys (t : Table κ β) : t.keys.Nodup := by
  have h : t.entries.Pairwise fun a b => a.1 ≠ b.1 := by
    refine t.ordered.imp fun {a b} hab he => ?_
    rw [he, KeyOrder.irrefl] at hab
    cases hab
  exact List.pairwise_map.mpr h

theorem ext_get? {t u : Table κ β} (h : ∀ k, t.get? k = u.get? k) : t = u := by
  have hnodup (t : Table κ β) : t.entries.Nodup :=
    List.Pairwise.of_map _ (fun a b hne he => hne (congrArg _ he)) (nodup_keys t)
  have hmem : ∀ e, e ∈ t.entries ↔ e ∈ u.entries := by
    intro e
    rw [show e = (e.1, e.2) from rfl, mem_entries_iff, mem_entries_iff, h]
  have hperm := (List.perm_ext_iff_of_nodup (hnodup t) (hnodup u)).mpr hmem
  have he : t.entries = u.entries := by
    refine hperm.eq_of_pairwise (fun a b _ _ hab hba => ?_) t.ordered u.ordered
    have haa := KeyOrder.trans hab hba
    rw [KeyOrder.irrefl] at haa
    cases haa
  cases t
  cases u
  cases he
  rfl

/-! ## Changes -/

theorem get?_insert [DecidableEq κ] (t : Table κ β) (k k' : κ) (v : β) :
    (t.insert k v).get? k' = if k' = k then some v else t.get? k' := by
  by_cases h : k' = k
  · rw [if_pos h, h, get?_insert_self]
  · rw [if_neg h, get?_insert_of_ne t h]

theorem forall_insert [DecidableEq κ] {t : Table κ β} {P : β → Prop}
    (h : ∀ k v, t.get? k = some v → P v) {k : κ} {v : β} (hv : P v) :
    ∀ k' u, (t.insert k v).get? k' = some u → P u := by
  intro k' u hu
  rw [get?_insert] at hu
  split at hu
  · exact Option.some.inj hu ▸ hv
  · exact h k' u hu

theorem get?_erase [DecidableEq κ] (t : Table κ β) (k k' : κ) :
    (t.erase k).get? k' = if k' = k then none else t.get? k' := by
  by_cases h : k' = k
  · rw [if_pos h, h, get?_erase_self]
  · rw [if_neg h, get?_erase_of_ne t h]

theorem get?_erase_or_insert [DecidableEq κ] (t : Table κ β) (k k' : κ) (v : β) (p : Prop)
    [Decidable p] : (if p then t.erase k else t.insert k v).get? k' =
      if k' = k then (if p then none else some v) else t.get? k' := by
  by_cases hp : p
  · rw [if_pos hp, if_pos hp, get?_erase]
  · rw [if_neg hp, if_neg hp, get?_insert]

theorem contains_eq_false_iff {t : Table κ β} {k : κ} :
    t.contains k = false ↔ t.get? k = none := by
  simp [contains]

@[simp] theorem get?_singleton_self (k : κ) (v : β) : (singleton k v).get? k = some v :=
  get?_insert_self empty k v

theorem get?_foldl_insert_of_ne {k : κ} {es : List (κ × β)} (h : ∀ e ∈ es, k ≠ e.1)
    (t : Table κ β) : (es.foldl (fun t e => t.insert e.1 e.2) t).get? k = t.get? k := by
  induction es generalizing t with
  | nil => rfl
  | cons x xs ih =>
    rw [List.foldl_cons, ih (fun e he => h e (List.mem_cons_of_mem x he)),
      get?_insert_of_ne t (h x List.mem_cons_self)]

/-- What a list of entries that are put one after another gives in the end. -/
theorem get?_foldl_insert {es : List (κ × β)} {k : κ} {v : β}
    (h : es.Pairwise (fun a b => KeyOrder.before a.1 b.1 = true)) (hm : (k, v) ∈ es)
    (t : Table κ β) : (es.foldl (fun t e => t.insert e.1 e.2) t).get? k = some v := by
  induction es generalizing t with
  | nil => cases hm
  | cons x xs ih =>
    have hx := List.pairwise_cons.mp h
    rcases List.mem_cons.mp hm with rfl | hm
    · have hne : ∀ e ∈ xs, k ≠ e.1 := by
        intro e he heq
        have hb := hx.1 e he
        rw [← heq, KeyOrder.irrefl] at hb
        cases hb
      rw [List.foldl_cons, get?_foldl_insert_of_ne hne, get?_insert_self]
    · exact ih hx.2 hm _

/-- Of two tables joined the second one counts where it has an entry. -/
theorem get?_extend_of_some (t : Table κ β) {u : Table κ β} {k : κ} {v : β}
    (h : u.get? k = some v) : (t.extend u).get? k = some v :=
  get?_foldl_insert u.ordered (mem_entries_iff.mpr h) t

theorem get?_extend_of_none (t : Table κ β) {u : Table κ β} {k : κ} (h : u.get? k = none) :
    (t.extend u).get? k = t.get? k := by
  refine get?_foldl_insert_of_ne (fun e he hk => ?_) t
  have hu : u.get? e.1 = some e.2 := mem_entries_iff.mp he
  rw [← hk, h] at hu
  cases hu

/-- A table is built again of its own entries. -/
theorem ofList_entries (t : Table κ β) : ofList t.entries = t := by
  refine ext_get? fun k => ?_
  cases hk : t.get? k with
  | some v => exact get?_foldl_insert t.ordered (mem_entries_iff.mpr hk) empty
  | none =>
    refine get?_foldl_insert_of_ne (fun e he heq => ?_) empty
    have hfound : t.get? e.1 = some e.2 := mem_entries_iff.mp he
    rw [← heq, hk] at hfound
    cases hfound

theorem get?_singleton_of_ne {k k' : κ} (h : k' ≠ k) (v : β) : (singleton k v).get? k' = none :=
  get?_insert_of_ne empty h v

theorem erase_insert_self [DecidableEq κ] (t : Table κ β) (k : κ) (v : β) :
    (t.insert k v).erase k = t.erase k := by
  refine ext_get? fun k' => ?_
  rw [get?_erase, get?_erase]
  by_cases h : k' = k
  · rw [if_pos h, if_pos h]
  · rw [if_neg h, if_neg h, get?_insert_of_ne t h]

/-! ## Entries that are picked -/

section Pick

variable {γ : Type} {p : κ × β → Bool} {f : β → γ}

/-- The entries that fit, with what `f` makes of their values. -/
def pick (p : κ × β → Bool) (f : β → γ) (t : Table κ β) : Table κ γ where
  entries := (t.entries.filter p).map fun e => (e.1, f e.2)
  ordered := List.pairwise_map.mpr (t.ordered.filter p)

theorem get?_pick (p : κ × β → Bool) (f : β → γ) (t : Table κ β) (k : κ) :
    (t.pick p f).get? k = ((t.get? k).filter fun v => p (k, v)).map f := by
  refine Option.ext fun y => ?_
  rw [← mem_entries_iff]
  show (k, y) ∈ (t.entries.filter p).map (fun e => (e.1, f e.2)) ↔ _
  simp only [List.mem_map, List.mem_filter, Prod.mk.injEq, Option.map_eq_some_iff,
    Option.filter_eq_some_iff]
  constructor
  · rintro ⟨e, ⟨hmem, hfits⟩, rfl, rfl⟩
    exact ⟨e.2, ⟨mem_entries_iff.mp hmem, hfits⟩, rfl⟩
  · rintro ⟨v, ⟨hv, hfits⟩, rfl⟩
    exact ⟨(k, v), ⟨mem_entries_iff.mpr hv, hfits⟩, rfl, rfl⟩

theorem values_pick (p : κ × β → Bool) (f : β → γ) (t : Table κ β) :
    (t.pick p f).values = ((t.entries.filter p).map (·.2)).map f := by
  show ((t.entries.filter p).map fun e => (e.1, f e.2)).map (·.2) = _
  rw [List.map_map, List.map_map]
  rfl

end Pick

end Table
end Hosting
