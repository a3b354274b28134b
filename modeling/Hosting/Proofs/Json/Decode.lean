import Hosting.Proofs.Table
import Hosting.Resource.ManifestWork

/-!
# Fields that are written and read

A record is written as the members that it has and read by the names of its fields.  As long as
these names differ, each field is given what was written for it (`slots?_append`), so that a
record is read back when each of its fields is.
-/

namespace Hosting
namespace Json

variable {α β : Type}

/-! ## Members -/

section Members

variable {o : List (String × Json)} {fields extra : List (String × Option Json)}
  {names : List String} {n : String} {x : Option Json} {least : Nat}
  {f : List (Option Json) → Option α}

theorem find_foldl_place_of_ne {ms : List (String × Json)} (h : ∀ m ∈ ms, n ≠ m.1) :
    Table.find n (ms.foldl (fun o m => Table.place m.1 m.2 o) o) = Table.find n o := by
  induction ms generalizing o with
  | nil => rfl
  | cons m ms ih =>
    rw [List.foldl_cons, ih fun x hx => h x (List.mem_cons_of_mem m hx)]
    exact Table.find_place_of_ne (h m List.mem_cons_self) _ _

/-- The members that are there. -/
def present (fields : List (String × Option Json)) : List (String × Json) :=
  fields.filterMap fun f => f.2.map fun v => (f.1, v)

theorem name_of_mem_present {m : String × Json} (h : m ∈ present fields) :
    m.1 ∈ fields.map (·.1) := by
  obtain ⟨f, hf, hm⟩ := List.mem_filterMap.mp h
  obtain ⟨v, -, rfl⟩ := Option.map_eq_some_iff.mp hm
  exact List.mem_map_of_mem hf

theorem find_present (hd : (fields.map (·.1)).Nodup) (hx : (n, x) ∈ fields)
    (ho : Table.find n o = none) :
    Table.find n ((present fields).foldl (fun o m => Table.place m.1 m.2 o) o) = x := by
  induction fields generalizing o with
  | nil => cases hx
  | cons f fields ih =>
    obtain ⟨k, y⟩ := f
    rw [List.map_cons, List.nodup_cons] at hd
    unfold present at ih ⊢
    rcases List.mem_cons.mp hx with he | hlater
    · cases he
      have hrest : ∀ m ∈ present fields, n ≠ m.1 := by
        intro m hm he
        exact hd.1 (he ▸ name_of_mem_present hm)
      cases x with
      | none => exact (find_foldl_place_of_ne hrest).trans ho
      | some v => exact (find_foldl_place_of_ne hrest).trans (Table.find_place_self n v o)
    · have hne : n ≠ k := by
        rintro rfl
        exact hd.1 (List.mem_map_of_mem (f := (·.1)) hlater)
      cases y with
      | none => exact ih hd.2 hlater ho
      | some v => exact ih hd.2 hlater ((Table.find_place_of_ne hne v o).trans ho)

/-- Fields that were written are given when they are asked for by their names, whatever
else was written. -/
theorem slots?_append (hnames : fields.map (·.1) = names)
    (hd : ((extra ++ fields).map (·.1)).Nodup) :
    slots? names least (ofPresent (extra ++ fields)) = some (fields.map (·.2)) := by
  show some (names.map _) = _
  rw [← hnames, List.map_map]
  refine congrArg some (List.map_congr_left fun f hf => ?_)
  exact find_present hd (List.mem_append_right extra hf) rfl

theorem bind_slots? (hnames : fields.map (·.1) = names) (hd : names.Nodup) :
    (slots? names least (ofPresent fields) >>= f) = f (fields.map (·.2)) := by
  subst hnames
  have hgiven : slots? (fields.map (·.1)) least (ofPresent ([] ++ fields)) =
      some (fields.map (·.2)) := slots?_append rfl hd
  rw [List.nil_append] at hgiven
  rw [hgiven]
  rfl

theorem bind_members? (hnames : fields.map (·.1) = names) (hd : names.Nodup) :
    (members? names (ofPresent fields) >>= f) = f (fields.map (·.2)) := by
  show (slots? names 0 (ofPresent fields) >>= f) = _
  exact bind_slots? hnames hd

theorem bind_slots?_ofMembers {ms : List (String × Json)} (hnames : ms.map (·.1) = names)
    (hd : names.Nodup) :
    (slots? names least (ofMembers ms) >>= f) = f (ms.map fun m => some m.2) := by
  have hfields : ofMembers ms = ofPresent (ms.map fun m => (m.1, some m.2)) := by
    unfold ofPresent
    rw [List.filterMap_map]
    exact congrArg ofMembers List.filterMap_some.symm
  rw [hfields, bind_slots? (by rw [List.map_map, ← hnames]; rfl) hd, List.map_map]
  rfl

/-- The two members that tell the kind of an object do not stand in the way of its fields. -/
theorem bind_slots?_tagged {k : Kind} (hnames : fields.map (·.1) = names)
    (hd : ("apiVersion" :: "kind" :: names).Nodup) :
    (slots? names least (k.tagged fields) >>= f) = f (fields.map (·.2)) := by
  subst hnames
  have hgiven : slots? (fields.map (·.1)) least (ofPresent ([("apiVersion",
      some (.string k.apiVersion)), ("kind", some (.string k.name))] ++ fields)) =
        some (fields.map (·.2)) := slots?_append rfl hd
  exact congrArg (· >>= f) hgiven

end Members

/-! ## Fields -/

section Fields

variable {r : Json → Option α} {w : α → Json} {f : α → α} {v : Json}

@[simp] theorem required_some (r : Json → Option α) (v : Json) :
    required r (some v) = r v := rfl

@[simp] theorem withDefault_some (d : α) (r : Json → Option α) (v : Json) :
    withDefault d r (some v) = r v := rfl

@[simp] theorem asString_string (s : String) : asString (.string s) = some s := rfl

@[simp] theorem asBool_bool (b : Bool) : asBool (.bool b) = some b := rfl

theorem asInt_int {low high n : Int} (h : low ≤ n ∧ n ≤ high) :
    asInt low high (.int n) = some n := by
  simp [asInt, h]

theorem optional_some (h : v ≠ .null) : optional r (some v) = (r v).map some := by
  unfold optional
  split
  · next heq => cases heq
  · next heq => exact absurd (Option.some.inj heq) h
  · next heq =>
    cases heq
    rfl

theorem optional_map {o : Option α} (hnull : ∀ x, w x ≠ .null)
    (h : ∀ x ∈ o, r (w x) = some (f x)) : optional r (o.map w) = some (o.map f) := by
  cases o with
  | none => rfl
  | some x =>
    rw [Option.map_some, optional_some (hnull x), h x rfl]
    rfl

theorem optional_map_self {o : Option α} (hnull : ∀ x, w x ≠ .null)
    (h : ∀ x ∈ o, r (w x) = some x) : optional r (o.map w) = some o := by
  rw [optional_map (f := id) hnull h, Option.map_id, id]

theorem asList_map_of {xs : List α} (h : ∀ x ∈ xs, r (w x) = some (f x)) :
    asList r (.array (xs.map w)) = some (xs.map f) := by
  induction xs with
  | nil => rfl
  | cons x xs ih =>
    have hrest := ih fun y hy => h y (List.mem_cons_of_mem x hy)
    simp only [asList] at hrest ⊢
    simp [h x List.mem_cons_self, hrest]

/-- A list is read back when each of its items is. -/
theorem asList_map {xs : List α} (h : ∀ x ∈ xs, r (w x) = some x) :
    asList r (.array (xs.map w)) = some xs := by
  rw [asList_map_of (f := id) h, List.map_id]

theorem withDefault_listUnlessEmpty {xs : List α} (h : ∀ x ∈ xs, r (w x) = some x) :
    withDefault [] (asList r) (listUnlessEmpty w xs) = some xs := by
  unfold listUnlessEmpty
  cases xs with
  | nil => rfl
  | cons x xs => exact asList_map h

theorem asTable_map {t : Table String α} (h : ∀ x, r (w x) = some x) :
    asTable r (.object (t.entries.map fun e => (e.1, w e.2))) = some t := by
  have hentries : (t.entries.map fun e => (e.1, w e.2)).mapM
      (fun m => (r m.2).map fun v => (m.1, v)) = some t.entries := by
    generalize t.entries = es
    induction es with
    | nil => rfl
    | cons e es ih => simp [h, ih]
  show ((t.entries.map fun e => (e.1, w e.2)).mapM _ >>= fun es => some (Table.ofList es)) = _
  rw [hentries]
  exact congrArg some (Table.ofList_entries t)

/-! ## What is read -/

variable {P : α → Prop} {s : Option Json}

theorem of_required (hread : ∀ v x, r v = some x → P x) {x : α}
    (h : required r s = some x) : P x := by
  cases s with
  | none => cases h
  | some v => exact hread v x h

theorem of_withDefault (hread : ∀ v x, r v = some x → P x) {d x : α} (hd : P d)
    (h : withDefault d r s = some x) : P x := by
  cases s with
  | none =>
    cases h
    exact hd
  | some v => exact hread v x h

theorem of_optional (hread : ∀ v x, r v = some x → P x) {o : Option α}
    (h : optional r s = some o) : ∀ x ∈ o, P x := by
  rintro x rfl
  unfold optional at h
  split at h
  · cases h
  · cases h
  · next v _ =>
    obtain ⟨y, hy, he⟩ := Option.map_eq_some_iff.mp h
    cases he
    exact hread v x hy

/-- A value of an optional field is not `null`, which counts as missing. -/
theorem ne_null_of_optional (h : optional some s = some (some v)) : v ≠ .null := by
  rintro rfl
  cases s with
  | none => cases h
  | some u => cases u <;> cases h

theorem of_asList (hread : ∀ v x, r v = some x → P x) {xs : List α}
    (h : asList r v = some xs) : ∀ x ∈ xs, P x := by
  unfold asList at h
  split at h
  · next vs =>
    induction vs generalizing xs with
    | nil =>
      cases h
      intro x hx
      cases hx
    | cons v vs ih =>
      rw [List.mapM_cons] at h
      obtain ⟨y, hy, h⟩ := Option.bind_eq_some_iff.mp h
      obtain ⟨ys, hys, h⟩ := Option.bind_eq_some_iff.mp h
      cases h
      intro x hx
      rcases List.mem_cons.mp hx with rfl | hx
      · exact hread v x hy
      · exact ih hys x hx
  · cases h

theorem range_of_asInt {low high n : Int} (h : asInt low high v = some n) :
    low ≤ n ∧ n ≤ high := by
  unfold asInt at h
  split at h
  · rw [Option.ite_none_right_eq_some] at h
    obtain ⟨hrange, h⟩ := h
    cases h
    simpa using hrange
  · cases h

end Fields

end Json
end Hosting
