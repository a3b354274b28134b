import Hosting.Json.Merge
import Hosting.Proofs.Table

/-!
# What a patch does to a member

A patch is told by what it does to each single member: nothing to one that it does not name
(`member?_merge`).
-/

namespace Hosting
namespace Json

variable {ps ms o : List (String × Json)} {v p : Json} {x : Option Json} {k l : String}

/-- What becomes of a member of which the patch says the first argument. -/
def mergeMember : Option Json → Option Json → Option Json
  | none, x => x
  | some .null, _ => none
  | some p, x => some (merge p (x.getD .null))

theorem mergeMember_some (hp : p ≠ .null) :
    mergeMember (some p) x = some (merge p (x.getD .null)) := by
  cases p with
  | null => exact absurd rfl hp
  | _ => rfl

theorem mergeMembers_cons (hp : p ≠ .null) : mergeMembers ((k, p) :: ps) ms =
    mergeMembers ps (Table.place k (merge p ((Table.find k ms).getD .null)) ms) := by
  cases p with
  | null => exact absurd rfl hp
  | _ => rfl

theorem find_eq_none (h : k ∉ ps.map (·.1)) : Table.find k ps = none := by
  rw [Option.eq_none_iff_forall_ne_some]
  intro v hv
  exact h (List.mem_map_of_mem (f := (·.1)) (Table.mem_of_find hv))

theorem find_cons_self (k : String) (p : Json) (ps : List (String × Json)) :
    Table.find k ((k, p) :: ps) = some p := by
  simp [Table.find, KeyOrder.irrefl]

theorem find_cons_of_ne (h : k ≠ l) (p : Json) (ps : List (String × Json)) :
    Table.find k ((l, p) :: ps) = Table.find k ps := by
  simp [Table.find, Table.before_of_ne h]

theorem find_mergeMembers (h : (ps.map (·.1)).Nodup) :
    Table.find k (mergeMembers ps ms) = mergeMember (Table.find k ps) (Table.find k ms) := by
  induction ps generalizing ms with
  | nil => rfl
  | cons e ps ih =>
    obtain ⟨l, p⟩ := e
    rw [List.map_cons, List.nodup_cons] at h
    -- No later member of the patch has the name `l`, so what this one does is not undone.
    by_cases hkl : k = l
    · subst hkl
      rw [find_cons_self]
      by_cases hp : p = .null
      · rw [hp]
        show Table.find k (mergeMembers ps (Table.drop k ms)) = none
        rw [ih h.2, find_eq_none h.1]
        exact Table.find_drop_self k ms
      · rw [mergeMembers_cons hp, ih h.2, find_eq_none h.1, mergeMember_some hp]
        exact Table.find_place_self k _ ms
    · rw [find_cons_of_ne hkl]
      by_cases hp : p = .null
      · rw [hp]
        show Table.find k (mergeMembers ps (Table.drop l ms)) = _
        rw [ih h.2, Table.find_drop_of_ne hkl]
      · rw [mergeMembers_cons hp, ih h.2, Table.find_place_of_ne hkl]

/-! ## Patches by their members -/

theorem member?_eq (v : Json) (k : String) : v.member? k = Table.find k v.members := by
  cases v <;> rfl

theorem at?_eq (v : Json) (k l : String) : v.at? k l = ((v.member? k).getD .null).member? l := by
  unfold at?
  cases v.member? k <;> rfl

theorem ordered_foldl_place (ms : List (String × Json))
    (h : o.Pairwise fun a b => KeyOrder.before a.1 b.1 = true) :
    (ms.foldl (fun o m => Table.place m.1 m.2 o) o).Pairwise
      fun a b => KeyOrder.before a.1 b.1 = true := by
  induction ms generalizing o with
  | nil => exact h
  | cons m ms ih => exact ih (Table.place_ordered m.1 m.2 h)

theorem lookup_eq_none (h : k ∉ ms.map (·.1)) : ms.lookup k = none := by
  rw [List.lookup_eq_none_iff]
  intro m hm
  rw [bne_iff_ne]
  rintro rfl
  exact h (List.mem_map_of_mem (f := (·.1)) hm)

theorem find_foldl_place (h : (ms.map (·.1)).Nodup) :
    Table.find k (ms.foldl (fun o m => Table.place m.1 m.2 o) o) =
      (ms.lookup k).or (Table.find k o) := by
  induction ms generalizing o with
  | nil => rfl
  | cons e ms ih =>
    obtain ⟨l, p⟩ := e
    rw [List.map_cons, List.nodup_cons] at h
    rw [List.foldl_cons, ih h.2]
    by_cases hkl : k = l
    · subst hkl
      rw [lookup_eq_none h.1, List.lookup_cons_self]
      exact Table.find_place_self k p o
    · rw [Table.find_place_of_ne hkl, List.lookup_cons, beq_eq_false_iff_ne.mpr hkl]

variable {fs qs : List (String × Json)}

theorem member?_ofMembers (h : (fs.map (·.1)).Nodup) : (ofMembers fs).member? k = fs.lookup k :=
  (find_foldl_place h).trans (Option.or_none)

/-- A patch changes the members that it names, each as it says. -/
theorem member?_merge (h : (fs.map (·.1)).Nodup) :
    (merge (ofMembers fs) v).member? k = mergeMember (fs.lookup k) (v.member? k) := by
  have hordered := ordered_foldl_place fs (o := []) List.Pairwise.nil
  have hnodup : ((fs.foldl (fun o m => Table.place m.1 m.2 o) []).map (·.1)).Nodup :=
    Table.nodup_keys ⟨_, hordered⟩
  rw [← member?_ofMembers h, member?_eq v]
  exact find_mergeMembers hnodup

example : merge (.object [("a", .string "z"), ("c", .object [("f", .null)])])
    (.object [("a", .string "b"), ("c", .object [("d", .string "e"), ("f", .string "g")])]) =
    .object [("a", .string "z"), ("c", .object [("d", .string "e")])] := by rfl

theorem at?_merge (h : (fs.map (·.1)).Nodup) (hq : (qs.map (·.1)).Nodup)
    (hk : fs.lookup k = some (ofMembers qs)) :
    (merge (ofMembers fs) v).at? k l = mergeMember (qs.lookup l) (v.at? k l) := by
  rw [at?_eq, at?_eq, member?_merge h, hk]
  exact member?_merge hq

end Json
end Hosting
