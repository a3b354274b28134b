import Hosting.Json

/-!
# When agreeing values are the same

Values that agree may still differ, as floating-point zeros of both signs do, and what is
not a number does not even agree with itself.  A value without floating-point numbers agrees
with itself (`agrees_self_of_isExact`) and with nothing else (`eq_of_agrees`).
-/

namespace Hosting
namespace Json

mutual

/-- There is no floating-point number in the value. -/
def isExact : Json → Bool
  | .float _ => false
  | .array vs => areExact vs
  | .object ms => membersExact ms
  | _ => true

def areExact : List Json → Bool
  | [] => true
  | v :: vs => v.isExact && areExact vs

def membersExact : List (String × Json) → Bool
  | [] => true
  | m :: ms => m.2.isExact && membersExact ms

end

mutual

theorem eq_of_agrees : ∀ {a b : Json}, b.isExact = true → agrees a b = true → a = b
  | .null, b, _, h => by cases b <;> first | rfl | cases h
  | .bool x, b, _, h => by
    cases b with
    | bool y => exact congrArg bool (beq_iff_eq.mp h)
    | _ => cases h
  | .int x, b, _, h => by
    cases b with
    | int y => exact congrArg int (beq_iff_eq.mp h)
    | _ => cases h
  | .float x, b, hb, h => by
    cases b with
    | float y => cases hb
    | _ => cases h
  | .string x, b, _, h => by
    cases b with
    | string y => exact congrArg string (beq_iff_eq.mp h)
    | _ => cases h
  | .array vs, b, hb, h => by
    cases b with
    | array us => exact congrArg array (eq_of_agreesItems hb h)
    | _ => cases h
  | .object ms, b, hb, h => by
    cases b with
    | object ns => exact congrArg object (eq_of_agreesMembers hb h)
    | _ => cases h

theorem eq_of_agreesItems : ∀ {as bs : List Json}, areExact bs = true →
    agreesItems as bs = true → as = bs
  | [], [], _, _ => rfl
  | [], _ :: _, _, h => by cases h
  | _ :: _, [], _, h => by cases h
  | a :: as, b :: bs, hb, h => by
    rw [areExact, Bool.and_eq_true] at hb
    rw [agreesItems, Bool.and_eq_true] at h
    rw [eq_of_agrees hb.1 h.1, eq_of_agreesItems hb.2 h.2]

theorem eq_of_agreesMembers : ∀ {as bs : List (String × Json)}, membersExact bs = true →
    agreesMembers as bs = true → as = bs
  | [], [], _, _ => rfl
  | [], _ :: _, _, h => by cases h
  | _ :: _, [], _, h => by cases h
  | (k, a) :: as, (l, b) :: bs, hb, h => by
    rw [membersExact, Bool.and_eq_true] at hb
    rw [agreesMembers, Bool.and_eq_true, Bool.and_eq_true, beq_iff_eq] at h
    have hk : k = l := h.1.1
    have hv : a = b := eq_of_agrees hb.1 h.1.2
    rw [hk, hv, eq_of_agreesMembers hb.2 h.2]

end

/-! ## Values that agree with themselves -/

theorem agreesItems_self_iff {vs : List Json} :
    agreesItems vs vs = true ↔ ∀ v ∈ vs, v.agrees v = true := by
  induction vs with
  | nil => simp [agreesItems]
  | cons v vs ih => simp [agreesItems, ih]

theorem agreesMembers_self_iff {ms : List (String × Json)} :
    agreesMembers ms ms = true ↔ ∀ m ∈ ms, m.2.agrees m.2 = true := by
  induction ms with
  | nil => simp [agreesMembers]
  | cons m ms ih => simp [agreesMembers, ih]

mutual

theorem agrees_self_of_isExact : ∀ {v : Json}, v.isExact = true → v.agrees v = true
  | .null, _ => rfl
  | .bool b, _ => beq_self_eq_true b
  | .int n, _ => beq_self_eq_true n
  | .string s, _ => beq_self_eq_true s
  | .array vs, h => agreesItems_self_of_areExact vs h
  | .object ms, h => agreesMembers_self_of_membersExact ms h

theorem agreesItems_self_of_areExact : ∀ vs : List Json, areExact vs = true →
    agreesItems vs vs = true
  | [], _ => rfl
  | v :: vs, h => by
    rw [areExact, Bool.and_eq_true] at h
    rw [agreesItems, agrees_self_of_isExact h.1, agreesItems_self_of_areExact vs h.2]
    rfl

theorem agreesMembers_self_of_membersExact : ∀ ms : List (String × Json),
    membersExact ms = true → agreesMembers ms ms = true
  | [], _ => rfl
  | (k, v) :: ms, h => by
    rw [membersExact, Bool.and_eq_true] at h
    rw [agreesMembers, agrees_self_of_isExact h.1, agreesMembers_self_of_membersExact ms h.2,
      beq_self_eq_true]
    rfl

end

/-! ## Members -/

/-- What holds of all given members holds of all members of the object. -/
theorem forall_ofMembers {P : Json → Prop} {ms : List (String × Json)} (h : ∀ m ∈ ms, P m.2) :
    ∃ os, ofMembers ms = .object os ∧ ∀ m ∈ os, P m.2 := by
  have hplaced (o : List (String × Json)) (ho : ∀ m ∈ o, P m.2) :
      ∀ m ∈ ms.foldl (fun o m => Table.place m.1 m.2 o) o, P m.2 := by
    induction ms generalizing o with
    | nil => exact ho
    | cons x ms ih =>
      refine ih (fun m hm => h m (List.mem_cons_of_mem x hm)) _ fun m hm => ?_
      rcases Table.mem_place hm with rfl | hm
      · exact h x List.mem_cons_self
      · exact ho m hm
  exact ⟨_, rfl, hplaced [] fun m hm => nomatch hm⟩

theorem membersExact_iff {ms : List (String × Json)} :
    membersExact ms = true ↔ ∀ m ∈ ms, m.2.isExact = true := by
  induction ms with
  | nil => simp [membersExact]
  | cons m ms ih => simp [membersExact, ih]

theorem isExact_ofMembers {ms : List (String × Json)} (h : ∀ m ∈ ms, m.2.isExact = true) :
    (ofMembers ms).isExact = true := by
  obtain ⟨os, hos, hexact⟩ := forall_ofMembers (P := fun v => v.isExact = true) h
  rw [hos]
  exact membersExact_iff.mpr hexact

theorem member?_ofMembers_append (ms : List (String × Json)) (k : String) (v : Json) :
    (ofMembers (ms ++ [(k, v)])).member? k = some v := by
  unfold ofMembers member?
  rw [List.foldl_append]
  exact Table.find_place_self k v _

end Json
end Hosting
