import Hosting.Pass
import Hosting.Proofs.Conditions
import Mathlib.Data.List.Induction

/-!
# Conditions entered one after another

A list of conditions takes in others for as long as its object lives, singly or several at once,
each at the time at which it comes.  What it holds in the end is read off the whole sequence
(`Follows`): the last word of each type, and the time of the last entry that turned its status.
All else stays where it was.  `sequence_laws` says so of every sequence of calls, and tells which
of them report a change.
-/

namespace Hosting
namespace Conditions

/-- A condition, and the time at which it is entered. -/
abbrev Entered : Type := Instant × Condition

/-- The list with a condition entered. -/
def put (e : Entered) (cs : Conditions) : Conditions := (set? e.1 e.2 cs).getD cs

/-- The list with conditions entered one after another. -/
def record (es : List Entered) (cs : Conditions) : Conditions :=
  es.foldl (fun cs e => put e cs) cs

/-- A condition is entered alone, or several in a row. -/
inductive Call where
  | set (now : Instant) (c : Condition)
  | merge (now : Instant) (new : List Condition)

namespace Call

def entries : Call → List Entered
  | .set now c => [(now, c)]
  | .merge now new => new.map fun c => (now, c)

/-- The list after the call. -/
def apply : Call → Conditions → Conditions
  | .set now c, cs => (set? now c cs).getD cs
  | .merge now new, cs => (Conditions.merge now new cs).1

end Call

/-- The list after the calls. -/
def after (calls : List Call) (cs : Conditions) : Conditions :=
  calls.foldl (fun cs k => k.apply cs) cs

variable {now : Instant} {c x : Condition} {e : Entered} {es : List Entered} {cs : Conditions}
  {type : String} {i : Nat}

/-! ## One entry -/

theorem moved_of_sameState (h : x.sameState c = true) : moved now x c = x := by
  simp only [Condition.sameState, Bool.and_eq_true, beq_iff_eq] at h
  obtain ⟨⟨hstatus, hreason⟩, hmessage⟩ := h
  unfold moved
  rw [if_pos hstatus, ← hstatus, ← hreason, ← hmessage]

theorem put_nil : put e [] =
    [{ e.2 with lastTransition := some (e.2.lastTransition.getD e.1) }] := rfl

/-- The first entry of the type takes the state, also when it has it already. -/
theorem put_cons_of_eq (h : x.type = e.2.type) (cs : Conditions) :
    put e (x :: cs) = moved e.1 x e.2 :: cs := by
  unfold put
  rw [set?, if_pos h]
  split
  · next hsame => rw [moved_of_sameState hsame]; rfl
  · rfl

theorem put_cons_of_ne (h : x.type ≠ e.2.type) (cs : Conditions) :
    put e (x :: cs) = x :: put e cs := by
  unfold put
  rw [set?, if_neg h]
  cases set? e.1 e.2 cs <;> rfl

theorem types_put (e : Entered) (cs : Conditions) : (put e cs).map (·.type) =
    cs.map (·.type) ++ if e.2.type ∈ cs.map (·.type) then [] else [e.2.type] := by
  induction cs with
  | nil => rfl
  | cons x xs ih =>
    by_cases h : x.type = e.2.type
    · rw [put_cons_of_eq h, List.map_cons, List.map_cons, ← h, if_pos List.mem_cons_self,
        List.append_nil]
      rfl
    · have hmem : e.2.type ∈ (x :: xs).map (·.type) ↔ e.2.type ∈ xs.map (·.type) := by
        rw [List.map_cons, List.mem_cons, or_iff_right (Ne.symm h)]
      rw [put_cons_of_ne h, List.map_cons, ih, if_congr hmem rfl rfl]
      rfl

/-- The entry at a place is not the first of its type. -/
def Behind (cs : Conditions) (i : Nat) : Prop :=
  ∃ j x y, j < i ∧ cs[j]? = some x ∧ cs[i]? = some y ∧ x.type = y.type

/-- Only the first entry of the type is another one. -/
theorem getElem?_put (hx : cs[i]? = some x) (h : x.type ≠ e.2.type ∨ Behind cs i) :
    (put e cs)[i]? = some x := by
  induction cs generalizing i with
  | nil => cases hx
  | cons y ys ih =>
    by_cases hy : y.type = e.2.type
    · rw [put_cons_of_eq hy]
      cases i with
      | zero =>
        rw [List.getElem?_cons_zero, Option.some.injEq] at hx
        rcases h with h | ⟨j, -, -, hj, -⟩
        · exact absurd (hx ▸ hy) h
        · cases hj
      | succ i => exact hx
    · rw [put_cons_of_ne hy]
      cases i with
      | zero => exact hx
      | succ i =>
        rw [List.getElem?_cons_succ] at hx ⊢
        refine ih hx (h.elim .inl ?_)
        rintro ⟨j, a, b, hj, ha, hb, hab⟩
        rw [List.getElem?_cons_succ, hx, Option.some.injEq] at hb
        cases j with
        | zero =>
          -- the one before is of another type than the condition that is entered
          rw [List.getElem?_cons_zero, Option.some.injEq] at ha
          refine .inl fun hxe => hy ?_
          rw [ha, hab, ← hb, hxe]
        | succ j => exact .inr ⟨j, a, x, Nat.lt_of_succ_lt_succ hj, ha, hx, hab.trans (hb ▸ rfl)⟩

theorem find?_put_of_ne (h : type ≠ e.2.type) : find? (put e cs) type = find? cs type := by
  unfold put
  cases hset : set? e.1 e.2 cs with
  | none => rfl
  | some cs' => exact find?_set?_of_ne h hset

/-- The time that the first entry of its type has once the condition is entered. -/
theorem find?_put_self (e : Entered) (cs : Conditions) : ∃ y, find? (put e cs) e.2.type = some y ∧
    y.said = e.2.said ∧ y.lastTransition =
      if (find? cs e.2.type).map (·.status) = some e.2.status then
        (find? cs e.2.type).bind (·.lastTransition)
      else some (e.2.lastTransition.getD e.1) := by
  induction cs with
  | nil =>
    refine ⟨{ e.2 with lastTransition := some (e.2.lastTransition.getD e.1) }, ?_, rfl, rfl⟩
    rw [put_nil, find?_cons, if_pos rfl]
  | cons x xs ih =>
    by_cases h : x.type = e.2.type
    · refine ⟨moved e.1 x e.2, ?_, rfl, ?_⟩
      · rw [put_cons_of_eq h, find?_cons]
        exact if_pos h
      · rw [find?_cons, if_pos h]
        simp only [moved, Option.map_some, Option.some.injEq, Option.bind_some]
    · rw [put_cons_of_ne h, find?_cons, if_neg h, find?_cons, if_neg h]
      exact ih

/-- A change is reported exactly when there is one. -/
theorem isSome_set?_iff : (set? now c cs).isSome = true ↔ (set? now c cs).getD cs ≠ cs := by
  cases hset : set? now c cs with
  | none => simp
  | some cs' =>
    refine iff_of_true rfl fun hsame => ?_
    have hfound := find?_of_set? hset
    have hsame : cs' = cs := hsame
    rw [hsame] at hfound
    cases hset.symm.trans (set?_eq_none_iff.mpr hfound)

/-! ## A sequence of entries -/

theorem record_append (es fs : List Entered) (cs : Conditions) :
    record (es ++ fs) cs = record fs (record es cs) := List.foldl_append

theorem record_concat (es : List Entered) (e : Entered) (cs : Conditions) :
    record (es ++ [e]) cs = put e (record es cs) := record_append es [e] cs

/-- The entry gives its type another status than the list has for it, or brings it in. -/
def Turns (e : Entered) (cs : Conditions) : Prop :=
  (find? cs e.2.type).map (·.status) ≠ some e.2.status

instance (e : Entered) (cs : Conditions) : Decidable (Turns e cs) :=
  inferInstanceAs (Decidable (_ ≠ _))

/-- Of entries that come in turn, those that turn a status. -/
def turning : List Entered → Conditions → List Entered
  | [], _ => []
  | e :: es, cs => (if Turns e cs then [e] else []) ++ turning es (put e cs)

theorem turning_concat (es : List Entered) (e : Entered) (cs : Conditions) :
    turning (es ++ [e]) cs = turning es cs ++ if Turns e (record es cs) then [e] else [] := by
  induction es generalizing cs with
  | nil => exact List.append_nil _
  | cons f es ih =>
    rw [List.cons_append, turning, turning, ih, List.append_assoc]
    rfl

/-- The last entry for a type. -/
def lastOf (type : String) (es : List Entered) : Option Entered :=
  (es.filter (·.2.type == type)).getLast?

theorem lastOf_concat_self (es : List Entered) (e : Entered) :
    lastOf e.2.type (es ++ [e]) = some e := by
  have hone : [e].filter (·.2.type == e.2.type) = [e] :=
    List.filter_cons_of_pos (beq_self_eq_true _)
  unfold lastOf
  rw [List.filter_append, hone, List.getLast?_concat]

theorem lastOf_concat_of_ne (es : List Entered) (h : type ≠ e.2.type) :
    lastOf type (es ++ [e]) = lastOf type es := by
  unfold lastOf
  rw [List.filter_append, List.filter_cons_of_neg, List.filter_nil, List.append_nil]
  rw [beq_iff_eq]
  exact Ne.symm h

/-- What is said of a type: its last entry, or what the list said before. -/
def lastSaid (type : String) (es : List Entered) (cs : Conditions) : Option Said :=
  match lastOf type es with
  | some e => some e.2.said
  | none => (find? cs type).map Condition.said

/-- The time of a type: that of the last entry that turned its status, which is the time at which
it was entered unless it has one of its own; or the time in the list before. -/
def lastTurn (type : String) (es : List Entered) (cs : Conditions) : Option Instant :=
  match lastOf type (turning es cs) with
  | some e => some (e.2.lastTransition.getD e.1)
  | none => (find? cs type).bind (·.lastTransition)

/-- The list `cs'` is what has become of `cs` by entries that came one after another. -/
structure Follows (cs : Conditions) (es : List Entered) (cs' : Conditions) : Prop where
  /-- Of each type there is one entry, if there was one of each. -/
  distinct : (cs.map (·.type)).Nodup → (cs'.map (·.type)).Nodup
  /-- Types that were missing are added at the end, once each, in the order in which they came. -/
  added : ∃ fresh, cs'.map (·.type) = cs.map (·.type) ++ fresh ∧ fresh.Nodup ∧
    fresh.Sublist (es.map (·.2.type)) ∧
      ∀ type, type ∈ fresh ↔ type ∈ es.map (·.2.type) ∧ type ∉ cs.map (·.type)
  /-- An entry keeps its place; all but the first of a type that was entered is as it was. -/
  others : ∀ i x, cs[i]? = some x → x.type ∉ es.map (·.2.type) ∨ Behind cs i → cs'[i]? = some x
  said : ∀ type, (find? cs' type).map Condition.said = lastSaid type es cs
  time : ∀ type, (find? cs' type).bind (·.lastTransition) = lastTurn type es cs

theorem added_record (es : List Entered) (cs : Conditions) :
    ∃ fresh, (record es cs).map (·.type) = cs.map (·.type) ++ fresh ∧ fresh.Nodup ∧
      fresh.Sublist (es.map (·.2.type)) ∧
        ∀ type, type ∈ fresh ↔ type ∈ es.map (·.2.type) ∧ type ∉ cs.map (·.type) := by
  induction es using List.reverseRecOn with
  | nil => exact ⟨[], (List.append_nil _).symm, List.nodup_nil, List.nil_sublist _, by simp⟩
  | append_singleton es e ih =>
    obtain ⟨fresh, htypes, hnodup, hsub, hmem⟩ := ih
    rw [record_concat, types_put, htypes, List.map_append]
    by_cases he : e.2.type ∈ cs.map (·.type) ++ fresh
    · rw [if_pos he, List.append_nil]
      refine ⟨fresh, rfl, hnodup, hsub.trans (List.sublist_append_left _ _), fun type => ?_⟩
      rw [hmem, List.mem_append, List.map_singleton, List.mem_singleton]
      refine ⟨fun h => ⟨.inl h.1, h.2⟩, fun h => ?_⟩
      rcases h.1 with ht | rfl
      · exact ⟨ht, h.2⟩
      · exact (hmem _).mp ((List.mem_append.mp he).resolve_left h.2)
    · rw [if_neg he]
      rw [List.mem_append, not_or] at he
      refine ⟨fresh ++ [e.2.type], List.append_assoc _ _ _, ?_, ?_, fun type => ?_⟩
      · refine List.nodup_append.mpr
          ⟨hnodup, List.pairwise_singleton _ _, fun a ha b hb hab => he.2 ?_⟩
        rwa [← List.mem_singleton.mp hb, ← hab]
      · exact hsub.append (List.Sublist.refl _)
      · rw [List.mem_append, List.mem_append, hmem, List.map_singleton, List.mem_singleton]
        constructor
        · rintro (h | rfl)
          · exact ⟨.inl h.1, h.2⟩
          · exact ⟨.inr rfl, he.1⟩
        · rintro ⟨h | rfl, hnot⟩
          · exact .inl ⟨h, hnot⟩
          · exact .inr rfl

theorem distinct_record (h : (cs.map (·.type)).Nodup) (es : List Entered) :
    ((record es cs).map (·.type)).Nodup := by
  obtain ⟨fresh, htypes, hnodup, -, hmem⟩ := added_record es cs
  rw [htypes]
  refine List.nodup_append.mpr ⟨h, hnodup, fun a ha b hb hab => ?_⟩
  exact ((hmem b).mp hb).2 (hab ▸ ha)

theorem getElem?_map_type_put (h : cs[i]? = some x) :
    ∃ y, (put e cs)[i]? = some y ∧ y.type = x.type := by
  have htype : ((put e cs).map (·.type))[i]? = some x.type := by
    rw [types_put, List.getElem?_append_left, List.getElem?_map, h]
    · rfl
    · rw [List.length_map]
      exact (List.getElem?_eq_some_iff.mp h).1
  rw [List.getElem?_map, Option.map_eq_some_iff] at htype
  exact htype

theorem Behind.put (h : Behind cs i) (e : Entered) : Behind (Conditions.put e cs) i := by
  obtain ⟨j, x, y, hj, hx, hy, hxy⟩ := h
  obtain ⟨x', hx', htx⟩ := getElem?_map_type_put (e := e) hx
  obtain ⟨y', hy', hty⟩ := getElem?_map_type_put (e := e) hy
  exact ⟨j, x', y', hj, hx', hy', by rw [htx, hty, hxy]⟩

theorem others_record (hx : cs[i]? = some x) (h : x.type ∉ es.map (·.2.type) ∨ Behind cs i) :
    (record es cs)[i]? = some x := by
  induction es generalizing cs with
  | nil => exact hx
  | cons e es ih =>
    rw [List.map_cons, List.mem_cons, not_or] at h
    exact ih (getElem?_put hx (h.imp (·.1) id)) (h.imp (·.2) (·.put e))

theorem said_record (type : String) (es : List Entered) (cs : Conditions) :
    (find? (record es cs) type).map Condition.said = lastSaid type es cs := by
  induction es using List.reverseRecOn with
  | nil => rfl
  | append_singleton es e ih =>
    rw [record_concat]
    by_cases h : type = e.2.type
    · obtain ⟨y, hy, hsaid, -⟩ := find?_put_self e (record es cs)
      rw [h, hy, Option.map_some, hsaid, lastSaid, lastOf_concat_self]
    · rw [find?_put_of_ne h, ih, lastSaid, lastSaid, lastOf_concat_of_ne es h]

theorem time_record (type : String) (es : List Entered) (cs : Conditions) :
    (find? (record es cs) type).bind (·.lastTransition) = lastTurn type es cs := by
  induction es using List.reverseRecOn with
  | nil => rfl
  | append_singleton es e ih =>
    rw [record_concat, lastTurn, turning_concat]
    by_cases h : type = e.2.type
    · obtain ⟨y, hy, -, htime⟩ := find?_put_self e (record es cs)
      rw [h, hy, Option.bind_some, htime]
      by_cases hturn : Turns e (record es cs)
      · rw [if_neg hturn, if_pos hturn, lastOf_concat_self]
      · rw [if_pos (not_not.mp hturn), if_neg hturn, List.append_nil, ← h]
        exact ih
    · have hlast : lastOf type (turning es cs ++ if Turns e (record es cs) then [e] else []) =
          lastOf type (turning es cs) := by
        split
        · exact lastOf_concat_of_ne _ h
        · rw [List.append_nil]
      rw [find?_put_of_ne h, ih, lastTurn, hlast]

theorem follows_record (es : List Entered) (cs : Conditions) : Follows cs es (record es cs) where
  distinct h := distinct_record h es
  added := added_record es cs
  others _ _ hx h := others_record hx h
  said type := said_record type es cs
  time type := time_record type es cs

/-! ## Calls -/

theorem merge_fst_cons (now : Instant) (c : Condition) (new : List Condition) (cs : Conditions) :
    (merge now (c :: new) cs).1 = (merge now new (put (now, c) cs)).1 := by
  unfold put
  rw [merge]
  cases set? now c cs <;> rfl

theorem merge_fst (now : Instant) (new : List Condition) (cs : Conditions) :
    (merge now new cs).1 = record (new.map fun c => (now, c)) cs := by
  induction new generalizing cs with
  | nil => rfl
  | cons c new ih => rw [merge_fst_cons, ih]; rfl

theorem Call.apply_eq (k : Call) (cs : Conditions) : k.apply cs = record k.entries cs := by
  cases k with
  | set now c => rfl
  | merge now new => exact merge_fst now new cs

theorem after_eq (calls : List Call) (cs : Conditions) :
    after calls cs = record (calls.flatMap Call.entries) cs := by
  induction calls generalizing cs with
  | nil => rfl
  | cons k calls ih =>
    rw [List.flatMap_cons, record_append, ← k.apply_eq]
    exact ih _

/-- Of conditions that are entered in a row, those that leave another list than they find. -/
def changing (now : Instant) : List Condition → Conditions → List Condition
  | [], _ => []
  | c :: new, cs =>
    (if put (now, c) cs ≠ cs then [c] else []) ++ changing now new (put (now, c) cs)

theorem merge_snd (now : Instant) (new : List Condition) (cs : Conditions) :
    (merge now new cs).2 = changing now new cs := by
  induction new generalizing cs with
  | nil => rfl
  | cons c new ih =>
    have hreport : (set? now c cs).isSome = true ↔ (set? now c cs).getD cs ≠ cs := isSome_set?_iff
    rw [changing, ← ih, merge]
    unfold put
    cases hset : set? now c cs with
    | none =>
      rw [if_neg fun h => h rfl]
      rfl
    | some cs' =>
      rw [hset] at hreport
      rw [if_pos (hreport.mp rfl)]
      rfl

theorem merge_snd_eq_nil_iff {new : List Condition} : (merge now new cs).2 = [] ↔
    ∀ c ∈ new, (find? cs c.type).any (·.sameState c) = true := by
  induction new generalizing cs with
  | nil => simp [merge]
  | cons c new ih =>
    have hhead : (find? cs c.type).any (·.sameState c) = true ↔ set? now c cs = none :=
      set?_eq_none_iff.symm
    rw [merge, List.forall_mem_cons, hhead]
    cases set? now c cs with
    | none => simp [ih]
    | some cs' => simp

/-- What the call tells of its effect on a list is so. -/
def Call.Reports (cs : Conditions) : Call → Prop
  | .set now c => (set? now c cs).isSome = true ↔ (set? now c cs).getD cs ≠ cs
  | .merge now new => (Conditions.merge now new cs).2 = changing now new cs ∧
    ∀ d : ManagedCluster, d.conditions = cs →
      ((Conditions.merge now new cs).2 = [] ↔ new.all (Pass.shows d) = true)

theorem Call.reports (cs : Conditions) (k : Call) : k.Reports cs := by
  cases k with
  | set now c => exact isSome_set?_iff
  | merge now new =>
    refine ⟨merge_snd now new cs, fun d hd => ?_⟩
    rw [merge_snd_eq_nil_iff, List.all_eq_true]
    subst hd
    exact Iff.rfl

/-- Whatever conditions are entered in a list, at whatever times, it is in the end what follows
from them in their order; and each call on the way reports what it has changed. -/
theorem sequence_laws (cs : Conditions) (calls : List Call) :
    Follows cs (calls.flatMap Call.entries) (after calls cs) ∧
      ∀ before k rest, calls = before ++ k :: rest → k.Reports (after before cs) := by
  refine ⟨?_, fun before k _ _ => k.reports (after before cs)⟩
  rw [after_eq]
  exact follows_record _ cs

end Conditions
end Hosting
