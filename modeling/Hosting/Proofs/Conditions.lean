import Hosting.Resource.Condition

/-!
# Entering conditions

Conditions of different types that are entered together are all found afterwards
(`find?_merge`), and no other entry is touched (`besides_merge`).  What is said of a type is
what its entries say in their order, whenever they were made; entering a condition gives
another word to the first of them (`said_merge`), so that only the last word counts
(`foldl_enter_absorb`).
-/

namespace Hosting
namespace Conditions

variable {now : Instant} {new cs : List Condition}

theorem merge_fst_of_nil (h : (merge now new cs).2 = []) : (merge now new cs).1 = cs := by
  induction new generalizing cs with
  | nil => rfl
  | cons c new ih =>
    rw [merge] at h ⊢
    cases hc : set? now c cs with
    | none =>
      rw [hc] at h
      exact ih h
    | some cs' =>
      rw [hc] at h
      cases h

theorem merge_fst_of_found (h : ∀ c ∈ new, (find? cs c.type).any (·.sameState c) = true) :
    (merge now new cs).1 = cs := by
  induction new with
  | nil => rfl
  | cons c new ih =>
    rw [merge, set?_eq_none_iff.mpr (h c List.mem_cons_self)]
    exact ih fun x hx => h x (List.mem_cons_of_mem c hx)

/-- What each entering of a condition upholds holds of them together. -/
theorem merge_rel {R : Conditions → Conditions → Prop} (hrefl : ∀ cs, R cs cs)
    (htrans : ∀ {cs cs' cs''}, R cs cs' → R cs' cs'' → R cs cs'')
    (h : ∀ c ∈ new, ∀ {cs cs'}, set? now c cs = some cs' → R cs cs') :
    R cs (merge now new cs).1 := by
  induction new generalizing cs with
  | nil => exact hrefl cs
  | cons c new ih =>
    have hrest : ∀ cs, R cs (merge now new cs).1 := fun _ =>
      ih fun x hx => h x (List.mem_cons_of_mem c hx)
    rw [merge]
    cases hc : set? now c cs with
    | none => exact hrest cs
    | some cs' => exact htrans (h c List.mem_cons_self hc) (hrest cs')

/-- What no condition changes on its own they do not change together. -/
theorem merge_keeps {α : Type} {f : Conditions → α}
    (h : ∀ c ∈ new, ∀ {cs cs'}, set? now c cs = some cs' → f cs' = f cs) :
    f (merge now new cs).1 = f cs :=
  merge_rel (R := fun cs cs' => f cs' = f cs) (fun _ => rfl) (fun h h' => h'.trans h) h

theorem find?_merge_of_ne {type : String} (h : ∀ c ∈ new, type ≠ c.type) :
    find? (merge now new cs).1 type = find? cs type :=
  merge_keeps (f := (find? · type)) fun c hc _ _ hset => find?_set?_of_ne (h c hc) hset

/-- Of conditions of different types each is found with its state. -/
theorem find?_merge (now : Instant) (cs : List Condition) (h : new.Pairwise (·.type ≠ ·.type))
    {c : Condition} (hc : c ∈ new) :
    (find? (merge now new cs).1 c.type).any (·.sameState c) = true := by
  induction new generalizing cs with
  | nil => cases hc
  | cons x new ih =>
    have hx := List.pairwise_cons.mp h
    rcases List.mem_cons.mp hc with rfl | hmem
    · -- those that follow are of other types
      have hrest : ∀ d ∈ new, c.type ≠ d.type := hx.1
      rw [merge]
      cases hset : set? now c cs with
      | none =>
        dsimp only
        rw [find?_merge_of_ne hrest]
        exact set?_eq_none_iff.mp hset
      | some cs' =>
        dsimp only
        rw [find?_merge_of_ne hrest]
        exact find?_of_set? hset
    · rw [merge]
      cases hset : set? now x cs with
      | none => exact ih cs hx.2 hmem
      | some cs' => exact ih cs' hx.2 hmem

/-! ## The other entries -/

/-- The conditions without the first entry of each of the types. -/
def besides : List String → Conditions → Conditions
  | _, [] => []
  | types, x :: xs =>
    if x.type ∈ types then besides (types.erase x.type) xs else x :: besides types xs

theorem besides_set? {types : List String} {c : Condition} {cs cs' : Conditions}
    (hc : c.type ∈ types) (h : set? now c cs = some cs') :
    besides types cs' = besides types cs := by
  induction cs generalizing cs' types with
  | nil =>
    rw [set?, Option.some.injEq] at h
    subst h
    exact if_pos hc
  | cons x xs ih =>
    rw [set?] at h
    by_cases hx : x.type = c.type
    · rw [if_pos hx, Option.ite_none_left_eq_some, Option.some.injEq] at h
      obtain ⟨-, rfl⟩ := h
      have hx' : x.type ∈ types := hx ▸ hc
      have hmoved : (moved now x c).type = x.type := rfl
      rw [besides, besides, hmoved, if_pos hx', if_pos hx']
    · rw [if_neg hx, Option.map_eq_some_iff] at h
      obtain ⟨ys, hys, rfl⟩ := h
      have hc' : c.type ∈ types.erase x.type := (List.mem_erase_of_ne (Ne.symm hx)).mpr hc
      rw [besides, besides, ih hc' hys, ih hc hys]

theorem besides_merge {types : List String} (h : ∀ c ∈ new, c.type ∈ types) :
    besides types (merge now new cs).1 = besides types cs :=
  merge_keeps fun c hc _ _ hset => besides_set? (h c hc) hset

theorem types_set? {c : Condition} {cs cs' : Conditions} (h : set? now c cs = some cs') :
    cs.map (·.type) <+: cs'.map (·.type) := by
  induction cs generalizing cs' with
  | nil => exact List.nil_prefix
  | cons x xs ih =>
    rw [set?] at h
    by_cases hx : x.type = c.type
    · rw [if_pos hx, Option.ite_none_left_eq_some, Option.some.injEq] at h
      obtain ⟨-, rfl⟩ := h
      exact List.prefix_refl _
    · rw [if_neg hx, Option.map_eq_some_iff] at h
      obtain ⟨ys, hys, rfl⟩ := h
      exact List.cons_prefix_cons.mpr ⟨rfl, ih hys⟩

/-- Entries stay where they are; those that were missing are added after them. -/
theorem types_merge : cs.map (·.type) <+: (merge now new cs).1.map (·.type) :=
  merge_rel (R := fun cs cs' => cs.map (·.type) <+: cs'.map (·.type))
    (fun _ => List.prefix_refl _) List.IsPrefix.trans fun _ _ _ _ hset => types_set? hset

end Conditions

/-! ## What is said -/

/-- Status, reason and message. -/
abbrev Said : Type := Verdict × String × String

def Condition.said (c : Condition) : Said := (c.status, c.reason, c.message)

/-- What a condition says, under its type. -/
def Condition.entry (c : Condition) : String × Said := (c.type, c.said)

theorem Condition.sameState_iff {a b : Condition} : a.sameState b = true ↔ a.said = b.said := by
  simp [sameState, said, and_assoc]

namespace Conditions

variable {now : Instant} {new cs : List Condition}

/-- What the entries of a type say, in their order. -/
def said (cs : Conditions) (type : String) : List Said :=
  (cs.filter (·.type == type)).map Condition.said

/-- The first entry of its type has another word. -/
def enter (view : String → List Said) (e : String × Said) (type : String) : List Said :=
  if type = e.1 then e.2 :: (view type).tail else view type

theorem enter_self (view : String → List Said) (e : String × Said) :
    enter view e e.1 = e.2 :: (view e.1).tail := if_pos rfl

theorem enter_of_ne (view : String → List Said) {e : String × Said} {type : String}
    (h : type ≠ e.1) : enter view e type = view type := if_neg h

theorem enter_of_head? {view : String → List Said} {e : String × Said}
    (h : (view e.1).head? = some e.2) : enter view e = view := by
  funext type
  by_cases ht : type = e.1
  · rw [ht, enter_self]
    obtain ⟨rest, hrest⟩ := List.head?_eq_some_iff.mp h
    rw [hrest, List.tail_cons]
  · exact enter_of_ne view ht

theorem said_cons (x : Condition) (cs : Conditions) (type : String) :
    said (x :: cs) type = if x.type = type then x.said :: said cs type else said cs type := by
  by_cases h : x.type = type <;> simp [said, h]

theorem find?_eq_head?_said (cs : Conditions) (type : String) :
    (find? cs type).map Condition.said = (said cs type).head? := by
  induction cs with
  | nil => rfl
  | cons x xs ih =>
    rw [find?_cons, said_cons]
    split
    · rfl
    · exact ih

theorem said_set? {c : Condition} {cs cs' : Conditions} (h : set? now c cs = some cs') :
    said cs' = enter (said cs) c.entry := by
  funext type
  induction cs generalizing cs' with
  | nil =>
    rw [set?, Option.some.injEq] at h
    subst h
    rw [said_cons]
    by_cases ht : c.type = type
    · rw [if_pos ht, ← ht]
      exact (enter_self (said []) c.entry).symm
    · rw [if_neg ht, enter_of_ne _ (Ne.symm ht)]
  | cons x xs ih =>
    rw [set?] at h
    by_cases hx : x.type = c.type
    · rw [if_pos hx, Option.ite_none_left_eq_some, Option.some.injEq] at h
      obtain ⟨-, rfl⟩ := h
      have hmoved : (moved now x c).type = c.type := hx
      rw [said_cons, hmoved]
      by_cases ht : c.type = type
      · have hold : said (x :: xs) type = x.said :: said xs type := by
          rw [said_cons, if_pos (hx.trans ht)]
        rw [if_pos ht, ← ht]
        refine Eq.trans ?_ (enter_self _ c.entry).symm
        show c.said :: said xs c.type = c.said :: (said (x :: xs) c.type).tail
        rw [ht, hold, List.tail_cons]
      · have hold : said (x :: xs) type = said xs type := by
          rw [said_cons, hx, if_neg ht]
        rw [if_neg ht, enter_of_ne _ (Ne.symm ht), hold]
    · rw [if_neg hx, Option.map_eq_some_iff] at h
      obtain ⟨ys, hys, rfl⟩ := h
      rw [said_cons, ih hys]
      by_cases ht : type = c.type
      · have hold : said (x :: xs) type = said xs type := by
          rw [said_cons, if_neg fun he => hx (he.trans ht)]
        rw [if_neg fun he => hx (he.trans ht), ht]
        rw [ht] at hold
        show enter _ c.entry c.entry.1 = enter _ c.entry c.entry.1
        rw [enter_self, enter_self]
        exact congrArg (fun l => c.said :: List.tail l) hold.symm
      · rw [enter_of_ne _ ht, enter_of_ne _ ht, said_cons]

/-- The first entry of a type says so. -/
theorem head?_said_iff {c : Condition} :
    (said cs c.type).head? = some c.said ↔ (find? cs c.type).any (·.sameState c) = true := by
  rw [← find?_eq_head?_said]
  cases find? cs c.type with
  | none => simp
  | some x => simp [Condition.sameState_iff]

/-- Only what conditions say counts for what is said in the end, not when it is entered. -/
theorem said_merge (now : Instant) (new : List Condition) (cs : Conditions) :
    said (merge now new cs).1 = (new.map Condition.entry).foldl enter (said cs) := by
  induction new generalizing cs with
  | nil => rfl
  | cons c new ih =>
    rw [merge, List.map_cons, List.foldl_cons]
    cases hc : set? now c cs with
    | none =>
      dsimp only
      rw [ih, enter_of_head? (head?_said_iff.mpr (set?_eq_none_iff.mp hc))]
    | some cs' =>
      dsimp only
      rw [ih, said_set? hc]

/-! ### The last word -/

variable {v v' : String → List Said} {es fs : List (String × Said)}

theorem tail_foldl_enter (type : String) :
    (es.foldl enter v type).tail = (v type).tail := by
  induction es generalizing v with
  | nil => rfl
  | cons e es ih =>
    rw [List.foldl_cons, ih]
    unfold enter
    split <;> rfl

theorem foldl_enter_of_notMem {type : String} (h : type ∉ es.map (·.1)) :
    es.foldl enter v type = v type := by
  induction es generalizing v with
  | nil => rfl
  | cons e es ih =>
    rw [List.map_cons, List.mem_cons, not_or] at h
    rw [List.foldl_cons, ih h.2]
    exact if_neg h.1

theorem foldl_enter_congr (htail : ∀ type, (v type).tail = (v' type).tail)
    (hrest : ∀ type, type ∉ es.map (·.1) → v type = v' type) :
    es.foldl enter v = es.foldl enter v' := by
  induction es generalizing v v' with
  | nil => exact funext fun type => hrest type (List.not_mem_nil)
  | cons e es ih =>
    rw [List.foldl_cons, List.foldl_cons]
    refine ih (fun type => ?_) fun type ht => ?_
    · unfold enter
      split
      · exact htail type
      · exact htail type
    · unfold enter
      split
      · rw [htail]
      · next hne =>
        refine hrest type ?_
        rw [List.map_cons, List.mem_cons, not_or]
        exact ⟨hne, ht⟩

/-- What was entered before for types that are entered again leaves no trace. -/
theorem foldl_enter_absorb (h : ∀ e ∈ fs, e.1 ∈ es.map (·.1)) :
    es.foldl enter (fs.foldl enter v) = es.foldl enter v := by
  refine foldl_enter_congr (fun type => tail_foldl_enter type) fun type ht => ?_
  refine foldl_enter_of_notMem fun hmem => ?_
  obtain ⟨e, he, rfl⟩ := List.mem_map.mp hmem
  exact ht (h e he)

theorem foldl_enter_of_head? (h : ∀ e ∈ es, (v e.1).head? = some e.2) :
    es.foldl enter v = v := by
  induction es with
  | nil => rfl
  | cons e es ih =>
    rw [List.foldl_cons, enter_of_head? (h e List.mem_cons_self)]
    exact ih fun x hx => h x (List.mem_cons_of_mem e hx)

end Conditions
end Hosting
