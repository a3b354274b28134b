import Hosting.Text.Order

/-!
Finite maps whose entries stand in the order of their keys, so that two maps that hold the
same are equal.  Each operation has a lemma that says what is found after it.
-/

namespace Hosting

/-- A finite map kept in key order. -/
structure Table (κ β : Type) [KeyOrder κ] where
  entries : List (κ × β)
  ordered : entries.Pairwise (fun a b => KeyOrder.before a.1 b.1 = true)

namespace Table

variable {κ β : Type} [KeyOrder κ]

/-! ## Entry lists -/

/-- Put an entry at its place, replacing the one of the same key. -/
def place (k : κ) (v : β) : List (κ × β) → List (κ × β)
  | [] => [(k, v)]
  | e :: es =>
    if KeyOrder.before k e.1 then (k, v) :: e :: es
    else if KeyOrder.before e.1 k then e :: place k v es
    else (k, v) :: es

/-- The value filed under a key. -/
def find (k : κ) : List (κ × β) → Option β
  | [] => none
  | e :: es =>
    if KeyOrder.before k e.1 || KeyOrder.before e.1 k then find k es else some e.2

/-- Drop the entries of a key. -/
def drop (k : κ) (es : List (κ × β)) : List (κ × β) :=
  es.filter fun e => KeyOrder.before k e.1 || KeyOrder.before e.1 k

theorem mem_place {k : κ} {v : β} {es : List (κ × β)} {e : κ × β} (h : e ∈ place k v es) :
    e = (k, v) ∨ e ∈ es := by
  induction es with
  | nil => exact Or.inl (by simpa [place] using h)
  | cons x xs ih =>
    unfold place at h
    split at h
    · simpa using h
    · split at h
      · rcases List.mem_cons.mp h with h | h
        · exact Or.inr (by simp [h])
        · exact (ih h).imp_right (List.mem_cons_of_mem _)
      · rcases List.mem_cons.mp h with h | h
        · exact Or.inl h
        · exact Or.inr (List.mem_cons_of_mem _ h)

theorem place_ordered (k : κ) (v : β) {es : List (κ × β)}
    (h : es.Pairwise (fun a b => KeyOrder.before a.1 b.1 = true)) :
    (place k v es).Pairwise (fun a b => KeyOrder.before a.1 b.1 = true) := by
  induction es with
  | nil => simp [place]
  | cons x xs ih =>
    have hx := List.pairwise_cons.mp h
    unfold place
    split
    · next hk =>
      refine List.pairwise_cons.mpr ⟨fun y hy => ?_, h⟩
      rcases List.mem_cons.mp hy with rfl | hy
      · exact hk
      · exact KeyOrder.trans hk (hx.1 y hy)
    · next hk =>
      split
      · next hk' =>
        refine List.pairwise_cons.mpr ⟨fun y hy => ?_, ih hx.2⟩
        rcases mem_place hy with rfl | hy
        · exact hk'
        · exact hx.1 y hy
      · next hk' =>
        have he : k = x.1 := KeyOrder.total (by simpa using hk) (by simpa using hk')
        exact List.pairwise_cons.mpr ⟨fun y hy => by simpa [he] using hx.1 y hy, hx.2⟩

/-! ## Tables -/

def empty : Table κ β := ⟨[], List.Pairwise.nil⟩

instance : Inhabited (Table κ β) := ⟨empty⟩

def get? (t : Table κ β) (k : κ) : Option β := find k t.entries

def contains (t : Table κ β) (k : κ) : Bool := (t.get? k).isSome

def insert (t : Table κ β) (k : κ) (v : β) : Table κ β :=
  ⟨place k v t.entries, place_ordered k v t.ordered⟩

def erase (t : Table κ β) (k : κ) : Table κ β :=
  ⟨drop k t.entries, t.ordered.filter _⟩

def keys (t : Table κ β) : List κ := t.entries.map (·.1)

def values (t : Table κ β) : List β := t.entries.map (·.2)

/-- The table of the given entries; of two for one key the later wins. -/
def ofList (es : List (κ × β)) : Table κ β :=
  es.foldl (fun t e => t.insert e.1 e.2) empty

/-- All entries of `t`, overridden by those of `u`. -/
def extend (t u : Table κ β) : Table κ β :=
  u.entries.foldl (fun t e => t.insert e.1 e.2) t

def singleton (k : κ) (v : β) : Table κ β := empty.insert k v

instance [DecidableEq κ] [DecidableEq β] : DecidableEq (Table κ β) := fun t u =>
  if h : t.entries = u.entries then isTrue (by cases t; cases u; cases h; rfl)
  else isFalse (fun e => h (by rw [e]))

/-! ## What a table holds -/

theorem find_place_self (k : κ) (v : β) (es : List (κ × β)) :
    find k (place k v es) = some v := by
  induction es with
  | nil => simp [place, find, KeyOrder.irrefl]
  | cons x xs ih =>
    unfold place
    split
    · simp [find, KeyOrder.irrefl]
    · next hk =>
      split
      · next hk' => simp [find, hk', ih]
      · simp [find, KeyOrder.irrefl]

theorem before_of_ne {a b : κ} (h : a ≠ b) :
    (KeyOrder.before a b || KeyOrder.before b a) = true := by
  cases hab : KeyOrder.before a b with
  | true => rfl
  | false =>
    cases hba : KeyOrder.before b a with
    | true => rfl
    | false => exact absurd (KeyOrder.total hab hba) h

theorem find_place_of_ne {k k' : κ} (h : k' ≠ k) (v : β) (es : List (κ × β)) :
    find k' (place k v es) = find k' es := by
  induction es with
  | nil => simp [place, find, before_of_ne h]
  | cons x xs ih =>
    unfold place
    split
    · simp [find, before_of_ne h]
    · next hk =>
      split
      · simp [find, ih]
      · next hk' =>
        have he : k = x.1 := KeyOrder.total (by simpa using hk) (by simpa using hk')
        subst he
        simp [find, before_of_ne h]

theorem find_drop_self (k : κ) (es : List (κ × β)) : find k (drop k es) = none := by
  induction es with
  | nil => rfl
  | cons x xs ih =>
    unfold drop at ih ⊢
    rw [List.filter_cons]
    split
    · next h => simp only [find, h, if_true]; exact ih
    · exact ih

theorem find_drop_of_ne {k k' : κ} (h : k' ≠ k) (es : List (κ × β)) :
    find k' (drop k es) = find k' es := by
  induction es with
  | nil => rfl
  | cons x xs ih =>
    unfold drop at ih ⊢
    rw [List.filter_cons]
    split
    · simp only [find, ih]
    · next hk =>
      simp only [Bool.or_eq_true, not_or, Bool.not_eq_true] at hk
      have he : k = x.1 := KeyOrder.total hk.1 hk.2
      subst he
      simp only [find, before_of_ne h, if_true]
      exact ih

@[simp] theorem get?_empty (k : κ) : (empty : Table κ β).get? k = none := rfl

@[simp] theorem get?_insert_self (t : Table κ β) (k : κ) (v : β) :
    (t.insert k v).get? k = some v :=
  find_place_self k v t.entries

theorem get?_insert_of_ne (t : Table κ β) {k k' : κ} (h : k' ≠ k) (v : β) :
    (t.insert k v).get? k' = t.get? k' :=
  find_place_of_ne h v t.entries

@[simp] theorem get?_erase_self (t : Table κ β) (k : κ) : (t.erase k).get? k = none :=
  find_drop_self k t.entries

theorem get?_erase_of_ne (t : Table κ β) {k k' : κ} (h : k' ≠ k) :
    (t.erase k).get? k' = t.get? k' :=
  find_drop_of_ne h t.entries

end Table

end Hosting
