/-!
The order of keys, and of texts by their code points.
-/

namespace Hosting

/-- A strict order of keys that can be decided, total on distinct keys.  Tables
are kept in this order, so a table is determined by what it holds. -/
class KeyOrder (κ : Type) where
  before : κ → κ → Bool
  irrefl (a : κ) : before a a = false
  trans {a b c : κ} : before a b = true → before b c = true → before a c = true
  total {a b : κ} : before a b = false → before b a = false → a = b

namespace Text

/-- Code point order of texts: the first difference decides, and a text comes
before every longer one that starts with it. -/
def before : List Char → List Char → Bool
  | _, [] => false
  | [], _ :: _ => true
  | a :: as, b :: bs => decide (a.toNat < b.toNat) || (a == b && before as bs)

theorem before_irrefl (a : List Char) : before a a = false := by
  induction a with
  | nil => rfl
  | cons a as ih => simp [before, ih]

theorem before_trans {a b c : List Char} (hab : before a b = true) (hbc : before b c = true) :
    before a c = true := by
  induction a generalizing b c with
  | nil => cases c with
    | nil => cases b <;> simp [before] at hbc
    | cons c cs => rfl
  | cons a as ih =>
    cases b with
    | nil => simp [before] at hab
    | cons b bs =>
      cases c with
      | nil => simp [before] at hbc
      | cons c cs =>
        simp only [before, Bool.or_eq_true, decide_eq_true_eq, Bool.and_eq_true, beq_iff_eq]
          at hab hbc ⊢
        rcases hab with hab | ⟨rfl, hab⟩
        · rcases hbc with hbc | ⟨rfl, _⟩
          · exact Or.inl (Nat.lt_trans hab hbc)
          · exact Or.inl hab
        · rcases hbc with hbc | ⟨rfl, hbc⟩
          · exact Or.inl hbc
          · exact Or.inr ⟨rfl, ih hab hbc⟩

theorem before_total {a b : List Char} (hab : before a b = false) (hba : before b a = false) :
    a = b := by
  induction a generalizing b with
  | nil => cases b with
    | nil => rfl
    | cons b bs => simp [before] at hab
  | cons a as ih =>
    cases b with
    | nil => simp [before] at hba
    | cons b bs =>
      simp only [before, Bool.or_eq_false_iff, decide_eq_false_iff_not, Bool.and_eq_false_iff,
        beq_eq_false_iff_ne] at hab hba
      have hn : a.toNat = b.toNat := by omega
      have hc : a = b := Char.ext (UInt32.toNat_inj.mp hn)
      subst hc
      have h1 : before as bs = false := hab.2.resolve_left (fun h => h rfl)
      have h2 : before bs as = false := hba.2.resolve_left (fun h => h rfl)
      rw [ih h1 h2]

end Text

instance : KeyOrder String where
  before a b := Text.before a.toList b.toList
  irrefl a := Text.before_irrefl a.toList
  trans := Text.before_trans
  total hab hba := String.toList_inj.mp (Text.before_total hab hba)

end Hosting
