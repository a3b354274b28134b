import Hosting.Text.Blank

/-!
# Pieces of a text

A text is cut at the separators that it holds, so that pieces without one are found again.
-/

namespace Hosting
namespace Text

theorem splitAt_of_notMem {c : Char} {cs : List Char} (h : c ∉ cs) : splitAt c cs = [cs] := by
  induction cs with
  | nil => rfl
  | cons x xs ih =>
    rw [List.mem_cons, not_or] at h
    rw [splitAt, if_neg (Ne.symm h.1), ih h.2]

theorem splitAt_ne_nil (c : Char) (cs : List Char) : splitAt c cs ≠ [] := by
  cases cs with
  | nil => simp [splitAt]
  | cons x xs =>
    unfold splitAt
    split
    · simp
    · split <;> simp

/-- What stands before all separators is the beginning of the first piece. -/
theorem splitAt_append {c : Char} {p : List Char} (h : c ∉ p) (cs : List Char) :
    ∃ x xs, splitAt c (p ++ cs) = (p ++ x) :: xs := by
  induction p with
  | nil => exact List.exists_cons_of_ne_nil (splitAt_ne_nil c cs)
  | cons y ys ih =>
    rw [List.mem_cons, not_or] at h
    obtain ⟨x, xs, hsplit⟩ := ih h.2
    refine ⟨x, xs, ?_⟩
    rw [List.cons_append, splitAt, if_neg (Ne.symm h.1), hsplit]
    rfl

theorem cutAt?_append_cons {c : Char} {p : List Char} (h : c ∉ p) (r : List Char) :
    cutAt? c (p ++ c :: r) = some (p, r) := by
  induction p with
  | nil => exact if_pos rfl
  | cons x xs ih =>
    rw [List.mem_cons, not_or] at h
    rw [List.cons_append, cutAt?, if_neg (Ne.symm h.1), ih h.2]
    rfl

/-- A piece without a separator is the first one before it. -/
theorem splitAt_append_cons {c : Char} {p : List Char} (h : c ∉ p) (r : List Char) :
    splitAt c (p ++ c :: r) = p :: splitAt c r := by
  induction p with
  | nil => exact if_pos rfl
  | cons x xs ih =>
    rw [List.mem_cons, not_or] at h
    rw [List.cons_append, splitAt, if_neg (Ne.symm h.1), ih h.2]

/-- Pieces that begin with a separator each, and hold no other one, come after nothing. -/
theorem splitAt_flatMap_cons {c : Char} {ps : List (List Char)} (h : ∀ p ∈ ps, c ∉ p) :
    splitAt c (ps.flatMap fun p => c :: p) = [] :: ps := by
  induction ps with
  | nil => rfl
  | cons p ps ih =>
    rw [List.forall_mem_cons] at h
    rw [List.flatMap_cons, List.cons_append, splitAt, if_pos rfl]
    cases ps with
    | nil => rw [List.flatMap_nil, List.append_nil, splitAt_of_notMem h.1]
    | cons q qs =>
      have hrest := ih h.2
      rw [List.flatMap_cons, List.cons_append, splitAt, if_pos rfl, List.cons.injEq] at hrest
      rw [List.flatMap_cons, List.cons_append, splitAt_append_cons h.1, hrest.2]

/-- Texts with nothing between them. -/
theorem toList_join (ss : List String) : (join "" ss).toList = ss.flatMap String.toList := by
  induction ss with
  | nil => rfl
  | cons s ss ih =>
    cases ss with
    | nil => simp [join]
    | cons t ts =>
      show (s ++ "" ++ join "" (t :: ts)).toList = _
      rw [String.toList_append, ih, String.append_empty]
      rfl

end Text
end Hosting
