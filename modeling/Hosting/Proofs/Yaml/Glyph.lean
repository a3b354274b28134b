import Hosting.Yaml.Token.Stream
import Hosting.Yaml.Written

/-!
# Glyphs of what is written

Everything that is written is of characters that need no escape, so that each of them is a glyph of
its own, and a break is the character that it was.  What stands after a value is nothing or a line
to the left of it (`Outdented`), and readers skip the spaces that it begins with (`ahead`).
-/

namespace Hosting
namespace Yaml

/-! ## Characters -/

variable {c d : Char} {cs rest : List Char} {i l k j : Nat}

theorem ne_of_isWritable (h : isWritable c = true) (hd : isWritable d = false) : c ≠ d := by
  rintro rfl
  rw [h] at hd
  cases hd

theorem isAllowed_of_isWritable (h : isWritable c = true) : isAllowed c = true := by
  unfold isWritable at h
  unfold isAllowed
  simp only [Bool.or_eq_true, Bool.and_eq_true, decide_eq_true_eq, beq_iff_eq] at h ⊢
  omega

theorem isBlankChar_of_isWritable (h : isWritable c = true) : isBlankChar c = isSpaceChar c := by
  have htab : c ≠ '\t' := ne_of_isWritable h (by decide)
  unfold isBlankChar isSpaceChar
  rw [beq_eq_false_iff_ne.mpr htab, Bool.or_false]

theorem isBlankChar_of_isBreakChar (h : isBreakChar c = true) : isBlankChar c = false := by
  simp only [isBreakChar, Bool.or_eq_true, beq_iff_eq] at h
  rcases h with (((rfl | rfl) | rfl) | rfl) | rfl <;> rfl

/-- The text is of characters that need no escape. -/
def IsWritten (cs : List Char) : Prop := ∀ c ∈ cs, isWritable c = true

instance : Decidable (IsWritten cs) :=
  decidable_of_iff (cs.all isWritable = true) List.all_eq_true

@[simp] theorem isWritten_cons : IsWritten (c :: cs) ↔ isWritable c = true ∧ IsWritten cs :=
  List.forall_mem_cons

@[simp] theorem isWritten_append : IsWritten (cs ++ rest) ↔ IsWritten cs ∧ IsWritten rest :=
  List.forall_mem_append

@[simp] theorem isWritten_nil : IsWritten [] := fun _ h => nomatch h

@[simp] theorem isWritten_spaces (n : Nat) : IsWritten (spaces n) := by
  intro c hc
  rw [List.eq_of_mem_replicate hc]
  decide

theorem spaces_succ (n : Nat) : spaces (n + 1) = ' ' :: spaces n := rfl

/-! ## Glyphs -/

theorem glyphsAt_text (h : isBreakChar c = false) (i l k : Nat) (cs : List Char) :
    glyphsAt i l k (c :: cs) = ⟨c, i, l, k⟩ :: glyphsAt (i + c.utf8Size) l (k + 1) cs := by
  have hreturn : c ≠ '\r' := by
    rintro rfl
    exact absurd h (by decide)
  rw [glyphsAt, if_neg (Bool.eq_false_iff.mp h)]
  intro ds hc
  exact absurd hc hreturn

theorem glyphsAt_break (hw : isWritable c = true) (h : isBreakChar c = true) (i l k : Nat)
    (cs : List Char) :
    glyphsAt i l k (c :: cs) = ⟨c, i, l, k⟩ :: glyphsAt (i + c.utf8Size) (l + 1) 0 cs := by
  have hreturn : c ≠ '\r' := ne_of_isWritable hw (by decide)
  have hnext : c ≠ '\u0085' := ne_of_isWritable hw (by decide)
  have hkept : ¬(c = '\r' ∨ c = '\u0085') := not_or.mpr ⟨hreturn, hnext⟩
  rw [glyphsAt, if_pos h]
  · simp only [Bool.or_eq_true, decide_eq_true_eq, if_neg hkept]
  · intro ds hc
    exact absurd hc hreturn

theorem glyphsAt_space (i l k : Nat) (cs : List Char) :
    glyphsAt i l k (' ' :: cs) = ⟨' ', i, l, k⟩ :: glyphsAt (i + 1) l (k + 1) cs :=
  glyphsAt_text rfl i l k cs

theorem glyphsAt_newline (i l k : Nat) (cs : List Char) :
    glyphsAt i l k ('\n' :: cs) = ⟨'\n', i, l, k⟩ :: glyphsAt (i + 1) (l + 1) 0 cs :=
  glyphsAt_break rfl rfl i l k cs

/-- Each character that is written is a glyph of its own. -/
theorem chars_glyphsAt (h : IsWritten cs) (i l k : Nat) : chars (glyphsAt i l k cs) = cs := by
  induction cs generalizing i l k with
  | nil => rfl
  | cons c cs ih =>
    rw [isWritten_cons] at h
    cases hb : isBreakChar c with
    | true => rw [glyphsAt_break h.1 hb, chars, List.map_cons, ← chars, ih h.2]
    | false => rw [glyphsAt_text hb, chars, List.map_cons, ← chars, ih h.2]

theorem length_glyphsAt (h : IsWritten cs) (i l k : Nat) :
    (glyphsAt i l k cs).length = cs.length := by
  rw [← congrArg List.length (chars_glyphsAt h i l k), chars, List.length_map]

theorem glyphs?_of_isWritten (h : IsWritten cs) : glyphs? cs = some (glyphsAt 0 0 0 cs) := by
  have hall : cs.all isAllowed = true :=
    List.all_eq_true.mpr fun c hc => isAllowed_of_isWritable (h c hc)
  unfold glyphs?
  rw [if_pos hall]

/-! ## What stands after a value -/

/-- A line may begin so. -/
structure Begins (c : Char) : Prop where
  writable : isWritable c = true
  space : isSpaceChar c = false
  line : isBreakChar c = false
  comment : c ≠ '#'

theorem Begins.ne_space (h : Begins c) : c ≠ ' ' := fun hc => by
  have := h.space
  rw [hc] at this
  cases this

theorem Begins.blank (h : Begins c) : isBlankChar c = false :=
  (isBlankChar_of_isWritable h.writable).trans h.space

/-- Nothing, or lines of which the first begins at a column before `k`. -/
inductive Outdented (k : Nat) : List Char → Prop where
  | nil : Outdented k []
  | line {j : Nat} {c : Char} {cs : List Char} (hj : j < k) (hc : Begins c)
      (hcs : IsWritten cs) : Outdented k (spaces j ++ c :: cs)

theorem Outdented.mono {k' : Nat} (h : Outdented k rest) (hk : k ≤ k') : Outdented k' rest := by
  cases h with
  | nil => exact .nil
  | line hj hc hcs => exact .line (Nat.lt_of_lt_of_le hj hk) hc hcs

theorem Outdented.isWritten (h : Outdented k rest) : IsWritten rest := by
  cases h with
  | nil => exact isWritten_nil
  | line _ hc hcs =>
    exact isWritten_append.mpr ⟨isWritten_spaces _, isWritten_cons.mpr ⟨hc.writable, hcs⟩⟩

/-- The glyphs of lines, without the spaces that the first begins with. -/
def ahead (i l : Nat) (cs : List Char) : List Glyph :=
  glyphsAt (i + (cs.takeWhile isSpaceChar).length) l (cs.takeWhile isSpaceChar).length
    (cs.dropWhile isSpaceChar)

theorem ahead_nil (i l : Nat) : ahead i l [] = [] := rfl

theorem takeWhile_spaces (hc : isSpaceChar c = false) (j : Nat) (cs : List Char) :
    (spaces j ++ c :: cs).takeWhile isSpaceChar = spaces j ∧
      (spaces j ++ c :: cs).dropWhile isSpaceChar = c :: cs := by
  have hall : ∀ d ∈ spaces j, isSpaceChar d = true := by
    intro d hd
    rw [List.eq_of_mem_replicate hd]
    rfl
  rw [List.takeWhile_append_of_pos hall, List.dropWhile_append_of_pos hall, List.takeWhile_cons,
    List.dropWhile_cons, hc]
  exact ⟨List.append_nil _, rfl⟩

theorem ahead_spaces (hc : isSpaceChar c = false) (i l j : Nat) (cs : List Char) :
    ahead i l (spaces j ++ c :: cs) = glyphsAt (i + j) l j (c :: cs) := by
  obtain ⟨htake, hdrop⟩ := takeWhile_spaces hc j cs
  unfold ahead
  rw [htake, hdrop, spaces, List.length_replicate]

theorem ahead_line (hc : Begins c) (i l j : Nat) (cs : List Char) :
    ahead i l (spaces j ++ c :: cs) =
      ⟨c, i + j, l, j⟩ :: glyphsAt (i + j + c.utf8Size) l (j + 1) cs := by
  rw [ahead_spaces hc.space, glyphsAt_text hc.line]

theorem length_ahead_le (h : IsWritten cs) (i l : Nat) : (ahead i l cs).length ≤ cs.length := by
  have hdrop : IsWritten (cs.dropWhile isSpaceChar) := fun c hc =>
    h c ((List.dropWhile_suffix isSpaceChar).subset hc)
  unfold ahead
  rw [length_glyphsAt hdrop]
  exact (List.dropWhile_suffix isSpaceChar).length_le

/-! ## Marks of documents -/

theorem marksDocument_of_column {g : Glyph} (h : g.column ≠ 0) (gs : List Glyph) :
    marksDocument (g :: gs) = false := by
  unfold marksDocument
  split
  · next heq =>
    injection heq with hg
    rw [← hg, beq_eq_false_iff_ne.mpr h]
    rfl
  · rfl

theorem column_of_glyphsAt {g : Glyph} {gs : List Glyph} (h : glyphsAt i l k cs = g :: gs) :
    g.column = k := by
  unfold glyphsAt at h
  split at h
  · cases h
  · cases h
    rfl
  · split at h <;> cases h <;> rfl

/-- The characters of a mark are those that a text must not begin with. -/
theorem marksDocument_of_chars {gs : List Glyph} (h : beginsAsMark (chars gs) = false) :
    marksDocument gs = false := by
  match gs with
  | [] | [_] | [_, _] => rfl
  | a :: b :: c :: gs =>
    have hmark : (a.char == b.char && b.char == c.char &&
      (a.char == '-' || a.char == '.')) = false := h
    rw [marksDocument, Bool.and_assoc (a.column == 0), Bool.and_assoc (a.column == 0), hmark,
      Bool.and_false, Bool.false_and]

/-- A document is only marked at the beginning of a line. -/
theorem marksDocument_glyphsAt (h : 0 < k) (i l : Nat) (cs : List Char) :
    marksDocument (glyphsAt i l k cs) = false := by
  cases hcs : glyphsAt i l k cs with
  | nil => rfl
  | cons g gs =>
    have hcolumn := column_of_glyphsAt hcs
    exact marksDocument_of_column (by omega) gs

/-- How many octets the characters take. -/
def octets : List Char → Nat
  | [] => 0
  | c :: cs => c.utf8Size + octets cs

end Yaml
end Hosting
