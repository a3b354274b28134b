import Hosting.Proofs.Yaml.Glyph

/-!
# Plain scalars are read back

A text that may be written plainly holds nothing at which the reader of plain scalars stops before
the end of it.
-/

namespace Hosting
namespace Yaml

variable {c : Char} {cs bs done rest : List Char} {i l k indent : Nat}

/-! ## What a plain text holds -/

/-- The text may be written plainly. -/
structure Flat (cs : List Char) : Prop where
  written : IsWritten cs
  line : ∀ c ∈ cs, isBreakChar c = false
  start : cs.head?.any isSpaceChar = false
  last : cs.getLast?.any isSpaceChar = false
  mark : hasMark cs = false

theorem flat_of_admitsPlain (h : admitsPlain cs = true) : Flat cs := by
  simp only [admitsPlain, isClean, startsOrEndsWith, Bool.and_eq_true, Bool.not_eq_true',
    Bool.or_eq_false_iff, List.all_eq_true, List.any_eq_false, Bool.not_eq_true] at h
  obtain ⟨⟨⟨⟨hwritten, -⟩, hline⟩, hstart, hlast⟩, hmark⟩ := h
  exact ⟨hwritten, hline, hstart, hlast, hmark⟩

/-- What the first character of a plain text is not. -/
structure Flat.Head (c : Char) (cs : List Char) : Prop where
  document : beginsAsMark (c :: cs) = false
  start : isStartMark c = false
  word : endsWordChars cs = true → c ≠ '?' ∧ c ≠ ':' ∧ c ≠ '-'
  inner : hasInnerMark false cs = false

theorem Flat.head (h : Flat (c :: cs)) : Flat.Head c cs := by
  have hspace : isSpaceChar c = false := h.start
  have hc : (isBlankChar c || isBreakChar c) = false := by
    rw [isBlankChar_of_isWritable (h.written c List.mem_cons_self), hspace,
      h.line c List.mem_cons_self]
    rfl
  have hmark := h.mark
  rw [hasMark, hc] at hmark
  simp only [Bool.or_eq_false_iff, Bool.and_eq_false_iff, beq_eq_false_iff_ne] at hmark
  obtain ⟨⟨⟨hdocument, hstart⟩, hword⟩, hinner⟩ := hmark
  refine ⟨hdocument, hstart, fun hend => ?_, hinner⟩
  rcases hword with hword | hword
  · exact ⟨hword.1.1, hword.1.2, hword.2⟩
  · rw [hend] at hword
    cases hword

theorem Flat.begins (h : Flat (c :: cs)) : Begins c where
  writable := h.written c List.mem_cons_self
  space := h.start
  line := h.line c List.mem_cons_self
  comment := by
    rintro rfl
    exact absurd h.head.start (by decide)

theorem Flat.inner (h : Flat (c :: cs)) : hasInnerMark false (c :: cs) = false := by
  have hhead := h.head
  have hc : (isBlankChar c || isBreakChar c) = false := by
    rw [h.begins.blank, h.begins.line]
    rfl
  rw [hasInnerMark, hc, hhead.inner, Bool.and_false, Bool.or_false, Bool.or_false]
  cases hend : endsWordChars cs with
  | false => rw [Bool.and_false]
  | true => rw [beq_eq_false_iff_ne.mpr (hhead.word hend).2.1, Bool.false_and]

/-! ## Reading -/

section

variable {g : Glyph} {gs : List Glyph} {gap : Gap}

theorem readPlain_blank (h : g.isBlank = true) (hgap : gap.hasBreak = true → g.char ≠ '\t') :
    readPlain false indent done gap (g :: gs) =
      readPlain false indent done (gap.blank g.char) gs := by
  rw [readPlain, if_pos h, if_neg]
  rw [Bool.and_eq_true, Bool.and_eq_true, decide_eq_true_eq]
  exact fun htab => hgap htab.1.1 htab.1.2

/-- The reader goes on at a character that ends nothing. -/
theorem readPlain_char (hblank : g.isBlank = false) (hline : g.isBreak = false)
    (hdocument : marksDocument (g :: gs) = false)
    (hgap : gap.isEmpty = false → g.char ≠ '#' ∧ indent ≤ g.column)
    (hcolon : g.char = ':' → endsWord gs = false) :
    readPlain false indent done gap (g :: gs) =
      readPlain false indent (g.char :: (gap.text.reverse ++ done)) Gap.none gs := by
  have hgoes : ¬((!gap.isEmpty && decide (g.char = '#')) = true ∨
      (!false && !gap.isEmpty && decide (g.column < indent)) = true) := by
    cases hempty : gap.isEmpty with
    | true => simp
    | false =>
      obtain ⟨hmark, hcolumn⟩ := hgap hempty
      simp [hmark, hcolumn]
  have hword : (decide (g.char = ':') && endsWord gs) = false := by
    cases hg : decide (g.char = ':') with
    | false => rfl
    | true => rw [hcolon (of_decide_eq_true hg), Bool.true_and]
  rw [readPlain, hblank, hline, hdocument]
  simp only [Bool.false_eq_true, if_false, Bool.false_or, Bool.or_eq_true, if_neg hgoes, hword,
    Bool.false_and, Bool.or_false]

/-- After a gap the reader stops at what stands to the left. -/
theorem readPlain_stop (hblank : g.isBlank = false) (hline : g.isBreak = false)
    (hgap : gap.isEmpty = false) (hcolumn : g.column < indent) :
    readPlain false indent done gap (g :: gs) = some ⟨done.reverse, gap.hasBreak, g :: gs⟩ := by
  rw [readPlain, hblank, hline, hgap, decide_eq_true hcolumn]
  simp

/-- A colon at the end of a word ends the scalar. -/
theorem readPlain_colon (hchar : g.char = ':') (hdocument : marksDocument (g :: gs) = false)
    (hend : endsWord gs = true) :
    readPlain false indent done Gap.none (g :: gs) = some ⟨done.reverse, false, g :: gs⟩ := by
  have hblank : g.isBlank = false := by rw [Glyph.isBlank, hchar]; rfl
  have hline : g.isBreak = false := by rw [Glyph.isBreak, hchar]; rfl
  have hempty : Gap.none.isEmpty = true := rfl
  rw [readPlain, hblank, hline, hdocument, hempty, hchar, hend]
  rfl

theorem readPlain_break (h : g.isBreak = true) (hblank : g.isBlank = false) :
    readPlain false indent done gap (g :: gs) =
      readPlain false indent done (gap.newline g.char) gs := by
  rw [readPlain, hblank, h]
  rfl

end

theorem endsWord_glyphsAt (h : endsWordChars cs = false) (hw : IsWritten cs) (i l k : Nat)
    (rest : List Char) : endsWord (glyphsAt i l k (cs ++ rest)) = false := by
  cases cs with
  | nil => cases h
  | cons c cs =>
    have hline : isBreakChar c = false := (Bool.or_eq_false_iff.mp h).2
    rw [List.cons_append, glyphsAt_text hline]
    exact h

/-- A character is read with the spaces before it, which it must not make a mark with. -/
theorem readPlain_letter (hblank : isBlankChar c = false) (hc : isBreakChar c = false)
    (hdocument : marksDocument (glyphsAt i l k (c :: cs)) = false)
    (hgap : bs ≠ [] → c ≠ '#' ∧ indent ≤ k)
    (hword : c = ':' → endsWord (glyphsAt (i + c.utf8Size) l (k + 1) cs) = false) :
    readPlain false indent done (.blanks bs) (glyphsAt i l k (c :: cs)) =
      readPlain false indent (c :: (bs ++ done)) Gap.none
        (glyphsAt (i + c.utf8Size) l (k + 1) cs) := by
  have hg : Glyph.isBlank ⟨c, i, l, k⟩ = false := hblank
  have hempty : (Gap.blanks bs).isEmpty = false → c ≠ '#' ∧ indent ≤ k := by
    intro h
    apply hgap
    rintro rfl
    cases h
  rw [glyphsAt_text hc] at hdocument ⊢
  rw [readPlain_char hg hc hdocument hempty hword, Gap.text, List.reverse_reverse]

theorem getLast?_tail {q : Char → Bool} (h : (c :: cs).getLast?.any q = false) :
    cs.getLast?.any q = false := by
  cases cs with
  | nil => rfl
  | cons d ds => rwa [List.getLast?_cons_cons] at h

/-- A space is passed, and kept back until a character follows. -/
theorem readPlain_space (hw : isWritable c = true) (hc : isBreakChar c = false)
    (hspace : isSpaceChar c = true) (i l k : Nat) (cs : List Char) :
    readPlain false indent done (.blanks bs) (glyphsAt i l k (c :: cs)) =
      readPlain false indent done (.blanks (c :: bs))
        (glyphsAt (i + c.utf8Size) l (k + 1) cs) := by
  have hblank : Glyph.isBlank ⟨c, i, l, k⟩ = true := (isBlankChar_of_isWritable hw).trans hspace
  rw [glyphsAt_text hc, readPlain_blank hblank (by intro h; cases h)]
  rfl

/-- Where there is no mark a colon ends no word, and what follows a space is no comment. -/
theorem noMark_of_hasInnerMark {blank : Bool} (h : hasInnerMark blank (c :: cs) = false)
    (hw : isWritable c = true) (hc : isBreakChar c = false) :
    (c = ':' → endsWordChars cs = false) ∧ (blank = true → c ≠ '#') ∧
      hasInnerMark (isSpaceChar c) cs = false := by
  rw [hasInnerMark, hc, isBlankChar_of_isWritable hw, Bool.or_false] at h
  simp only [Bool.or_eq_false_iff, Bool.and_eq_false_iff, beq_eq_false_iff_ne] at h
  obtain ⟨⟨hcolon, hcomment⟩, hinner⟩ := h
  refine ⟨fun h => hcolon.resolve_left fun hne => hne h, fun h => ?_, hinner⟩
  exact hcomment.resolve_right fun hno => by rw [h] at hno; cases hno

/-- The reader goes on to the end of a plain text.  `bs` are the spaces that it has passed since the
last other character. -/
theorem readPlain_text (hw : IsWritten cs) (hline : ∀ c ∈ cs, isBreakChar c = false)
    (hmark : hasInnerMark (!bs.isEmpty) cs = false) (hlast : cs.getLast?.any isSpaceChar = false)
    (hnil : cs = [] → bs = []) (hdocument : marksDocument (glyphsAt i l k (cs ++ rest)) = false)
    (hindent : indent ≤ k + 1) (hblanks : bs ≠ [] → indent ≤ k) :
    readPlain false indent done (.blanks bs) (glyphsAt i l k (cs ++ rest)) =
      readPlain false indent (cs.reverse ++ (bs ++ done)) Gap.none
        (glyphsAt (i + octets cs) l (k + cs.length) rest) := by
  induction cs generalizing i k bs done with
  | nil =>
    rw [hnil rfl]
    rfl
  | cons c cs ih =>
    rw [isWritten_cons] at hw
    rw [List.forall_mem_cons] at hline
    obtain ⟨hcolon, hcomment, hinner⟩ := noMark_of_hasInnerMark hmark hw.1 hline.1
    have hlast' := getLast?_tail hlast
    have hnext : marksDocument (glyphsAt (i + c.utf8Size) l (k + 1) (cs ++ rest)) = false :=
      marksDocument_glyphsAt (Nat.succ_pos k) _ _ _
    have hplace : i + octets (c :: cs) = i + c.utf8Size + octets cs := by
      rw [octets, Nat.add_assoc]
    have hcolumn : k + (c :: cs).length = k + 1 + cs.length := by
      rw [List.length_cons]
      omega
    rw [List.cons_append] at hdocument ⊢
    rw [hplace, hcolumn]
    cases hspace : isSpaceChar c with
    | true =>
      have hne : cs ≠ [] := by
        rintro rfl
        rw [List.getLast?_singleton, Option.any_some, hspace] at hlast
        cases hlast
      have hreverse : (c :: cs).reverse ++ (bs ++ done) = cs.reverse ++ (c :: bs ++ done) := by simp
      rw [hspace] at hinner
      rw [readPlain_space hw.1 hline.1 hspace, hreverse]
      exact ih hw.2 hline.2 hinner hlast' (fun h => absurd h hne) hnext (by omega)
        (fun _ => by omega)
    | false =>
      have hblank : isBlankChar c = false := (isBlankChar_of_isWritable hw.1).trans hspace
      have hgap : bs ≠ [] → c ≠ '#' ∧ indent ≤ k := by
        intro hbs
        have hpassed : (!bs.isEmpty) = true := by simpa using hbs
        exact ⟨hcomment hpassed, hblanks hbs⟩
      have hword (h : c = ':') :
          endsWord (glyphsAt (i + c.utf8Size) l (k + 1) (cs ++ rest)) = false :=
        endsWord_glyphsAt (hcolon h) hw.2 _ _ _ _
      have hreverse : (c :: cs).reverse ++ (bs ++ done) =
          cs.reverse ++ ([] ++ c :: (bs ++ done)) := by
        simp
      rw [hspace] at hinner
      rw [readPlain_letter hblank hline.1 hdocument hgap hword, hreverse]
      exact ih hw.2 hline.2 hinner hlast' (fun _ => rfl) hnext (by omega) (fun h => absurd rfl h)

/-- A line that begins to the left ends a plain scalar; nothing else is passed on the way there. -/
theorem readPlain_line (h : Outdented indent rest) (i l k : Nat) :
    readPlain false indent done Gap.none (glyphsAt i l k ('\n' :: rest)) =
      some ⟨done.reverse, true, ahead (i + 1) (l + 1) rest⟩ := by
  rw [glyphsAt_newline, readPlain_break rfl rfl]
  cases h with
  | nil => rfl
  | @line j c cs hj hc hcs =>
    rw [ahead_line hc]
    have hpassed (n i k : Nat) : readPlain false indent done (.breaks (some '\n') [])
        (glyphsAt i (l + 1) k (spaces n ++ c :: cs)) =
          readPlain false indent done (.breaks (some '\n') [])
            (glyphsAt (i + n) (l + 1) (k + n) (c :: cs)) := by
      induction n generalizing i k with
      | zero => rfl
      | succ n ih =>
        have hi : i + (n + 1) = i + 1 + n := by omega
        have hk : k + (n + 1) = k + 1 + n := by omega
        have hchar : ' ' ≠ '\t' := by decide
        rw [spaces_succ, List.cons_append, glyphsAt_space, readPlain_blank rfl (fun _ => hchar),
          hi, hk]
        exact ih (i + 1) (k + 1)
    have hbegin := hpassed j (i + 1) 0
    have hblank : Glyph.isBlank ⟨c, i + 1 + j, l + 1, j⟩ = false := hc.blank
    rw [Nat.zero_add, glyphsAt_text hc.line, readPlain_stop hblank hc.line rfl hj] at hbegin
    exact hbegin

theorem beginsAsMark_append (h : beginsAsMark cs = false) (hrest : rest.head? = some ':') :
    beginsAsMark (cs ++ rest) = false := by
  obtain ⟨ds, rfl⟩ : ∃ ds, rest = ':' :: ds := by
    cases rest with
    | nil => cases hrest
    | cons c ds =>
      cases hrest
      exact ⟨ds, rfl⟩
  -- a mark that reached into the rest would be of colons
  match cs, h with
  | [], _ => cases ds with
    | nil => rfl
    | cons d ds => cases ds <;> simp [beginsAsMark]
  | [a], _ => cases ds with
    | nil => rfl
    | cons d ds =>
      simp only [List.singleton_append, beginsAsMark]
      cases ha : a == ':' with
      | false => rfl
      | true => rw [eq_of_beq ha]; simp
  | [a, b], _ =>
    simp only [List.cons_append, List.nil_append, beginsAsMark]
    cases hb : b == ':' with
    | false => rw [Bool.and_false, Bool.false_and]
    | true =>
      rw [eq_of_beq hb]
      cases ha : a == ':' with
      | false => rfl
      | true => rw [eq_of_beq ha]; rfl
  | a :: b :: c :: cs, h => exact h

/-- A plain text before a colon marks no document. -/
theorem marksDocument_flat (h : Flat (c :: cs)) (hrest : rest.head? = some ':')
    (hw : IsWritten rest) (i l k : Nat) :
    marksDocument (glyphsAt i l k (c :: cs ++ rest)) = false := by
  have hno := beginsAsMark_append h.head.document hrest
  rw [← chars_glyphsAt (isWritten_append.mpr ⟨h.written, hw⟩) i l k] at hno
  exact marksDocument_of_chars hno

end Yaml
end Hosting
