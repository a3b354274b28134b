import Hosting.Proofs.Yaml.Token.Literal
import Hosting.Proofs.Yaml.Token.Plain
import Hosting.Proofs.Yaml.Token.Quoted
import Hosting.Proofs.Yaml.Token.Stream

/-!
# Scalars that are values

A text that stands deeper than the block that it is in is cut as one token, in whatever style it is
written, and cutting goes on at the next line.  Such a scalar may be noted for a possible key, but
never for one that must be.
-/

namespace Hosting
namespace Yaml

variable {c : Char} {cs rest : List Char} {i l k p : Nat} {g : Glyph} {gs hs : List Glyph}
  {ts us : List Token} {is : List Nat} {s : Option KeyStart} {a : Bool} {b d e : Cutter}

open Cutter (block)

/-- The start that may be noted for a scalar within a block that it lies deeper than. -/
theorem saveStart?_within {l : Nat} (hp : p < g.column) (hl : g.line ≤ l) :
    ∃ s', Settled (l + 1) s' ∧
      (block ts (p :: is) none a).saveStart? g = some (block ts (p :: is) s' a) := by
  cases a with
  | false => exact ⟨none, settled_none _, rfl⟩
  | true =>
    have hrequired : ((block ts (p :: is) none true).indent == (g.column : Int)) = false :=
      beq_eq_false_iff_ne.mpr (by show (p : Int) ≠ _; omega)
    refine ⟨some ⟨ts.length, g.index, g.line, g.column, false⟩, ?_, ?_⟩
    · intro k hk
      obtain rfl := Option.some.inj hk
      exact ⟨by show g.line < l + 1; omega, rfl⟩
    · unfold Cutter.saveStart?
      rw [hrequired, Bool.and_false]
      rfl

theorem isIndicator_cases (h : isIndicator c = true) :
    c = '-' ∨ c = '?' ∨ c = ':' ∨ isStartMark c = true := by
  have hlist : "-?:,[]\x7b\x7d#&*!|>\x27\"%@\x60".toList = ['-', '?', ':', ',', '[', ']', '\x7b',
    '\x7d', '#', '&', '*', '!', '|', '>', '\'', '"', '%', '@', '\x60'] := by decide
  unfold isIndicator at h
  rw [hlist, List.contains_iff_mem] at h
  simp only [List.mem_cons, List.not_mem_nil, or_false] at h
  rcases h with rfl | rfl | rfl | h
  · exact Or.inl rfl
  · exact Or.inr (Or.inl rfl)
  · exact Or.inr (Or.inr (Or.inl rfl))
  · refine Or.inr (Or.inr (Or.inr ?_))
    rcases h with rfl | rfl | rfl | rfl | rfl | rfl | rfl | rfl | rfl | rfl | rfl | rfl | rfl |
      rfl | rfl | rfl <;> decide

/-- What a plain text begins with admits a plain scalar. -/
theorem beginsPlain (h : Flat (c :: cs))
    (hword : endsWord gs = true → c ≠ '?' ∧ c ≠ ':' ∧ c ≠ '-') :
    ((!isBlankChar c && !isIndicator c) || (decide (c = '-') && !gs.head?.any Glyph.isBlank) ||
      ((decide (c = '?') || decide (c = ':')) && !endsWord gs)) = true := by
  have hstart := h.head.start
  cases hindicator : isIndicator c with
  | false =>
    rw [h.begins.blank]
    rfl
  | true =>
    have hend : endsWord gs = false := by
      apply Bool.eq_false_iff.mpr
      intro hend
      obtain ⟨hquestion, hcolon, hdash⟩ := hword hend
      rcases isIndicator_cases hindicator with hc | hc | hc | hc
      · exact hdash hc
      · exact hquestion hc
      · exact hcolon hc
      · rw [hstart] at hc
        cases hc
    have hhead : gs.head?.any Glyph.isBlank = false := by
      cases gs with
      | nil => rfl
      | cons g gs => exact (Bool.or_eq_false_iff.mp hend).1
    rw [hend, hhead]
    rcases isIndicator_cases hindicator with rfl | rfl | rfl | hc
    · rfl
    · rfl
    · rfl
    · rw [hstart] at hc
      cases hc

/-- A plain text begins as no other token does. -/
theorem cutToken_plain (h : Flat (c :: cs))
    (hdocument : marksDocument (⟨c, i, l, k⟩ :: gs) = false)
    (hword : endsWord gs = true → c ≠ '?' ∧ c ≠ ':' ∧ c ≠ '-') :
    cutToken (block ts is s a) ⟨c, i, l, k⟩ gs = cutPlain (block ts is s a) ⟨c, i, l, k⟩ gs := by
  have hne {d : Char} (hd : isStartMark d = true) : c ≠ d := by
    rintro rfl
    rw [h.head.start] at hd
    cases hd
  have hmark {d : Char} (hd : endsWord gs = true → c ≠ d) :
      (decide (c = d) && endsWord gs) = false := by
    cases hend : endsWord gs with
    | false => rw [Bool.and_false]
    | true => rw [decide_eq_false (hd hend), Bool.false_and]
  have hflow : (block ts is s a).inFlow = false := rfl
  have hquestion := hmark fun hend => (hword hend).1
  have hcolon := hmark fun hend => (hword hend).2.1
  have hdash := hmark fun hend => (hword hend).2.2
  have hpercent := @hne '%' (by decide)
  have hopen := @hne '[' (by decide)
  have hopen' := @hne '\x7b' (by decide)
  have hclose := @hne ']' (by decide)
  have hclose' := @hne '\x7d' (by decide)
  have hcomma := @hne ',' (by decide)
  have halias := @hne '*' (by decide)
  have hanchor := @hne '&' (by decide)
  have htag := @hne '!' (by decide)
  have hliteral := @hne '|' (by decide)
  have hfolded := @hne '>' (by decide)
  have hsingle := @hne '\'' (by decide)
  have hdouble := @hne '"' (by decide)
  have hplain := beginsPlain h hword
  unfold cutToken
  simp only [hflow, hdocument, hdash, hquestion, hcolon, hpercent, hopen, hopen', hclose, hclose',
    hcomma, halias, hanchor, htag, hliteral, hfolded, hsingle, hdouble, decide_false,
    Bool.and_false, Bool.false_and, Bool.false_or, Bool.false_eq_true, if_false, Glyph.isBlank,
    Bool.not_false, Bool.true_and, hplain, if_true]

theorem cutToken_single (hk : k ≠ 0) :
    cutToken (block ts is s a) ⟨'\'', i, l, k⟩ gs =
      cutSingle (block ts is s a) ⟨'\'', i, l, k⟩ gs := by
  have hcolumn : (⟨'\'', i, l, k⟩ : Glyph).column ≠ 0 := hk
  unfold cutToken
  rw [marksDocument_of_column hcolumn, decide_eq_false hcolumn]
  rfl

theorem cutToken_double (hk : k ≠ 0) :
    cutToken (block ts is s a) ⟨'"', i, l, k⟩ gs =
      cutDouble (block ts is s a) ⟨'"', i, l, k⟩ gs := by
  have hcolumn : (⟨'"', i, l, k⟩ : Glyph).column ≠ 0 := hk
  unfold cutToken
  rw [marksDocument_of_column hcolumn, decide_eq_false hcolumn]
  rfl

theorem cutToken_literal (hk : k ≠ 0) :
    cutToken (block ts is s a) ⟨'|', i, l, k⟩ gs =
      cutBlockScalar (block ts is s a) .literal gs := by
  have hcolumn : (⟨'|', i, l, k⟩ : Glyph).column ≠ 0 := hk
  unfold cutToken
  rw [marksDocument_of_column hcolumn, decide_eq_false hcolumn]
  rfl

/-- What follows the first character of a plain text ends no word where it must not. -/
theorem Flat.word (h : Flat (c :: cs)) (i l k : Nat) (rest : List Char) :
    endsWord (glyphsAt i l k (cs ++ rest)) = true → c ≠ '?' ∧ c ≠ ':' ∧ c ≠ '-' := by
  intro hend
  cases hword : endsWordChars cs with
  | true => exact h.head.word hword
  | false =>
    have hw : IsWritten cs := (isWritten_cons.mp h.written).2
    rw [endsWord_glyphsAt hword hw] at hend
    cases hend

theorem length_glyphsAt_append (hcs : IsWritten cs) (hrest : IsWritten rest)
    (i' l' k' i l k : Nat) :
    (glyphsAt i' l' k' rest).length ≤ (glyphsAt i l k (cs ++ rest)).length := by
  rw [length_glyphsAt (isWritten_append.mpr ⟨hcs, hrest⟩), List.length_append,
    length_glyphsAt hrest]
  omega

/-- A plain text in a block that it lies deeper than, with the break that ends it. -/
theorem leads_plain (h : Flat cs) (hne : cs ≠ []) (hp : p < k) (hs : Settled l s)
    (hrest : Outdented (p + 1) rest) :
    Reaches (block ts (p :: is) s a) (glyphsAt i l k (cs ++ '\n' :: rest))
      (.scalar .plain cs :: ts) (p :: is) rest := by
  obtain ⟨c, ds, rfl⟩ := List.exists_cons_of_ne_nil hne
  have hw := isWritten_cons.mp h.written
  have hdocument := marksDocument_glyphsAt (by omega : 0 < k) i l (c :: ds ++ '\n' :: rest)
  obtain ⟨s', hs', hsave⟩ := @saveStart?_within p ⟨c, i, l, k⟩ ts is a l hp (Nat.le_refl l)
  have hread := @readPlain_text (c :: ds) [] [] ('\n' :: rest) i l k (p + 1) h.written h.line
    h.inner h.last (by intro h; cases h) hdocument (by omega) (by intro h; cases h rfl)
  have hindent : ((block ts (p :: is) s' a).indent + 1).toNat = p + 1 := by
    show ((p : Int) + 1).toNat = p + 1
    omega
  refine ⟨i + octets (c :: ds) + 1, l + 1, s', hs', ?_⟩
  rw [readPlain_line hrest] at hread
  rw [List.cons_append, glyphsAt_text h.begins.line] at hread hdocument ⊢
  refine leads_cut h.begins (dropStale?_settled hs) (within_of_lt hp) ?_ ?_
  · rw [cutToken_plain h hdocument (h.word _ _ _ _), cutPlain, hsave]
    show (readPlain false _ [] _ _).bind _ = _
    rw [hindent]
    show Option.bind (readPlain false (p + 1) [] (.blanks []) _) _ = _
    rw [hread]
    simp
    rfl
  · have hline : IsWritten ('\n' :: rest) := isWritten_cons.mpr ⟨rfl, hrest.isWritten⟩
    have hlength := length_ahead_le hrest.isWritten (i + octets (c :: ds) + 1) (l + 1)
    rw [length_glyphsAt (isWritten_append.mpr ⟨hw.2, hline⟩), List.length_append, List.length_cons]
    omega

/-- A scalar that is cut before the break after it leads to the next line. -/
theorem reaches_of_cut {i' l' k' : Nat} {s' : Option KeyStart} (hc : Begins c) (hp : p < k)
    (hs : Settled l s) (hs' : Settled (l' + 1) s')
    (hcut : cutToken (block ts (p :: is) none a) ⟨c, i, l, k⟩ (glyphsAt (i + c.utf8Size) l (k + 1)
      (cs ++ '\n' :: rest)) = some (block us (p :: is) s' false, glyphsAt i' l' k' ('\n' :: rest)))
    (hcs : IsWritten cs) (hrest : IsWritten rest) :
    Reaches (block ts (p :: is) s a) (glyphsAt i l k (c :: (cs ++ '\n' :: rest))) us (p :: is)
      rest := by
  have hend : IsWritten ('\n' :: rest) := isWritten_cons.mpr ⟨rfl, hrest⟩
  have hlead : Leads (block ts (p :: is) s a) (glyphsAt i l k (c :: (cs ++ '\n' :: rest)))
      (block us (p :: is) s' false) (glyphsAt i' l' k' ('\n' :: rest)) := by
    rw [glyphsAt_text hc.line]
    exact leads_cut hc (dropStale?_settled hs) (within_of_lt hp) hcut
      (length_glyphsAt_append hcs hend _ _ _ _ _ _)
  exact ⟨i' + 1, l' + 1, s', hs', hlead.trans (leads_newline hrest)⟩

theorem leads_single (hw : IsWritten cs) (hline : '\n' ∉ cs) (hadmits : admitsSingle cs = true)
    (hp : p < k) (hs : Settled l s) (hrest : IsWritten rest) :
    Reaches (block ts (p :: is) s a)
      (glyphsAt i l k ('\'' :: (singleChars (p + 2) false cs ++ '\'' :: '\n' :: rest)))
      (.scalar .single cs :: ts) (p :: is) rest := by
  simp only [admitsSingle, isClean, Bool.and_eq_true, Bool.not_eq_true'] at hadmits
  have hbegins : Begins '\'' := ⟨rfl, rfl, rfl, by decide⟩
  have hheld : Gap.none.Kept := .blanks (by simp)
  have hreads : ReadsSingle (p + 2) rest cs := readSingle_text hw hline (by omega) rest
  obtain ⟨i', l', k', hl, hread⟩ := hreads [] (i + 1) l (k + 1) Gap.none hheld hadmits.1.2 hadmits.2
    (Or.inl (by omega))
  obtain ⟨s', hs', hsave⟩ := @saveStart?_within p ⟨'\'', i, l, k⟩ ts is a l' hp hl
  rw [List.append_cons]
  apply reaches_of_cut hbegins hp hs hs'
  · rw [cutToken_single (by omega), cutSingle, hsave, List.append_assoc]
    show Option.bind (readSingle [] Gap.none (glyphsAt (i + 1) l (k + 1)
      (singleChars (p + 2) Gap.none.hasBreak cs ++ '\'' :: '\n' :: rest))) _ = _
    rw [hread]
    rfl
  · exact isWritten_append.mpr
      ⟨isWritten_singleChars hw _ _, isWritten_cons.mpr ⟨rfl, isWritten_nil⟩⟩
  · exact hrest

theorem leads_double (hp : p < k) (hs : Settled l s) (hrest : IsWritten rest) :
    Reaches (block ts (p :: is) s a)
      (glyphsAt i l k ('"' :: (cs.flatMap doubleChar ++ '"' :: '\n' :: rest)))
      (.scalar .double cs :: ts) (p :: is) rest := by
  have hbegins : Begins '"' := ⟨rfl, rfl, rfl, by decide⟩
  obtain ⟨i', k', hread⟩ := @readDouble_text [] (i + 1) l (k + 1) (by omega) [] cs ('\n' :: rest)
  obtain ⟨s', hs', hsave⟩ := @saveStart?_within p ⟨'"', i, l, k⟩ ts is a l hp (Nat.le_refl l)
  rw [List.append_cons]
  apply reaches_of_cut hbegins hp hs hs'
  · rw [cutToken_double (by omega), cutDouble, hsave, List.append_assoc]
    show Option.bind (readDouble [] (.blanks []) none (glyphsAt (i + 1) l (k + 1)
      (cs.flatMap doubleChar ++ '"' :: '\n' :: rest))) _ = _
    rw [hread]
    rfl
  · exact isWritten_append.mpr
      ⟨isWritten_doubleChars cs, isWritten_cons.mpr ⟨rfl, isWritten_nil⟩⟩
  · exact hrest

/-- The break that ends the last line of a text, unless the text has it. -/
theorem isWritten_lastBreak (cs : List Char) :
    IsWritten (if cs.getLast?.any isBreakChar then [] else ['\n']) := by
  split
  · exact isWritten_nil
  · exact isWritten_cons.mpr ⟨rfl, isWritten_nil⟩

theorem leads_literal (hw : IsWritten cs) (hne : cs ≠ []) (hp : p < k) (hs : Settled l s)
    (hrest : Outdented (p + 2) rest) :
    Reaches (block ts (p :: is) s a)
      (glyphsAt i l k ('|' :: (literalMarks cs ++ '\n' :: (literalChars (p + 2) true cs ++
        ((if cs.getLast?.any isBreakChar then [] else ['\n']) ++ rest)))))
      (.scalar .literal cs :: ts) (p :: is) rest := by
  have hbegins : Begins '|' := ⟨rfl, rfl, rfl, by decide⟩
  obtain ⟨i', l', hl, hread⟩ := readBlockScalar_text hw hne hrest (i + 1) l (k + 1)
  refine ⟨i', l', none, settled_none l', ?_⟩
  rw [glyphsAt_text rfl]
  refine leads_cut hbegins (dropStale?_settled hs) (within_of_lt hp) ?_ ?_
  · rw [cutToken_literal (by omega), cutBlockScalar]
    show Option.bind (readBlockScalar true (p : Int) (glyphsAt (i + 1) l (k + 1) _)) _ = _
    rw [hread]
    rfl
  · have hlength := length_ahead_le hrest.isWritten i' l'
    rw [length_glyphsAt]
    · simp only [List.length_append, List.length_cons]
      omega
    · exact isWritten_append.mpr ⟨isWritten_literalMarks cs, isWritten_cons.mpr ⟨rfl,
        isWritten_append.mpr ⟨isWritten_literalChars hw _ _,
          isWritten_append.mpr ⟨isWritten_lastBreak cs, hrest.isWritten⟩⟩⟩⟩

theorem isWritten_of_isClean (h : isClean cs = true) : IsWritten cs := by
  unfold isClean at h
  rw [Bool.and_eq_true, List.all_eq_true] at h
  exact h.1

/-- What the style of a text tells about it. -/
theorem styleOf_cases (cs : List Char) :
    (styleOf cs = .plain ∧ isAmbiguous cs = false ∧ Flat cs ∧ cs ≠ []) ∨
      (styleOf cs = .single ∧ IsWritten cs ∧ '\n' ∉ cs ∧ admitsSingle cs = true) ∨
      (styleOf cs = .literal ∧ IsWritten cs ∧ cs ≠ []) ∨ styleOf cs = .double := by
  unfold styleOf
  by_cases hlines : '\n' ∈ cs
  · rw [if_pos (List.contains_iff_mem.mpr hlines)]
    cases hliteral : admitsLiteral cs with
    | false => exact Or.inr (Or.inr (Or.inr rfl))
    | true =>
      have hclean : isClean cs = true := (Bool.and_eq_true_iff.mp hliteral).1
      exact Or.inr (Or.inr (Or.inl ⟨rfl, isWritten_of_isClean hclean, List.ne_nil_of_mem hlines⟩))
  · rw [if_neg (fun h => hlines (List.contains_iff_mem.mp h))]
    cases hplain : !isAmbiguous cs && admitsPlain cs with
    | true =>
      obtain ⟨hclear, hadmits⟩ := Bool.and_eq_true_iff.mp hplain
      have hne : cs ≠ [] := by
        rintro rfl
        cases hclear
      exact Or.inl ⟨rfl, by simpa using hclear, flat_of_admitsPlain hadmits, hne⟩
    | false =>
      cases hsingle : admitsSingle cs with
      | true =>
        have hclean : isClean cs = true := (Bool.and_eq_true_iff.mp hsingle).1
        exact Or.inr (Or.inl ⟨rfl, isWritten_of_isClean hclean, hlines, rfl⟩)
      | false => exact Or.inr (Or.inr (Or.inr rfl))

/-- A text is read back in whatever style it is written. -/
theorem leads_text (cs : List Char) (hp : p < k) (hs : Settled l s)
    (hrest : Outdented (p + 1) rest) :
    Reaches (block ts (p :: is) s a) (glyphsAt i l k (writeText (p + 2) cs ++ rest))
      (.scalar (styleOf cs) cs :: ts) (p :: is) rest := by
  have hw := hrest.isWritten
  unfold writeText
  rcases styleOf_cases cs with ⟨hstyle, -, hflat, hne⟩ | ⟨hstyle, hcs, hline, hadmits⟩ |
    ⟨hstyle, hcs, hne⟩ | hstyle
  · rw [hstyle]
    simp only [List.append_assoc]
    exact leads_plain hflat hne hp hs hrest
  · rw [hstyle]
    simp only [List.append_assoc, List.cons_append]
    exact leads_single hcs hline hadmits hp hs hw
  · rw [hstyle]
    simp only [List.append_assoc, List.cons_append]
    exact leads_literal hcs hne hp hs (hrest.mono (Nat.le_succ _))
  · rw [hstyle]
    simp only [List.append_assoc, List.cons_append]
    exact leads_double hp hs hw

theorem isWritten_writeText (indent : Nat) (cs : List Char) : IsWritten (writeText indent cs) := by
  unfold writeText
  rcases styleOf_cases cs with ⟨hstyle, -, hflat, -⟩ | ⟨hstyle, hcs, -⟩ | ⟨hstyle, hcs, -⟩ | hstyle
  · rw [hstyle]
    simp [hflat.written, isWritable]
  · rw [hstyle]
    simp [isWritten_singleChars hcs, isWritable]
  · rw [hstyle]
    simp [isWritten_literalMarks, isWritten_literalChars hcs, isWritten_lastBreak, isWritable]
  · rw [hstyle]
    simp [isWritten_doubleChars, isWritable]

end Yaml
end Hosting
