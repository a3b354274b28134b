import Hosting.Proofs.Text.Numeral
import Hosting.Proofs.Yaml.Glyph

/-!
# Quoted scalars are read back

Between single quotes a text stands as it is, except for its quotes.  Its breaks are all separators
of Unicode, none of which is folded, so that what a gap contributes is what was passed in it
(`Gap.Kept`).  Between double quotes there are no breaks at all, and every escape says what was
escaped.
-/

namespace Hosting
namespace Yaml

variable {c d : Char} {cs ds done rest : List Char} {i l k indent : Nat} {gap : Gap}

/-! ## Pairs of characters -/

theorem hasPair_append_right {p q : Char → Bool} (h : hasPair p q (ds ++ cs) = false) :
    hasPair p q cs = false := by
  induction ds with
  | nil => exact h
  | cons a ds ih =>
    apply ih
    rw [List.cons_append] at h
    cases hds : ds ++ cs with
    | nil => rfl
    | cons b bs =>
      rw [hds, hasPair, Bool.or_eq_false_iff] at h
      exact h.2

theorem not_of_hasPair {p q : Char → Bool} (h : hasPair p q (ds ++ c :: d :: cs) = false)
    (hc : p c = true) : q d = false := by
  have hpair := hasPair_append_right h
  rw [hasPair, hc, Bool.true_and, Bool.or_eq_false_iff] at hpair
  exact hpair.1

/-! ## Gaps that contribute what they hold -/

/-- The gap holds spaces of one line, or breaks of which the first is not folded. -/
inductive Gap.Kept : Gap → Prop where
  | blanks {bs : List Char} (hbs : ∀ b ∈ bs, isSpaceChar b = true) : Kept (.blanks bs)
  | breaks {f : Char} {more : List Char} (hf : f ≠ '\n')
      (hall : ∀ b ∈ f :: more, isBreakChar b = true) : Kept (.breaks (some f) more)

theorem Gap.text_breaks (h : c ≠ '\n') (more : List Char) :
    (Gap.breaks (some c) more).text = c :: more.reverse := by
  unfold Gap.text
  split
  · next heq => cases heq
  · next heq =>
    cases heq
    exact absurd rfl h
  · next heq =>
    cases heq
    exact absurd rfl h
  · next heq =>
    cases heq
    rfl
  · next heq => cases heq

/-- A break after a kept gap, which cannot be one of spaces, is kept with it. -/
theorem Gap.Kept.newline (h : gap.Kept) (hc : isBreakChar c = true) (hne : c ≠ '\n')
    (hpair : hasPair isSpaceChar isBreakChar (gap.text ++ c :: cs) = false) :
    (gap.newline c).Kept ∧ (gap.newline c).text = gap.text ++ [c] := by
  cases h with
  | @blanks bs hbs =>
    cases bs with
    | nil =>
      have hall : ∀ b ∈ [c], isBreakChar b = true := by
        intro b hb
        rw [List.mem_singleton.mp hb]
        exact hc
      exact ⟨.breaks hne hall, Gap.text_breaks hne []⟩
    | cons b bs =>
      have hlast : (Gap.blanks (b :: bs)).text ++ c :: cs = bs.reverse ++ b :: c :: cs := by
        simp [Gap.text]
      rw [hlast] at hpair
      rw [not_of_hasPair hpair (hbs b List.mem_cons_self)] at hc
      cases hc
  | @breaks f more hf hall =>
    have hall' : ∀ b ∈ f :: c :: more, isBreakChar b = true := by
      intro b hb
      rcases List.mem_cons.mp hb with rfl | hb
      · exact hall b List.mem_cons_self
      · rcases List.mem_cons.mp hb with rfl | hb
        · exact hc
        · exact hall b (List.mem_cons_of_mem f hb)
    refine ⟨.breaks hf hall', ?_⟩
    rw [Gap.newline, Gap.text_breaks hf, Gap.text_breaks hf, List.reverse_cons, List.cons_append]

theorem Gap.Kept.text_breaks_eq {f : Char} {more : List Char}
    (h : (Gap.breaks (some f) more).Kept) :
    ∃ bs b, (Gap.breaks (some f) more).text = bs ++ [b] ∧ isBreakChar b = true := by
  cases h with
  | breaks hf hall =>
    rw [Gap.text_breaks hf]
    cases more with
    | nil => exact ⟨[], f, rfl, hall f List.mem_cons_self⟩
    | cons b bs =>
      refine ⟨f :: bs.reverse, b, ?_, hall b (by simp)⟩
      rw [List.reverse_cons, List.cons_append]

/-- A space after a kept gap, which cannot be one of breaks, is kept with it. -/
theorem Gap.Kept.blank (h : gap.Kept) (hc : isSpaceChar c = true)
    (hpair : hasPair isBreakChar isSpaceChar (gap.text ++ c :: cs) = false) :
    (gap.blank c).Kept ∧ (gap.blank c).text = gap.text ++ [c] ∧ gap.hasBreak = false ∧
      (gap.blank c).hasBreak = false := by
  cases h with
  | @blanks bs hbs =>
    refine ⟨.blanks ?_, List.reverse_cons, rfl, rfl⟩
    intro b hb
    rcases List.mem_cons.mp hb with rfl | hb
    · exact hc
    · exact hbs b hb
  | @breaks f more hf hall =>
    obtain ⟨bs, b, htext, hb⟩ := (Gap.Kept.breaks hf hall).text_breaks_eq
    rw [htext, List.append_assoc, List.singleton_append] at hpair
    rw [not_of_hasPair hpair hb] at hc
    cases hc

/-! ## Between single quotes -/

section

variable {g h : Glyph} {gs : List Glyph}

theorem readSingle_blank (hg : g.isBlank = true) :
    readSingle done gap (g :: gs) = readSingle done (gap.blank g.char) gs := by
  rw [readSingle, if_pos hg]

theorem readSingle_break (hblank : g.isBlank = false) (hg : g.isBreak = true) :
    readSingle done gap (g :: gs) = readSingle done (gap.newline g.char) gs := by
  rw [readSingle, hblank, hg]
  rfl

/-- Within a line a character is read with the gap before it, unless it is a quote. -/
theorem readSingle_inside (hblank : g.isBlank = false) (hline : g.isBreak = false)
    (hcolumn : g.column ≠ 0) :
    readSingle done gap (g :: gs) =
      if g.char = '\'' then
        match gs with
        | h :: hs =>
          if h.char = '\'' then readSingle ('\'' :: (gap.text.reverse ++ done)) Gap.none hs
          else some ((gap.text.reverse ++ done).reverse, h :: hs)
        | [] => some ((gap.text.reverse ++ done).reverse, [])
      else readSingle (g.char :: (gap.text.reverse ++ done)) Gap.none gs := by
  rw [readSingle, hblank, hline, marksDocument_of_column hcolumn]
  rfl

theorem readSingle_char (hblank : g.isBlank = false) (hline : g.isBreak = false)
    (hcolumn : g.column ≠ 0) (hg : g.char ≠ '\'') :
    readSingle done gap (g :: gs) =
      readSingle (g.char :: (gap.text.reverse ++ done)) Gap.none gs := by
  rw [readSingle_inside hblank hline hcolumn, if_neg hg]

/-- Two quotes are one quote, and one quote ends the scalar. -/
theorem readSingle_quote (hg : g.char = '\'') (hcolumn : g.column ≠ 0) :
    readSingle done gap (g :: h :: gs) =
      if h.char = '\'' then readSingle ('\'' :: (gap.text.reverse ++ done)) Gap.none gs
      else some ((gap.text.reverse ++ done).reverse, h :: gs) := by
  have hblank : g.isBlank = false := by rw [Glyph.isBlank, hg]; rfl
  have hline : g.isBreak = false := by rw [Glyph.isBreak, hg]; rfl
  rw [readSingle_inside hblank hline hcolumn, if_pos hg]

end

/-- The indentation of a line is passed, and what follows it is not at the beginning of a line. -/
theorem readSingle_lead (hk : 0 < k ∨ gap.hasBreak = true) (hindent : 0 < indent) :
    ∃ i' k', 0 < k' ∧
      readSingle done gap
        (glyphsAt i l k ((if gap.hasBreak then spaces indent else []) ++ cs)) =
        readSingle done gap (glyphsAt i' l k' cs) := by
  cases gap with
  | blanks bs =>
    have hk : 0 < k := hk.resolve_right (by intro h; cases h)
    exact ⟨i, k, hk, rfl⟩
  | breaks f more =>
    have hpassed (n i k : Nat) :
        readSingle done (.breaks f more) (glyphsAt i l k (spaces n ++ cs)) =
          readSingle done (.breaks f more) (glyphsAt (i + n) l (k + n) cs) := by
      induction n generalizing i k with
      | zero => rfl
      | succ n ih =>
        have hi : i + (n + 1) = i + 1 + n := by omega
        have hk : k + (n + 1) = k + 1 + n := by omega
        rw [spaces_succ, List.cons_append, glyphsAt_space, readSingle_blank rfl, hi, hk]
        exact ih (i + 1) (k + 1)
    exact ⟨i + indent, k + indent, by omega, hpassed indent i k⟩

/-- A character that is neither a blank nor a break is read with the gap before it. -/
theorem readSingle_letter (hblank : isBlankChar c = false) (hc : isBreakChar c = false)
    (hk : 0 < k) :
    ∃ i' k', 0 < k' ∧
      readSingle done gap (glyphsAt i l k ((if c = '\'' then ['\'', '\''] else [c]) ++ cs)) =
        readSingle (c :: (gap.text.reverse ++ done)) Gap.none (glyphsAt i' l k' cs) := by
  have hcolumn : (⟨c, i, l, k⟩ : Glyph).column ≠ 0 := Nat.ne_of_gt hk
  by_cases hquote : c = '\''
  · refine ⟨i + 1 + 1, k + 1 + 1, by omega, ?_⟩
    subst hquote
    rw [if_pos rfl, List.cons_append, List.singleton_append, glyphsAt_text hc, glyphsAt_text hc,
      readSingle_quote rfl hcolumn, if_pos rfl]
    rfl
  · refine ⟨i + c.utf8Size, k + 1, by omega, ?_⟩
    have hg : Glyph.isBlank ⟨c, i, l, k⟩ = false := hblank
    rw [if_neg hquote, List.singleton_append, glyphsAt_text hc,
      readSingle_char hg hc hcolumn hquote]

theorem singleChars_break (h : isBreakChar c = true) (b : Bool) :
    singleChars indent b (c :: cs) ++ rest = c :: (singleChars indent true cs ++ rest) := by
  rw [singleChars, if_pos h, List.cons_append]

theorem singleChars_text (h : isBreakChar c = false) (b : Bool) :
    singleChars indent b (c :: cs) ++ rest = (if b then spaces indent else []) ++
      ((if c = '\'' then ['\'', '\''] else [c]) ++ (singleChars indent false cs ++ rest)) := by
  rw [singleChars, if_neg (Bool.eq_false_iff.mp h), List.append_assoc, List.append_assoc]

theorem isWritten_singleChars (h : IsWritten cs) (indent : Nat) (b : Bool) :
    IsWritten (singleChars indent b cs) := by
  have hlead (b : Bool) : IsWritten (if b then spaces indent else []) := by
    cases b with
    | false => exact isWritten_nil
    | true => exact isWritten_spaces indent
  induction cs generalizing b with
  | nil => exact hlead b
  | cons c cs ih =>
    rw [isWritten_cons] at h
    unfold singleChars
    split
    · exact isWritten_cons.mpr ⟨h.1, ih h.2 true⟩
    · have hletter : IsWritten (if c = '\'' then ['\'', '\''] else [c]) := by
        split
        · decide
        · exact isWritten_cons.mpr ⟨h.1, isWritten_nil⟩
      exact isWritten_append.mpr ⟨isWritten_append.mpr ⟨hlead b, hletter⟩, ih h.2 false⟩

/-- From any place in a text between single quotes on, what is left of it is read as it was. -/
def ReadsSingle (indent : Nat) (rest cs : List Char) : Prop :=
  ∀ done i l k gap, Gap.Kept gap → hasPair isSpaceChar isBreakChar (gap.text ++ cs) = false →
    hasPair isBreakChar isSpaceChar (gap.text ++ cs) = false → (0 < k ∨ gap.hasBreak = true) →
    ∃ i' l' k', l ≤ l' ∧
      readSingle done gap
        (glyphsAt i l k (singleChars indent gap.hasBreak cs ++ '\'' :: '\n' :: rest)) =
        some (done.reverse ++ (gap.text ++ cs), glyphsAt i' l' k' ('\n' :: rest))

theorem readsSingle_nil (hindent : 0 < indent) : ReadsSingle indent rest [] := by
  intro done i l k gap _ _ _ hk
  obtain ⟨i₁, k₁, hk₁, hlead⟩ :=
    @readSingle_lead ('\'' :: '\n' :: rest) done i l k indent gap hk hindent
  have hcolumn : (⟨'\'', i₁, l, k₁⟩ : Glyph).column ≠ 0 := Nat.ne_of_gt hk₁
  have hend : '\n' ≠ '\'' := by decide
  refine ⟨i₁ + 1, l, k₁ + 1, Nat.le_refl l, ?_⟩
  rw [singleChars, hlead, glyphsAt_text rfl, glyphsAt_newline, readSingle_quote rfl hcolumn,
    if_neg hend, List.reverse_append, List.reverse_reverse, List.append_nil]
  rfl

theorem readsSingle_break (h : ReadsSingle indent rest cs) (hw : isWritable c = true)
    (hne : c ≠ '\n') (hc : isBreakChar c = true) : ReadsSingle indent rest (c :: cs) := by
  intro done i l k gap hgap hbefore hafter _
  obtain ⟨hkept, htext⟩ := hgap.newline hc hne hbefore
  have hbreak : (gap.newline c).hasBreak = true := by cases gap <;> rfl
  have hg : Glyph.isBlank ⟨c, i, l, k⟩ = false := isBlankChar_of_isBreakChar hc
  have hjoin : gap.text ++ c :: cs = (gap.newline c).text ++ cs := by
    rw [htext, ← List.append_cons]
  rw [hjoin] at hbefore hafter ⊢
  obtain ⟨i', l', k', hl, hread⟩ := h done (i + c.utf8Size) (l + 1) 0 _ hkept hbefore hafter
    (Or.inr hbreak)
  rw [hbreak] at hread
  refine ⟨i', l', k', by omega, ?_⟩
  rw [singleChars_break hc, glyphsAt_break hw hc, readSingle_break hg hc]
  exact hread

theorem readsSingle_space (h : ReadsSingle indent rest cs) :
    ReadsSingle indent rest (' ' :: cs) := by
  intro done i l k gap hgap hbefore hafter _
  obtain ⟨hkept, htext, hbreak, hbreak'⟩ := hgap.blank rfl hafter
  have hjoin : gap.text ++ ' ' :: cs = (gap.blank ' ').text ++ cs := by
    rw [htext, ← List.append_cons]
  rw [hjoin] at hbefore hafter ⊢
  obtain ⟨i', l', k', hl, hread⟩ := h done (i + 1) l (k + 1) _ hkept hbefore hafter
    (Or.inl (Nat.succ_pos k))
  rw [hbreak'] at hread
  refine ⟨i', l', k', hl, ?_⟩
  rw [singleChars_text rfl, hbreak]
  show readSingle done gap (glyphsAt i l k (' ' :: (singleChars indent false cs ++ _))) = _
  rw [glyphsAt_space, readSingle_blank rfl]
  exact hread

theorem readsSingle_letter (h : ReadsSingle indent rest cs) (hblank : isBlankChar c = false)
    (hc : isBreakChar c = false) (hindent : 0 < indent) : ReadsSingle indent rest (c :: cs) := by
  intro done i l k gap hgap hbefore hafter hk
  obtain ⟨i₁, k₁, hk₁, hlead⟩ := @readSingle_lead ((if c = '\'' then ['\'', '\''] else [c]) ++
    (singleChars indent false cs ++ '\'' :: '\n' :: rest)) done i l k indent gap hk hindent
  obtain ⟨i₂, k₂, hk₂, hletter⟩ := @readSingle_letter c
    (singleChars indent false cs ++ '\'' :: '\n' :: rest) done i₁ l k₁ gap hblank hc hk₁
  rw [List.append_cons] at hbefore hafter
  -- nothing is held after the character
  have hheld : Gap.none.Kept := .blanks (by simp)
  obtain ⟨i', l', k', hl, hread⟩ := h (c :: (gap.text.reverse ++ done)) i₂ l k₂ Gap.none hheld
    (hasPair_append_right hbefore) (hasPair_append_right hafter) (Or.inl hk₂)
  have hdone : (c :: (gap.text.reverse ++ done)).reverse ++ (Gap.none.text ++ cs) =
      done.reverse ++ (gap.text ++ c :: cs) := by
    simp [Gap.none, Gap.text]
  refine ⟨i', l', k', hl, ?_⟩
  rw [singleChars_text hc, hlead, hletter, ← hdone]
  exact hread

theorem readSingle_text (hw : IsWritten cs) (hline : '\n' ∉ cs) (hindent : 0 < indent)
    (rest : List Char) : ReadsSingle indent rest cs := by
  induction cs with
  | nil => exact readsSingle_nil hindent
  | cons c cs ih =>
    rw [isWritten_cons] at hw
    rw [List.mem_cons, not_or] at hline
    have hcs : ReadsSingle indent rest cs := ih hw.2 hline.2
    cases hc : isBreakChar c with
    | true => exact readsSingle_break hcs hw.1 (Ne.symm hline.1) hc
    | false =>
      cases hspace : isSpaceChar c with
      | true =>
        obtain rfl : c = ' ' := eq_of_beq hspace
        exact readsSingle_space hcs
      | false =>
        exact readsSingle_letter hcs ((isBlankChar_of_isWritable hw.1).trans hspace) hc hindent

/-! ## Codes -/

/-- A code that fits its width is of so many digits, which say it. -/
theorem upperDigits_spec {width n : Nat} (hw : 0 < width) (h : n < 16 ^ width) :
    (upperDigits width n).length = width ∧
      Text.digitsFrom? 16 0 (upperDigits width n) = some n := by
  have hle := (Nat.length_toDigits_le_iff (by omega) hw).mpr h
  have hdigits : ∀ c ∈ Text.toDigits 16 width n, ∃ d < 16, c = Nat.digitChar d :=
    fun c hc => Text.exists_digitChar_of_mem_toDigits (by decide) hc
  unfold upperDigits
  rw [Text.digitsFrom?_map_toUpper hdigits]
  unfold Text.toDigits
  rw [Text.digitsFrom?_zeros (by decide), Text.digitsFrom?_toDigits (by decide) (by decide)]
  simp only [List.length_append, List.length_replicate, List.length_map, and_true]
  omega

theorem toNat_range (c : Char) : c.toNat < 0xD800 ∨ (0xDFFF < c.toNat ∧ c.toNat < 0x110000) :=
  c.valid

theorem charOfCode?_toNat (c : Char) : charOfCode? c.toNat = some c := by
  unfold charOfCode?
  rw [if_pos (by simpa using toNat_range c), Char.ofNat_toNat]

/-! ## Between double quotes -/

section

variable {g h : Glyph} {gs : List Glyph}

theorem readDouble_blank (hg : g.isBlank = true) :
    readDouble done gap none (g :: gs) = readDouble done (gap.blank g.char) none gs := by
  rw [readDouble, if_pos hg]

/-- Within a line a character is read with the gap before it, unless it is a quote or says with
the one after it what is meant. -/
theorem readDouble_inside (hblank : g.isBlank = false) (hline : g.isBreak = false)
    (hcolumn : g.column ≠ 0) :
    readDouble done gap none (g :: gs) =
      if g.char = '"' then some ((gap.text.reverse ++ done).reverse, gs)
      else if g.char = '\\' then
        match gs with
        | [] => none
        | h :: hs =>
          if h.isBreak then readDouble (gap.text.reverse ++ done) (.breaks none []) none hs
          else match escape? h.char with
            | none => none
            | some (.char c) => readDouble (c :: (gap.text.reverse ++ done)) Gap.none none hs
            | some (.code k) => readDouble (gap.text.reverse ++ done) Gap.none (some (k, 0)) hs
      else readDouble (g.char :: (gap.text.reverse ++ done)) Gap.none none gs := by
  rw [readDouble, hblank, hline, marksDocument_of_column hcolumn]
  rfl

theorem readDouble_char (hblank : g.isBlank = false) (hline : g.isBreak = false)
    (hcolumn : g.column ≠ 0) (hquote : g.char ≠ '"') (hescape : g.char ≠ '\\') :
    readDouble done gap none (g :: gs) =
      readDouble (g.char :: (gap.text.reverse ++ done)) Gap.none none gs := by
  rw [readDouble_inside hblank hline hcolumn, if_neg hquote, if_neg hescape]

theorem readDouble_end (hg : g.char = '"') (hcolumn : g.column ≠ 0) :
    readDouble done gap none (g :: gs) = some ((gap.text.reverse ++ done).reverse, gs) := by
  have hblank : g.isBlank = false := by rw [Glyph.isBlank, hg]; rfl
  have hline : g.isBreak = false := by rw [Glyph.isBreak, hg]; rfl
  rw [readDouble_inside hblank hline hcolumn, if_pos hg]

end

/-- A backslash means something together with the character after it. -/
theorem readDouble_escape (hk : 0 < k) (hc : isBreakChar c = false) :
    readDouble done gap none (glyphsAt i l k ('\\' :: c :: cs)) =
      match escape? c with
      | none => none
      | some (.char d) =>
        readDouble (d :: (gap.text.reverse ++ done)) Gap.none none
          (glyphsAt (i + 1 + c.utf8Size) l (k + 1 + 1) cs)
      | some (.code width) =>
        readDouble (gap.text.reverse ++ done) Gap.none (some (width, 0))
          (glyphsAt (i + 1 + c.utf8Size) l (k + 1 + 1) cs) := by
  have hcolumn : (⟨'\\', i, l, k⟩ : Glyph).column ≠ 0 := Nat.ne_of_gt hk
  have hquote : '\\' ≠ '"' := by decide
  rw [glyphsAt_text rfl, glyphsAt_text hc, readDouble_inside rfl rfl hcolumn, if_neg hquote,
    if_pos rfl]
  simp only [Glyph.isBreak, hc, Bool.false_eq_true, if_false]
  rfl

theorem isBreakChar_of_digit? {n : Nat} (h : Text.digit? c = some n) : isBreakChar c = false := by
  cases hbreak : isBreakChar c with
  | false => rfl
  | true =>
    simp only [isBreakChar, Bool.or_eq_true, beq_iff_eq] at hbreak
    rcases hbreak with (((rfl | rfl) | rfl) | rfl) | rfl <;> cases h

/-- The digits of a code are read as the character that it is of. -/
theorem readDouble_code {n : Nat} (hne : ds ≠ []) (hds : Text.digitsFrom? 16 n ds = some d.toNat)
    (hk : 0 < k) :
    ∃ i' k', 0 < k' ∧
      readDouble done Gap.none (some (ds.length, n)) (glyphsAt i l k (ds ++ cs)) =
        readDouble (d :: done) Gap.none none (glyphsAt i' l k' cs) := by
  induction ds generalizing i k n with
  | nil => exact absurd rfl hne
  | cons c ds ih =>
    rw [Text.digitsFrom?] at hds
    cases hdigit : Text.digit? c with
    | none => rw [hdigit] at hds; cases hds
    | some e =>
      rw [hdigit] at hds
      simp only [Option.bind_eq_bind, Option.bind_some] at hds
      split at hds
      · rw [List.cons_append, glyphsAt_text (isBreakChar_of_digit? hdigit), readDouble]
        simp only [hdigit, Option.bind_eq_bind, Option.bind_some, List.length_cons]
        cases ds with
        | nil =>
          have hvalue : n * 16 + e = d.toNat := Option.some.inj hds
          refine ⟨i + c.utf8Size, k + 1, by omega, ?_⟩
          rw [hvalue, charOfCode?_toNat]
          rfl
        | cons c' ds =>
          obtain ⟨i', k', hk', hread⟩ := @ih (i + c.utf8Size) (k + 1) (n * 16 + e) (by simp) hds
            (by omega)
          exact ⟨i', k', hk', hread⟩
      · cases hds

theorem isWritable_of_digit? {n : Nat} (h : Text.digit? c = some n) : isWritable c = true := by
  have hrange {x y : Char} (hc : (decide (x ≤ c) && decide (c ≤ y)) = true) :
      x.toNat ≤ c.toNat ∧ c.toNat ≤ y.toNat := by
    rw [Bool.and_eq_true, decide_eq_true_eq, decide_eq_true_eq] at hc
    exact hc
  have hdigit : 48 ≤ c.toNat ∧ c.toNat ≤ 57 ∨ 97 ≤ c.toNat ∧ c.toNat ≤ 102 ∨
      65 ≤ c.toNat ∧ c.toNat ≤ 70 := by
    unfold Text.digit? at h
    split at h
    · next hc => exact Or.inl (hrange hc)
    · split at h
      · next hc => exact Or.inr (Or.inl (hrange hc))
      · split at h
        · next hc => exact Or.inr (Or.inr (hrange hc))
        · cases h
  unfold isWritable
  simp only [Bool.or_eq_true, Bool.and_eq_true, decide_eq_true_eq, beq_iff_eq]
  omega

theorem isWritten_of_digits {n m : Nat} (h : Text.digitsFrom? 16 n ds = some m) : IsWritten ds := by
  induction ds generalizing n with
  | nil => exact isWritten_nil
  | cons c ds ih =>
    rw [Text.digitsFrom?] at h
    cases hdigit : Text.digit? c with
    | none => rw [hdigit] at h; cases h
    | some e =>
      rw [hdigit] at h
      simp only [Option.bind_eq_bind, Option.bind_some] at h
      split at h
      · exact isWritten_cons.mpr ⟨isWritable_of_digit? hdigit, ih h⟩
      · cases h

theorem escape?_of_letter (h : escapeLetter? c = some d) :
    escape? d = some (.char c) ∧ isBreakChar d = false := by
  unfold escapeLetter? at h
  split at h <;> cases h <;> exact ⟨rfl, rfl⟩

/-- Every break has a letter of its own. -/
theorem isBreakChar_of_noLetter (h : escapeLetter? c = none) : isBreakChar c = false := by
  cases hbreak : isBreakChar c with
  | false => rfl
  | true =>
    simp only [isBreakChar, Bool.or_eq_true, beq_iff_eq] at hbreak
    rcases hbreak with (((rfl | rfl) | rfl) | rfl) | rfl <;> cases h

/-- A character is written by its letter, as it is, or by its code. -/
theorem doubleChar_cases (c : Char) :
    (∃ e, escapeLetter? c = some e ∧ doubleChar c = ['\\', e]) ∨
      (escapeLetter? c = none ∧ isWritable c = true ∧ doubleChar c = [c]) ∨
      ∃ e width, escape? e = some (.code width) ∧ isWritable e = true ∧ isBreakChar e = false ∧
        0 < width ∧ c.toNat < 16 ^ width ∧
        doubleChar c = '\\' :: e :: upperDigits width c.toNat := by
  have hrange := toNat_range c
  unfold doubleChar
  split
  · next e he => exact Or.inl ⟨e, he, rfl⟩
  · next hletter =>
    split
    · next hw => exact Or.inr (Or.inl ⟨hletter, hw, rfl⟩)
    · refine Or.inr (Or.inr ?_)
      split
      · exact ⟨'x', 2, rfl, rfl, rfl, by omega, by omega, rfl⟩
      · split
        · exact ⟨'u', 4, rfl, rfl, rfl, by omega, by omega, rfl⟩
        · exact ⟨'U', 8, rfl, rfl, rfl, by omega, by omega, rfl⟩

/-- What a character that is no space is written as is read as that character. -/
theorem readDouble_piece (hspace : isSpaceChar c = false) (hk : 0 < k) :
    ∃ i' k', 0 < k' ∧
      readDouble done gap none (glyphsAt i l k (doubleChar c ++ cs)) =
        readDouble (c :: (gap.text.reverse ++ done)) Gap.none none (glyphsAt i' l k' cs) := by
  have hcolumn : (⟨c, i, l, k⟩ : Glyph).column ≠ 0 := Nat.ne_of_gt hk
  rcases doubleChar_cases c with ⟨e, he, hc⟩ | ⟨hletter, hw, hc⟩ |
    ⟨e, width, he, -, hline, hwidth, hfits, hc⟩
  · obtain ⟨hescape, hline⟩ := escape?_of_letter he
    refine ⟨i + 1 + e.utf8Size, k + 1 + 1, by omega, ?_⟩
    rw [hc, List.cons_append, List.singleton_append, readDouble_escape hk hline, hescape]
  · have hline := isBreakChar_of_noLetter hletter
    have hblank : Glyph.isBlank ⟨c, i, l, k⟩ = false :=
      (isBlankChar_of_isWritable hw).trans hspace
    have hquote : c ≠ '"' := by
      rintro rfl
      cases hletter
    have hescape : c ≠ '\\' := by
      rintro rfl
      cases hletter
    refine ⟨i + c.utf8Size, k + 1, by omega, ?_⟩
    rw [hc, List.singleton_append, glyphsAt_text hline,
      readDouble_char hblank hline hcolumn hquote hescape]
  · obtain ⟨hlength, hdigits⟩ := upperDigits_spec hwidth hfits
    have hne : upperDigits width c.toNat ≠ [] := List.ne_nil_of_length_pos (by omega)
    obtain ⟨i', k', hk', hread⟩ := @readDouble_code c cs (upperDigits width c.toNat)
      (gap.text.reverse ++ done) (i + 1 + e.utf8Size) l (k + 1 + 1) 0 hne hdigits (by omega)
    rw [hlength] at hread
    refine ⟨i', k', hk', ?_⟩
    rw [hc, List.cons_append, List.cons_append, readDouble_escape hk hline, he]
    exact hread

theorem isWritten_doubleChar (c : Char) : IsWritten (doubleChar c) := by
  rcases doubleChar_cases c with ⟨e, he, hc⟩ | ⟨-, hw, hc⟩ | ⟨e, width, -, he, -, hwidth, hfits, hc⟩
  · have hwritable : isWritable e = true := by
      unfold escapeLetter? at he
      split at he <;> cases he <;> rfl
    rw [hc]
    exact isWritten_cons.mpr ⟨rfl, isWritten_cons.mpr ⟨hwritable, isWritten_nil⟩⟩
  · rw [hc]
    exact isWritten_cons.mpr ⟨hw, isWritten_nil⟩
  · have hdigits := isWritten_of_digits (upperDigits_spec hwidth hfits).2
    rw [hc]
    exact isWritten_cons.mpr ⟨rfl, isWritten_cons.mpr ⟨he, hdigits⟩⟩

theorem isWritten_doubleChars (cs : List Char) : IsWritten (cs.flatMap doubleChar) := by
  intro c hc
  obtain ⟨d, -, hd⟩ := List.mem_flatMap.mp hc
  exact isWritten_doubleChar d c hd

/-- What is written between double quotes is read as it was. -/
theorem readDouble_text (hk : 0 < k) (bs cs rest : List Char) :
    ∃ i' k',
      readDouble done (.blanks bs) none (glyphsAt i l k (cs.flatMap doubleChar ++ '"' :: rest)) =
        some (done.reverse ++ (bs.reverse ++ cs), glyphsAt i' l k' rest) := by
  induction cs generalizing i k bs done with
  | nil =>
    have hcolumn : (⟨'"', i, l, k⟩ : Glyph).column ≠ 0 := Nat.ne_of_gt hk
    refine ⟨i + 1, k + 1, ?_⟩
    rw [List.flatMap_nil, List.nil_append, glyphsAt_text rfl, readDouble_end rfl hcolumn,
      List.reverse_append, List.append_nil]
    simp only [Gap.text, List.reverse_reverse]
    rfl
  | cons c cs ih =>
    rw [List.flatMap_cons, List.append_assoc]
    by_cases hspace : isSpaceChar c = true
    · obtain rfl : c = ' ' := eq_of_beq hspace
      obtain ⟨i', k', hread⟩ := @ih done (i + 1) (k + 1) (by omega) (' ' :: bs)
      refine ⟨i', k', ?_⟩
      show readDouble done (.blanks bs) none (glyphsAt i l k (' ' :: _)) = _
      rw [glyphsAt_space, readDouble_blank rfl, List.append_cons bs.reverse, ← List.reverse_cons]
      exact hread
    · obtain ⟨i₁, k₁, hk₁, hpiece⟩ := @readDouble_piece c (cs.flatMap doubleChar ++ '"' :: rest)
        done i l k (.blanks bs) (Bool.eq_false_iff.mpr hspace) hk
      obtain ⟨i', k', hread⟩ := @ih (c :: ((Gap.blanks bs).text.reverse ++ done)) i₁ k₁ hk₁ []
      refine ⟨i', k', ?_⟩
      rw [hpiece]
      have hdone : (c :: ((Gap.blanks bs).text.reverse ++ done)).reverse ++
          (([] : List Char).reverse ++ cs) = done.reverse ++ (bs.reverse ++ c :: cs) := by
        simp [Gap.text]
      rw [← hdone]
      exact hread

end Yaml
end Hosting
