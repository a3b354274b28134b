import Hosting.Proofs.Yaml.Glyph

/-!
# Literal scalars are read back

Behind its indentation every line of a literal text stands as it is, so the reader's state after a
part of it is a fold over the characters of that part (`BlockRead.next`), which holds just these
(`BlockRead.Holds`).  What becomes of the breaks at the end is what the marks say.
-/

namespace Hosting
namespace Yaml

variable {c : Char} {cs ds rest : List Char} {b : BlockRead} {i l k n indent : Nat}

/-! ## The state of the reader -/

namespace BlockRead

/-- A line of a block indented by `indent` begins with `c`. -/
def enter (indent : Nat) (b : BlockRead) (c : Char) : BlockRead :=
  { b.beginLine (isBlankChar c) with
    indent := some indent
    done := c :: (b.beginLine (isBlankChar c)).done }

/-- What a character of the text does. -/
def next (indent : Nat) (b : BlockRead) (c : Char) : BlockRead :=
  if isBreakChar c then
    if b.inLine then { b with lastBreak := some c, inLine := false }
    else { b with empties := c :: b.empties }
  else if b.inLine then { b with done := c :: b.done }
  else b.enter indent c

/-- The reader holds the text: all of it as read, and nothing after the last character of a line
that has not ended. -/
structure Holds (b : BlockRead) (cs : List Char) : Prop where
  literal : b.literal = true
  text : (b.empties ++ (b.lastBreak.toList ++ b.done)).reverse = cs
  line : b.inLine = true → b.lastBreak = none ∧ b.empties = []

theorem beginLine_literal (h : b.literal = true) (blank : Bool) :
    b.beginLine blank = { b with
      done := b.empties ++ (b.lastBreak.toList ++ b.done)
      lastBreak := none
      empties := []
      afterBlank := blank
      inLine := true } := by
  unfold beginLine
  rw [h]
  rfl

theorem next_break (h : isBreakChar c = true) (hline : b.inLine = true) :
    b.next indent c = { b with lastBreak := some c, inLine := false } := by
  rw [next, if_pos h, if_pos hline]

theorem next_empty (h : isBreakChar c = true) (hline : b.inLine = false) :
    b.next indent c = { b with empties := c :: b.empties } := by
  rw [next, if_pos h, hline]
  rfl

theorem next_text (h : isBreakChar c = false) (hline : b.inLine = true) :
    b.next indent c = { b with done := c :: b.done } := by
  rw [next, h, hline]
  rfl

theorem next_enter (h : isBreakChar c = false) (hline : b.inLine = false) :
    b.next indent c = b.enter indent c := by
  rw [next, h, hline]
  rfl

theorem inLine_next (hline : isBreakChar c = false) : (b.next indent c).inLine = true := by
  rw [next, if_neg (Bool.eq_false_iff.mp hline)]
  split
  · assumption
  · rfl

theorem inLine_next_break (hline : isBreakChar c = true) : (b.next indent c).inLine = false := by
  rw [next, if_pos hline]
  split
  · rfl
  · exact Bool.eq_false_iff.mpr ‹_›

theorem chomp_next : (b.next indent c).chomp = b.chomp := by
  unfold next
  split
  · split <;> rfl
  · split <;> rfl

theorem indent_next (h : b.indent = some indent) : (b.next indent c).indent = some indent := by
  unfold next
  split
  · split <;> exact h
  · split
    · exact h
    · rfl

theorem Holds.next (h : b.Holds cs) (indent : Nat) (c : Char) :
    (b.next indent c).Holds (cs ++ [c]) := by
  have htext := h.text
  cases hline : b.inLine with
  | true =>
    -- nothing is held back in a line
    obtain ⟨hlast, hempty⟩ := h.line hline
    rw [hlast, hempty] at htext
    cases hc : isBreakChar c with
    | true =>
      rw [next_break hc hline]
      refine ⟨h.literal, ?_, by intro h; cases h⟩
      show (b.empties ++ ([c] ++ b.done)).reverse = cs ++ [c]
      rw [hempty, ← htext]
      simp
    | false =>
      rw [next_text hc hline]
      refine ⟨h.literal, ?_, fun _ => ⟨hlast, hempty⟩⟩
      show (b.empties ++ (b.lastBreak.toList ++ c :: b.done)).reverse = cs ++ [c]
      rw [hlast, hempty, ← htext]
      simp
  | false =>
    cases hc : isBreakChar c with
    | true =>
      rw [next_empty hc hline]
      refine ⟨h.literal, ?_, by intro h; rw [hline] at h; cases h⟩
      show (c :: b.empties ++ (b.lastBreak.toList ++ b.done)).reverse = cs ++ [c]
      rw [List.cons_append, List.reverse_cons, htext]
    | false =>
      rw [next_enter hc hline, enter, beginLine_literal h.literal]
      refine ⟨h.literal, ?_, fun _ => ⟨rfl, rfl⟩⟩
      show (c :: (b.empties ++ (b.lastBreak.toList ++ b.done))).reverse = cs ++ [c]
      rw [List.reverse_cons, htext]

theorem Holds.foldl (h : b.Holds cs) (indent : Nat) (ds : List Char) :
    (ds.foldl (BlockRead.next indent) b).Holds (cs ++ ds) := by
  induction ds generalizing b cs with
  | nil =>
    rw [List.append_nil]
    exact h
  | cons d ds ih =>
    rw [List.append_cons]
    exact ih (h.next indent d)

theorem chomp_foldl (indent : Nat) (b : BlockRead) (ds : List Char) :
    (ds.foldl (BlockRead.next indent) b).chomp = b.chomp := by
  induction ds generalizing b with
  | nil => rfl
  | cons d ds ih => exact (ih (b.next indent d)).trans chomp_next

theorem indent_foldl (h : b.indent = some indent) (ds : List Char) :
    (ds.foldl (BlockRead.next indent) b).indent = some indent := by
  induction ds generalizing b with
  | nil => exact h
  | cons d ds ih => exact ih (indent_next h)

/-- The state after the marks of a block in surroundings indented by `parent`. -/
def start (parent : Nat) (hint : Option Nat) (chomp : Chomp) : BlockRead where
  literal := true
  chomp := chomp
  least := parent + 1
  indent := hint.map fun d => parent + d
  deepest := 0
  done := []
  lastBreak := none
  empties := []
  afterBlank := false
  inLine := false

theorem start_holds (parent : Nat) (hint : Option Nat) (chomp : Chomp) :
    (start parent hint chomp).Holds [] :=
  ⟨rfl, rfl, by intro h; cases h⟩

end BlockRead

/-! ## Reading -/

/-- Before the column of the block spaces are passed. -/
theorem readBlock_spaces (hline : b.inLine = false)
    (hindent : b.indent = none ∨ b.indent = some indent) (hn : k + n ≤ indent) :
    readBlock b (glyphsAt i l k (spaces n ++ cs)) =
      readBlock b (glyphsAt (i + n) l (k + n) cs) := by
  induction n generalizing i k with
  | zero => rfl
  | succ n ih =>
    have hi : i + (n + 1) = i + 1 + n := by omega
    have hk : k + (n + 1) = k + 1 + n := by omega
    have hinside : (b.indent.all (k < ·)) = true := by
      rcases hindent with h | h
      · rw [h]
        rfl
      · rw [h, Option.all_some, decide_eq_true (by omega)]
    rw [spaces_succ, List.cons_append, glyphsAt_space, readBlock, hi, hk]
    simp only [hline, hinside, Bool.false_eq_true, if_false, Bool.true_and, decide_true, if_true]
    exact ih (by omega)

/-- The first line that is not empty tells the column of the block, unless it is known. -/
theorem readBlock_enter (hline : b.inLine = false) (hc : isBreakChar c = false)
    (hw : isWritable c = true) (hindent : b.indent = some indent ∨ (b.indent = none ∧
      isSpaceChar c = false ∧ b.deepest ≤ indent ∧ b.least ≤ indent)) :
    readBlock b (glyphsAt i l 0 (spaces indent ++ c :: cs)) =
      readBlock (b.enter indent c) (glyphsAt (i + indent + c.utf8Size) l (indent + 1) cs) := by
  have hknown : b.indent = none ∨ b.indent = some indent := by
    rcases hindent with h | h
    · exact Or.inr h
    · exact Or.inl h.1
  have htab : c ≠ '\t' := ne_of_isWritable hw (by decide)
  rw [readBlock_spaces hline hknown (by omega), Nat.zero_add, glyphsAt_text hc, readBlock]
  simp only [hline, Glyph.isBreak, hc, Bool.false_eq_true, if_false]
  rcases hindent with h | ⟨h, hspace, hdeepest, hleast⟩
  · simp only [h, Option.all_some, Nat.lt_irrefl, decide_false, Bool.false_and, Bool.false_eq_true,
      if_false, Option.getD_some, if_true]
    rfl
  · have hne : c ≠ ' ' := by
      rintro rfl
      cases hspace
    have hcolumn : max (max b.deepest indent) b.least = indent := by omega
    simp only [h, Option.all_none, Bool.true_and, decide_eq_false hne, decide_eq_false htab,
      Bool.false_eq_true, if_false, Option.getD_none, hcolumn, if_true]
    rfl

/-- What a character is written as: behind the indentation where it begins a line. -/
theorem literalChars_cons (b : BlockRead) (c : Char) (cs rest : List Char) :
    literalChars indent (!b.inLine) (c :: cs) ++ rest =
      (if !b.inLine && !isBreakChar c then spaces indent else []) ++
        c :: (literalChars indent (!(b.next indent c).inLine) cs ++ rest) := by
  rw [literalChars]
  cases hc : isBreakChar c with
  | true =>
    rw [BlockRead.inLine_next_break hc, Bool.not_true, Bool.and_false]
    rfl
  | false =>
    rw [BlockRead.inLine_next hc, Bool.not_false, Bool.and_true]
    simp

/-- One character of a block that is begun is read with its indentation. -/
theorem readBlock_next (hw : isWritable c = true) (hindent : b.indent = some indent)
    (hk : b.inLine = false → k = 0) (rest : List Char) :
    ∃ i' l' k', l ≤ l' ∧ ((b.next indent c).inLine = false → k' = 0) ∧
      readBlock b (glyphsAt i l k
        ((if !b.inLine && !isBreakChar c then spaces indent else []) ++ c :: rest)) =
        readBlock (b.next indent c) (glyphsAt i' l' k' rest) := by
  cases hc : isBreakChar c with
  | true =>
    refine ⟨i + c.utf8Size, l + 1, 0, Nat.le_succ l, fun _ => rfl, ?_⟩
    rw [Bool.not_true, Bool.and_false]
    show readBlock b (glyphsAt i l k (c :: rest)) = _
    rw [glyphsAt_break hw hc, readBlock]
    cases hline : b.inLine with
    | true =>
      rw [BlockRead.next_break hc hline]
      simp only [if_true, Glyph.isBreak, hc]
    | false =>
      have hspace : c ≠ ' ' := by
        rintro rfl
        cases hc
      have htab : c ≠ '\t' := ne_of_isWritable hw (by decide)
      rw [BlockRead.next_empty hc hline]
      simp only [Bool.false_eq_true, if_false, Glyph.isBreak, hc, decide_eq_false hspace,
        decide_eq_false htab, Bool.and_false, if_true, hk hline, Nat.max_zero, hline]
  | false =>
    have hopen (h : (b.next indent c).inLine = false) : False := by
      rw [BlockRead.inLine_next hc] at h
      cases h
    cases hline : b.inLine with
    | true =>
      refine ⟨i + c.utf8Size, l, k + 1, Nat.le_refl l, fun h => (hopen h).elim, ?_⟩
      show readBlock b (glyphsAt i l k (c :: rest)) = _
      rw [glyphsAt_text hc, readBlock, BlockRead.next_text hc hline]
      simp only [hline, if_true, Glyph.isBreak, hc, Bool.false_eq_true, if_false]
    | false =>
      refine ⟨i + indent + c.utf8Size, l, indent + 1, Nat.le_refl l, fun h => (hopen h).elim, ?_⟩
      rw [hk hline, BlockRead.next_enter hc hline]
      exact readBlock_enter hline hc hw (Or.inl hindent)

/-- Characters of a block that is begun are read one by one. -/
theorem readBlock_chars (hw : IsWritten cs) (hindent : b.indent = some indent)
    (hk : b.inLine = false → k = 0) (rest : List Char) :
    ∃ i' l' k', l ≤ l' ∧ ((cs.foldl (BlockRead.next indent) b).inLine = false → k' = 0) ∧
      readBlock b (glyphsAt i l k (literalChars indent (!b.inLine) cs ++ rest)) =
        readBlock (cs.foldl (BlockRead.next indent) b) (glyphsAt i' l' k' rest) := by
  induction cs generalizing i l k b with
  | nil => exact ⟨i, l, k, Nat.le_refl l, hk, rfl⟩
  | cons c cs ih =>
    rw [isWritten_cons] at hw
    obtain ⟨i₁, l₁, k₁, hl₁, hk₁, hstep⟩ := @readBlock_next c b i l k indent hw.1 hindent hk
      (literalChars indent (!(b.next indent c).inLine) cs ++ rest)
    obtain ⟨i', l', k', hl, hk', hread⟩ := @ih (b.next indent c) i₁ l₁ k₁ hw.2
      (BlockRead.indent_next hindent) hk₁
    refine ⟨i', l', k', Nat.le_trans hl₁ hl, hk', ?_⟩
    rw [literalChars_cons, hstep, hread, List.foldl_cons]

/-- A line that begins to the left of the block ends it. -/
theorem readBlock_end (hline : b.inLine = false) (hindent : b.indent = some indent)
    (h : Outdented indent rest) (i l : Nat) :
    readBlock b (glyphsAt i l 0 rest) = some (b.finish, ahead i l rest) := by
  cases h with
  | nil => rfl
  | @line j c cs hj hc hcs =>
    have htab : c ≠ '\t' := ne_of_isWritable hc.writable (by decide)
    have hcolumn : ¬j = indent := by omega
    rw [ahead_line hc, readBlock_spaces hline (Or.inr hindent) (by omega), Nat.zero_add,
      glyphsAt_text hc.line, readBlock]
    simp only [hline, hindent, Option.all_some, decide_eq_false hc.ne_space, decide_eq_false htab,
      Glyph.isBreak, hc.line, Option.getD_some, if_neg hcolumn, Bool.and_false, Bool.false_eq_true,
      if_false]

/-! ## Marks -/

/-- What becomes of the last breaks of a literal text. -/
def chompOf (cs : List Char) : Chomp :=
  match cs.reverse with
  | a :: b :: _ => if !isBreakChar a then .strip else if isBreakChar b then .keep else .clip
  | [a] => if isBreakChar a then .keep else .strip
  | [] => .strip

/-- The first line of the text does not show the column of the block. -/
def isIndented (cs : List Char) : Bool := cs.head?.any fun c => isSpaceChar c || isBreakChar c

def hintOf (cs : List Char) : Option Nat := if isIndented cs then some 2 else none

theorem literalMarks_eq (cs : List Char) :
    literalMarks cs = (if isIndented cs then ['2'] else []) ++
      match chompOf cs with
      | .strip => ['-']
      | .clip => []
      | .keep => ['+'] := by
  unfold literalMarks chompOf
  show (if isIndented cs then ['2'] else []) ++ _ = _
  congr 1
  match cs.reverse with
  | [] => rfl
  | [a] => cases h : isBreakChar a <;> simp [h]
  | a :: d :: _ => cases h : isBreakChar a <;> cases h' : isBreakChar d <;> simp [h, h']

/-- The marks are read as what they stand for, and the text begins on the line after them. -/
theorem blockHeader?_literalMarks (cs ds : List Char) (i l k : Nat) :
    ∃ i', blockHeader? (glyphsAt i l k (literalMarks cs ++ '\n' :: ds)) =
      some (hintOf cs, chompOf cs, glyphsAt i' (l + 1) 0 ds) := by
  rw [literalMarks_eq, hintOf]
  cases isIndented cs with
  | true =>
    cases chompOf cs with
    | strip => exact ⟨_, rfl⟩
    | clip => exact ⟨_, rfl⟩
    | keep => exact ⟨_, rfl⟩
  | false =>
    cases chompOf cs with
    | strip => exact ⟨_, rfl⟩
    | clip => exact ⟨_, rfl⟩
    | keep => exact ⟨_, rfl⟩

theorem isWritten_literalMarks (cs : List Char) : IsWritten (literalMarks cs) := by
  rw [literalMarks_eq]
  cases isIndented cs with
  | true => cases chompOf cs <;> decide
  | false => cases chompOf cs <;> decide

theorem isWritten_literalChars (h : IsWritten cs) (indent : Nat) (a : Bool) :
    IsWritten (literalChars indent a cs) := by
  induction cs generalizing a with
  | nil => exact isWritten_nil
  | cons c cs ih =>
    rw [isWritten_cons] at h
    unfold literalChars
    split
    · exact isWritten_cons.mpr ⟨h.1, ih h.2 true⟩
    · refine isWritten_append.mpr ⟨?_, isWritten_cons.mpr ⟨h.1, ih h.2 false⟩⟩
      split
      · exact isWritten_spaces indent
      · exact isWritten_nil

theorem readBlockScalar_of_header {gs hs : List Glyph} {hint : Option Nat} {chomp : Chomp}
    (h : blockHeader? gs = some (hint, chomp, hs)) (parent : Nat) :
    readBlockScalar true parent gs = readBlock (.start parent hint chomp) hs := by
  have hleast : max 1 ((parent : Int) + 1).toNat = parent + 1 := by omega
  have hparent : (max (parent : Int) 0).toNat = parent := by omega
  unfold readBlockScalar
  rw [h]
  simp only [Option.bind_eq_bind, Option.bind_some, hleast, hparent]
  rfl

/-! ## The whole scalar -/

/-- The reader of a text after `ds` of it. -/
def readOf (p : Nat) (cs ds : List Char) : BlockRead :=
  ds.foldl (BlockRead.next (p + 2)) (.start p (hintOf cs) (chompOf cs))

variable {p : Nat}

theorem readOf_holds (p : Nat) (cs ds : List Char) : (readOf p cs ds).Holds ds :=
  (BlockRead.start_holds p (hintOf cs) (chompOf cs)).foldl (p + 2) ds

theorem chomp_readOf (p : Nat) (cs ds : List Char) : (readOf p cs ds).chomp = chompOf cs :=
  BlockRead.chomp_foldl (p + 2) (.start p (hintOf cs) (chompOf cs)) ds

theorem readOf_concat (p : Nat) (cs ds : List Char) (c : Char) :
    readOf p cs (ds ++ [c]) = (readOf p cs ds).next (p + 2) c := by
  unfold readOf
  rw [List.foldl_append]
  rfl

/-- Whether its marks or its first line tell the column of a text, it is read to its end. -/
theorem readBlock_start (hw : IsWritten cs) (hne : cs ≠ []) (p i l : Nat) (rest : List Char) :
    (readOf p cs cs).indent = some (p + 2) ∧
      ∃ i' l' k', l ≤ l' ∧ ((readOf p cs cs).inLine = false → k' = 0) ∧
        readBlock (.start p (hintOf cs) (chompOf cs))
          (glyphsAt i l 0 (literalChars (p + 2) true cs ++ rest)) =
          readBlock (readOf p cs cs) (glyphsAt i' l' k' rest) := by
  unfold readOf
  generalize chompOf cs = chomp
  unfold hintOf
  cases hindented : isIndented cs with
  | true =>
    have hindent : (BlockRead.start p (some 2) chomp).indent = some (p + 2) := rfl
    exact ⟨BlockRead.indent_foldl hindent cs, @readBlock_chars cs _ i l 0 (p + 2) hw hindent
      (fun _ => rfl) rest⟩
  | false =>
    obtain ⟨c, ds, rfl⟩ : ∃ c ds, cs = c :: ds := List.exists_cons_of_ne_nil hne
    rw [isWritten_cons] at hw
    obtain ⟨hspace, hc⟩ : isSpaceChar c = false ∧ isBreakChar c = false :=
      Bool.or_eq_false_iff.mp hindented
    have hindent : ((BlockRead.start p none chomp).enter (p + 2) c).indent = some (p + 2) := rfl
    have henter := @readBlock_enter c (literalChars (p + 2) false ds ++ rest)
      (.start p none chomp) i l (p + 2) rfl hc hw.1
      (Or.inr ⟨rfl, hspace, Nat.zero_le _, Nat.le_succ _⟩)
    obtain ⟨i', l', k', hl, hk', hread⟩ := @readBlock_chars ds
      ((BlockRead.start p none chomp).enter (p + 2) c) (i + (p + 2) + c.utf8Size) l (p + 2 + 1)
      (p + 2) hw.2 hindent (by intro h; cases h) rest
    simp only [Bool.false_eq_true, if_false]
    rw [List.foldl_cons, BlockRead.next_enter hc rfl]
    refine ⟨BlockRead.indent_foldl hindent ds, i', l', k', hl, hk', ?_⟩
    rw [← hread, literalChars, hc]
    simp only [Bool.false_eq_true, if_false, if_true, List.append_assoc, List.cons_append]
    exact henter

theorem chompOf_text (hc : isBreakChar c = false) (ds : List Char) :
    chompOf (ds ++ [c]) = .strip := by
  unfold chompOf
  rw [List.reverse_append]
  cases ds.reverse <;> simp [hc]

/-- A break at the end is kept as it is by reading on, or is the only one. -/
theorem chompOf_break (hc : isBreakChar c = true) (ds : List Char) :
    chompOf (ds ++ [c]) = .keep ∨
      (chompOf (ds ++ [c]) = .clip ∧ ∃ es d, ds = es ++ [d] ∧ isBreakChar d = false) := by
  unfold chompOf
  rw [List.reverse_append]
  rcases List.eq_nil_or_concat ds with rfl | ⟨es, d, rfl⟩
  · exact Or.inl (by simp [hc])
  · cases hd : isBreakChar d with
    | true => exact Or.inl (by simp [hc, hd])
    | false => exact Or.inr ⟨by simp [hc, hd], es, d, List.concat_eq_append, hd⟩

theorem finish_keep (hhold : b.Holds cs) (hchomp : b.chomp = .keep) : b.finish = cs := by
  rw [← hhold.text]
  unfold BlockRead.finish
  rw [hchomp]
  rfl

/-- The one break at the end of a text is kept. -/
theorem finish_clip (hhold : b.Holds cs) (hline : b.inLine = true) (hchomp : b.chomp = .clip)
    (hc : isBreakChar c = true) : (b.next indent c).finish = cs ++ [c] := by
  have hnext := hhold.next indent c
  rw [BlockRead.next_break hc hline] at hnext ⊢
  rw [← hnext.text]
  unfold BlockRead.finish
  simp only [hchomp, (hhold.line hline).2]
  rfl

/-- The break that is written after the last line of a text is no part of it. -/
theorem finish_strip (hhold : b.Holds cs) (hline : b.inLine = true) (hchomp : b.chomp = .strip) :
    (b.next indent '\n').finish = cs := by
  obtain ⟨hlast, hempty⟩ := hhold.line hline
  have htext := hhold.text
  rw [hlast, hempty] at htext
  rw [BlockRead.next_break rfl hline, ← htext]
  unfold BlockRead.finish
  simp only [hchomp]
  rfl

/-- What is read of a text that ends in a break is all of it. -/
theorem finish_readOf (hc : isBreakChar c = true) (p : Nat) (ds : List Char) :
    (readOf p (ds ++ [c]) (ds ++ [c])).finish = ds ++ [c] := by
  have hchomp := chomp_readOf p (ds ++ [c])
  rcases chompOf_break hc ds with hkeep | ⟨hclip, es, d, rfl, hd⟩
  · exact finish_keep (readOf_holds p _ _) ((hchomp _).trans hkeep)
  · have hline : (readOf p (es ++ [d] ++ [c]) (es ++ [d])).inLine = true := by
      rw [readOf_concat]
      exact BlockRead.inLine_next hd
    rw [readOf_concat]
    exact finish_clip (readOf_holds p _ _) hline ((hchomp _).trans hclip) hc

/-- A text that has been read is ended by the first line to the left of it, where a line of it
that is open has been ended by a break. -/
theorem readBlock_close (hne : cs ≠ []) (hindent : (readOf p cs cs).indent = some (p + 2))
    (hk : (readOf p cs cs).inLine = false → k = 0) (hrest : Outdented (p + 2) rest) (i l : Nat) :
    ∃ i' l', l ≤ l' ∧
      readBlock (readOf p cs cs)
        (glyphsAt i l k ((if cs.getLast?.any isBreakChar then [] else ['\n']) ++ rest)) =
        some (cs, ahead i' l' rest) := by
  obtain ⟨ds, c, rfl⟩ : ∃ ds c, cs = ds ++ [c] := by
    rcases List.eq_nil_or_concat cs with h | ⟨ds, c, h⟩
    · exact absurd h hne
    · exact ⟨ds, c, h.trans List.concat_eq_append⟩
  have hstep := readOf_concat p (ds ++ [c]) ds c
  rw [List.getLast?_append, List.getLast?_singleton, Option.some_or, Option.any_some]
  cases hc : isBreakChar c with
  | true =>
    have hline : (readOf p (ds ++ [c]) (ds ++ [c])).inLine = false := by
      rw [hstep]
      exact BlockRead.inLine_next_break hc
    refine ⟨i, l, Nat.le_refl l, ?_⟩
    rw [if_pos rfl, List.nil_append, hk hline, readBlock_end hline hindent hrest,
      finish_readOf hc]
  | false =>
    have hhold := readOf_holds p (ds ++ [c]) (ds ++ [c])
    have hchomp := (chomp_readOf p (ds ++ [c]) (ds ++ [c])).trans (chompOf_text hc ds)
    have hline : (readOf p (ds ++ [c]) (ds ++ [c])).inLine = true := by
      rw [hstep]
      exact BlockRead.inLine_next hc
    generalize readOf p (ds ++ [c]) (ds ++ [c]) = b at *
    have hended : (b.next (p + 2) '\n').inLine = false := BlockRead.inLine_next_break rfl
    have hbreak : readBlock b (glyphsAt i l k ('\n' :: rest)) =
        readBlock (b.next (p + 2) '\n') (glyphsAt (i + 1) (l + 1) 0 rest) := by
      rw [glyphsAt_newline, readBlock, BlockRead.next_break rfl hline]
      simp only [hline, if_true]
      rfl
    refine ⟨i + 1, l + 1, Nat.le_succ l, ?_⟩
    show readBlock b (glyphsAt i l k ('\n' :: rest)) = _
    rw [hbreak, readBlock_end hended (BlockRead.indent_next hindent) hrest,
      finish_strip hhold hline hchomp]

theorem readBlockScalar_text (hw : IsWritten cs) (hne : cs ≠ [])
    (hrest : Outdented (p + 2) rest) (i l k : Nat) :
    ∃ i' l', l < l' ∧
      readBlockScalar true p (glyphsAt i l k (literalMarks cs ++ '\n' ::
        (literalChars (p + 2) true cs ++
          ((if cs.getLast?.any isBreakChar then [] else ['\n']) ++ rest)))) =
        some (cs, ahead i' l' rest) := by
  obtain ⟨i₁, hheader⟩ := blockHeader?_literalMarks cs (literalChars (p + 2) true cs ++
    ((if cs.getLast?.any isBreakChar then [] else ['\n']) ++ rest)) i l k
  obtain ⟨hindent, i₂, l₂, k₂, hl, hk, hread⟩ := readBlock_start hw hne p i₁ (l + 1)
    ((if cs.getLast?.any isBreakChar then [] else ['\n']) ++ rest)
  obtain ⟨i', l', hl', hclose⟩ := readBlock_close hne hindent hk hrest i₂ l₂
  exact ⟨i', l', by omega, by rw [readBlockScalar_of_header hheader, hread, hclose]⟩

end Yaml
end Hosting
