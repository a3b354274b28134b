import Hosting.Proofs.Payload
import Mathlib.Data.List.DropRight
import Mathlib.Data.List.Forall2

/-!
# The lines of a stream and its documents

A stream is cut into lines, and its documents are the lines between those that divide it.  A line
that says something is in one of the documents, at its place, unless it is taken for a dividing
line: that happens exactly to those that go on after three dashes and a blank, or after three
dashes with a comment mark right behind them (`kept_iff`).
-/

namespace Hosting

namespace Text

theorem trimEnd_cons (c : Char) (cs : List Char) :
    trimEnd (c :: cs) = if trimEnd cs = [] ∧ isBlank c = true then [] else c :: trimEnd cs := by
  have hnil : trimEnd cs = [] ↔ cs.reverse.dropWhile isBlank = [] := List.reverse_eq_nil_iff
  simp only [hnil]
  unfold trimEnd
  rw [List.reverse_cons, List.dropWhile_append]
  cases hcs : cs.reverse.dropWhile isBlank <;> cases hc : isBlank c <;> simp [hc]

theorem trimEnd_cons_of_ne (c : Char) (cs : List Char) (h : isBlank c = false) :
    trimEnd (c :: cs) = c :: trimEnd cs := by
  rw [trimEnd_cons, if_neg]
  rw [h]
  exact fun hboth => Bool.false_ne_true hboth.2

theorem trimEnd_eq_nil_iff {cs : List Char} : trimEnd cs = [] ↔ trimStart cs = [] := by
  unfold trimStart
  rw [List.dropWhile_eq_nil_iff]
  exact List.rdropWhile_eq_nil_iff

/-- What is left without the blanks at the end begins as the text does. -/
theorem head?_trimEnd {cs : List Char} (h : trimEnd cs ≠ []) : (trimEnd cs).head? = cs.head? := by
  cases cs with
  | nil => rfl
  | cons c cs =>
    rw [trimEnd_cons] at h ⊢
    split at h
    · exact absurd rfl h
    · next hnot => rw [if_neg hnot]; rfl

end Text

namespace Payload

/-! ## Lines -/

theorem lines_cons (c : Char) (cs : List Char) : lines (c :: cs) =
    if c = '\n' then [c] :: lines cs
    else match lines cs with
      | [] => [[c]]
      | l :: ls => (c :: l) :: ls := rfl

theorem lines_ne_nil {cs : List Char} (h : cs ≠ []) : lines cs ≠ [] := by
  cases cs with
  | nil => exact absurd rfl h
  | cons c cs =>
    rw [lines_cons]
    split
    · exact List.cons_ne_nil _ _
    · split <;> exact List.cons_ne_nil _ _

/-- A text ends a line, if it has any. -/
def Ended (cs : List Char) : Prop := cs = [] ∨ cs.getLast? = some '\n'

theorem Ended.tail {c : Char} {cs : List Char} (h : Ended (c :: cs)) (hc : c ≠ '\n') :
    cs ≠ [] ∧ Ended cs := by
  rcases h with h | h
  · cases h
  · cases cs with
    | nil => exact absurd (Option.some.inj h) hc
    | cons d ds => exact ⟨List.cons_ne_nil d ds, .inr (by rwa [List.getLast?_cons_cons] at h)⟩

theorem lines_append {p : List Char} (h : Ended p) (q : List Char) :
    lines (p ++ q) = lines p ++ lines q := by
  induction p with
  | nil => rfl
  | cons c cs ih =>
    rw [List.cons_append, lines_cons, lines_cons]
    by_cases hc : c = '\n'
    · have hcs : Ended cs := by
        cases cs with
        | nil => exact .inl rfl
        | cons d ds =>
          rcases h with h | h
          · cases h
          · exact .inr (by rwa [List.getLast?_cons_cons] at h)
      rw [if_pos hc, if_pos hc, ih hcs]
      rfl
    · obtain ⟨hne, hcs⟩ := h.tail hc
      obtain ⟨l, ls, hl⟩ := List.exists_cons_of_ne_nil (lines_ne_nil hne)
      rw [if_neg hc, if_neg hc, ih hcs, hl]
      rfl

/-- Lines as a text is cut into them: each has its newline at its end, which the last may lack. -/
inductive Lined : List (List Char) → Prop where
  | nil : Lined []
  | last {l : List Char} (hne : l ≠ []) (h : '\n' ∉ l) : Lined [l]
  | cons {l : List Char} {ls : List (List Char)} (h : '\n' ∉ l) (hls : Lined ls) :
      Lined ((l ++ ['\n']) :: ls)

theorem lined_lines (cs : List Char) : Lined (lines cs) := by
  induction cs with
  | nil => exact .nil
  | cons c cs ih =>
    rw [lines_cons]
    by_cases hc : c = '\n'
    · rw [if_pos hc, hc]
      exact Lined.cons List.not_mem_nil ih
    · rw [if_neg hc]
      have hcons {l : List Char} (h : '\n' ∉ l) : '\n' ∉ c :: l := by
        rw [List.mem_cons, not_or]
        exact ⟨Ne.symm hc, h⟩
      generalize lines cs = ls at ih ⊢
      cases ih with
      | nil => exact .last (List.cons_ne_nil _ _) (hcons List.not_mem_nil)
      | last hne h => exact .last (List.cons_ne_nil _ _) (hcons h)
      | cons h hls => exact Lined.cons (hcons h) hls

theorem lines_of_notMem {l : List Char} (hne : l ≠ []) (h : '\n' ∉ l) : lines l = [l] := by
  induction l with
  | nil => exact absurd rfl hne
  | cons c cs ih =>
    rw [List.mem_cons, not_or] at h
    rw [lines_cons, if_neg (Ne.symm h.1)]
    cases cs with
    | nil => rfl
    | cons d ds => rw [ih (List.cons_ne_nil d ds) h.2]

theorem lines_concat_newline {l : List Char} (h : '\n' ∉ l) :
    lines (l ++ ['\n']) = [l ++ ['\n']] := by
  induction l with
  | nil => rfl
  | cons c cs ih =>
    rw [List.mem_cons, not_or] at h
    rw [List.cons_append, lines_cons, if_neg (Ne.symm h.1), ih h.2]

/-- Such lines are those of the text that they make up. -/
theorem lines_flatten {ls : List (List Char)} (h : Lined ls) : lines ls.flatten = ls := by
  induction h with
  | nil => rfl
  | last hne h =>
    rw [List.flatten_singleton]
    exact lines_of_notMem hne h
  | @cons l ls h _ ih =>
    have hended : Ended (l ++ ['\n']) := .inr List.getLast?_concat
    rw [List.flatten_cons, lines_append hended, lines_concat_newline h, ih]
    rfl

/-! ## Segments -/

theorem segments_ne_nil (ls : List (List Char)) : segments ls ≠ [] := by
  cases ls with
  | nil => exact List.cons_ne_nil _ _
  | cons l ls =>
    unfold segments
    split
    · exact List.cons_ne_nil _ _
    · split <;> exact List.cons_ne_nil _ _

theorem segments_eq_splitOnP (ls : List (List Char)) : segments ls = ls.splitOnP isSeparator := by
  induction ls with
  | nil => rfl
  | cons l ls ih =>
    rw [List.splitOnP_cons_eq_if_modifyHead, ← ih, segments]
    obtain ⟨s, ss, hs⟩ := List.exists_cons_of_ne_nil (segments_ne_nil ls)
    rw [hs]
    rfl

/-- The segments hold all but the dividing lines, in their order. -/
theorem flatten_segments (ls : List (List Char)) :
    (segments ls).flatten = ls.filter (!isSeparator ·) := by
  induction ls with
  | nil => rfl
  | cons l ls ih =>
    obtain ⟨s, ss, hs⟩ := List.exists_cons_of_ne_nil (segments_ne_nil ls)
    rw [segments, List.filter_cons, ← ih, hs]
    cases isSeparator l <;> rfl

theorem lined_segments {ls : List (List Char)} (h : Lined ls) : ∀ s ∈ segments ls, Lined s := by
  induction h with
  | nil =>
    intro s hs
    rw [List.mem_singleton.mp hs]
    exact .nil
  | @last l hne h =>
    intro s hs
    unfold segments at hs
    split at hs
    · simp only [segments, List.mem_cons, List.not_mem_nil, or_false, or_self] at hs
      rw [hs]
      exact .nil
    · rw [List.mem_singleton.mp hs]
      exact .last hne h
  | @cons l ls h _ ih =>
    intro s hs
    obtain ⟨t, ts, ht⟩ := List.exists_cons_of_ne_nil (segments_ne_nil ls)
    unfold segments at hs
    rw [ht] at hs ih
    split at hs
    · rcases List.mem_cons.mp hs with rfl | hs
      · exact .nil
      · exact ih s hs
    · rcases List.mem_cons.mp hs with rfl | hs
      · exact Lined.cons h (ih t List.mem_cons_self)
      · exact ih s (List.mem_cons_of_mem t hs)

/-! ## Documents -/

theorem filter_hasContent_of_not_any {s : List (List Char)} (h : s.any hasContent = false) :
    s.filter hasContent = [] := by
  rw [List.filter_eq_nil_iff]
  intro l hl hcontent
  rw [List.any_eq_true.mpr ⟨l, hl, hcontent⟩] at h
  cases h

/-- A segment without content is no document, so that no line with content gets lost by that. -/
theorem flatMap_filter_any (ss : List (List (List Char))) :
    (ss.filter (·.any hasContent)).flatMap (·.filter hasContent) =
      ss.flatten.filter hasContent := by
  induction ss with
  | nil => rfl
  | cons s ss ih =>
    rw [List.flatten_cons, List.filter_append, ← ih, List.filter_cons]
    split
    · rfl
    · next h =>
      rw [filter_hasContent_of_not_any (Bool.eq_false_iff.mpr h)]
      rfl

/-- The documents hold the lines of the stream that have content and do not divide it. -/
theorem content_documents (text : List Char) :
    (documents text).flatMap (fun d => (lines d).filter hasContent) =
      (lines text).filter fun l => hasContent l && !isSeparator l := by
  have hlined : ∀ s ∈ (segments (lines text)).filter (·.any hasContent),
      (lines s.flatten).filter hasContent = s.filter hasContent := by
    intro s hs
    rw [lines_flatten (lined_segments (lined_lines text) s (List.mem_filter.mp hs).1)]
  unfold documents
  rw [List.flatMap_map, List.flatMap_congr hlined, flatMap_filter_any, flatten_segments,
    List.filter_filter]

/-! ## What a line says -/

def dashes : List Char := ['-', '-', '-']

/-- Three dashes alone, or with blanks and then a comment behind them. -/
def isBare (line : List Char) : Bool :=
  (Text.dropLeading? dashes line).any fun rest => !hasContent rest && rest.head? != some '#'

/-- A line that is neither blank, nor a comment, nor a bare mark between documents. -/
def tells (line : List Char) : Bool := hasContent line && !isBare line

/-- Three dashes with a comment mark right behind them, or with a blank and then something that is
no comment. -/
def isLaden (line : List Char) : Bool :=
  (Text.dropLeading? dashes line).any fun rest =>
    rest.head? == some '#' || (rest.head? == some ' ' || rest.head? == some '\t') && hasContent rest

/-- Every line that says something is in a document, and they stand there in their order. -/
def Kept (text : List Char) : Prop :=
  (documents text).flatMap (fun d => (lines d).filter tells) = (lines text).filter tells

theorem hasContent_of_blank {rest : List Char} (h : Text.trimStart rest = []) :
    hasContent rest = false := by
  unfold hasContent Text.trim
  rw [h]
  rfl

theorem hasContent_dashes (rest : List Char) : hasContent (dashes ++ rest) = true := by
  have hdash : Text.isBlank '-' = false := by decide
  have htrim : Text.trim (dashes ++ rest) = '-' :: Text.trimEnd ('-' :: '-' :: rest) := by
    show Text.trimEnd (Text.trimStart ('-' :: '-' :: '-' :: rest)) = _
    rw [Text.trimStart, List.dropWhile_cons_of_neg (by rw [hdash]; exact Bool.false_ne_true),
      Text.trimEnd_cons_of_ne _ _ hdash]
  unfold hasContent
  rw [htrim]
  rfl

/-- What follows the dashes of a dividing line is blank, or begins with a blank or a comment
mark. -/
theorem isSeparator_dashes (rest : List Char) : isSeparator (dashes ++ rest) =
    ((Text.trimStart rest).isEmpty ||
      (rest.head? == some ' ' || rest.head? == some '\t' || rest.head? == some '#')) := by
  have hdash : Text.isBlank '-' = false := by decide
  have htrim : Text.trimEnd (dashes ++ rest) = '-' :: '-' :: '-' :: Text.trimEnd rest := by
    show Text.trimEnd ('-' :: '-' :: '-' :: rest) = _
    rw [Text.trimEnd_cons_of_ne _ _ hdash, Text.trimEnd_cons_of_ne _ _ hdash,
      Text.trimEnd_cons_of_ne _ _ hdash]
  unfold isSeparator
  rw [htrim]
  by_cases hblank : Text.trimEnd rest = []
  · rw [hblank, Text.trimEnd_eq_nil_iff.mp hblank]
    rfl
  · have hhead := Text.head?_trimEnd hblank
    have hsome : (Text.trimStart rest).isEmpty = false := by
      rw [List.isEmpty_eq_false_iff]
      exact fun h => hblank (Text.trimEnd_eq_nil_iff.mpr h)
    rw [hsome, ← hhead, Bool.false_or]
    cases ht : Text.trimEnd rest with
    | nil => exact absurd ht hblank
    | cons c cs => simp

theorem eq_dashes_of_isSeparator {line : List Char} (h : isSeparator line = true) :
    ∃ rest, line = dashes ++ rest := by
  -- what is left of the line without the blanks at its end is the beginning of the line
  have hprefix : Text.trimEnd line <+: line := List.rdropWhile_prefix Text.isBlank line
  have hdashes : dashes <+: Text.trimEnd line := by
    unfold isSeparator at h
    split at h
    · next hline => exact hline ▸ List.prefix_rfl
    · next c cs hline => exact hline ▸ List.prefix_append dashes (c :: cs)
    · cases h
  obtain ⟨rest, hrest⟩ := hdashes.trans hprefix
  exact ⟨rest, hrest.symm⟩

/-- The dividing lines that say something are those that go on after a blank or a comment mark. -/
theorem isLaden_eq (line : List Char) : isLaden line = (tells line && isSeparator line) := by
  by_cases hline : ∃ rest, line = dashes ++ rest
  · obtain ⟨rest, rfl⟩ := hline
    have hdrop : Text.dropLeading? dashes (dashes ++ rest) = some rest :=
      Text.dropLeading?_eq_some_iff.mpr rfl
    unfold isLaden tells isBare
    rw [hdrop, hasContent_dashes, isSeparator_dashes]
    simp only [Option.any_some, Bool.true_and]
    by_cases hblank : Text.trimStart rest = []
    · -- nothing but blanks: there is no content, and no comment mark
      have hmark : (rest.head? == some '#') = false := by
        cases rest with
        | nil => rfl
        | cons c cs =>
          have hc : Text.isBlank c = true := by
            rw [Text.trimStart, List.dropWhile_eq_nil_iff] at hblank
            exact hblank c List.mem_cons_self
          have hne : c ≠ '#' := by
            rintro rfl
            exact absurd hc (by decide)
          simp [hne]
      simp [hasContent_of_blank hblank, hmark, bne]
    · have hsome : (Text.trimStart rest).isEmpty = false := List.isEmpty_eq_false_iff.mpr hblank
      rw [hsome]
      unfold bne
      cases rest.head? == some '#' <;> cases hasContent rest <;> simp
  · have hdrop : Text.dropLeading? dashes line = none := by
      rw [Option.eq_none_iff_forall_ne_some]
      intro rest hrest
      exact hline ⟨rest, Text.dropLeading?_eq_some_iff.mp hrest⟩
    have hsep : isSeparator line = false := by
      rw [← Bool.not_eq_true]
      exact fun h => hline (eq_dashes_of_isSeparator h)
    unfold isLaden
    rw [hdrop, hsep, Bool.and_false]
    rfl

/-- Of the lines that say something, the documents hold those that do not divide the stream. -/
theorem said_documents (text : List Char) :
    (documents text).flatMap (fun d => (lines d).filter tells) =
      (lines text).filter fun l => tells l && !isLaden l := by
  have htells (ls : List (List Char)) :
      (ls.filter hasContent).filter (!isBare ·) = ls.filter tells := by
    rw [List.filter_filter]
    exact List.filter_congr fun l _ => Bool.and_comm _ _
  have hcontent := congrArg (List.filter (!isBare ·)) (content_documents text)
  rw [List.filter_flatMap] at hcontent
  simp only [htells, List.filter_filter] at hcontent
  rw [hcontent]
  refine List.filter_congr fun l _ => ?_
  rw [isLaden_eq]
  unfold tells
  cases hasContent l <;> cases isBare l <;> cases isSeparator l <;> rfl

theorem filter_tells_eq_iff (ls : List (List Char)) :
    (ls.filter fun l => tells l && !isLaden l) = ls.filter tells ↔
      ∀ l ∈ ls, isLaden l = false := by
  have hfilter : (ls.filter fun l => tells l && !isLaden l) =
      (ls.filter tells).filter (!isLaden ·) := by
    rw [List.filter_filter]
    exact List.filter_congr fun l _ => Bool.and_comm _ _
  rw [hfilter, List.filter_eq_self]
  constructor
  · intro h l hl
    by_cases htells : tells l = true
    · have hnot := h l (List.mem_filter.mpr ⟨hl, htells⟩)
      rwa [Bool.not_eq_true'] at hnot
    · rw [isLaden_eq, Bool.eq_false_iff.mpr htells, Bool.false_and]
  · intro h l hl
    rw [h l (List.mem_filter.mp hl).1]
    rfl

theorem decodeFrom_eq_ok_iff {index : Nat} {ds : List (List Char)} {vs : List Json} :
    decodeFrom index ds = .ok vs ↔
      List.Forall₂ (fun d v => decode (String.ofList d) = .ok v) ds vs := by
  induction ds generalizing index vs with
  | nil =>
    rw [List.forall₂_nil_left_iff, decodeFrom, Except.ok.injEq]
    exact eq_comm
  | cons d ds ih =>
    rw [decodeFrom, List.forall₂_cons_left_iff]
    cases hd : decode (String.ofList d) with
    | error f => simp
    | ok v =>
      cases hds : decodeFrom (index + 1) ds with
      | error r =>
        simp only [Except.map, reduceCtorEq, false_iff]
        rintro ⟨w, ws, -, hws, -⟩
        rw [ih.mpr hws] at hds
        cases hds
      | ok ws =>
        simp only [Except.map, Except.ok.injEq]
        constructor
        · rintro rfl
          exact ⟨v, ws, rfl, ih.mp hds, rfl⟩
        · rintro ⟨w, us, rfl, hus, rfl⟩
          rw [ih.mpr hus, Except.ok.injEq] at hds
          rw [hds]

/-- What a payload is decoded to are the objects of all its documents, in their order. -/
theorem decodeAll_encode_eq_ok_iff {text : List Char} {vs : List Json} :
    decodeAll (Utf8.encode text) = .ok vs ↔
      List.Forall₂ (fun d v => decode (String.ofList d) = .ok v) (documents text) vs := by
  rw [← @decodeFrom_eq_ok_iff 0, decodeAll, Utf8.decode_eq_ok_iff.mpr rfl]

/-- Nothing that a stream says is lost, unless it stands behind dashes on their line: the lines
that are missing from the documents are those, and no others.  What is decoded are the objects of
all documents. -/
theorem kept_iff (text : List Char) :
    (Kept text ↔ ∀ l ∈ lines text, isLaden l = false) ∧
      (documents text).flatMap (fun d => (lines d).filter tells) =
        (lines text).filter (fun l => tells l && !isLaden l) ∧
      ∀ vs, decodeAll (Utf8.encode text) = .ok vs ↔
        List.Forall₂ (fun d v => decode (String.ofList d) = .ok v) (documents text) vs := by
  refine ⟨?_, said_documents text, fun vs => decodeAll_encode_eq_ok_iff⟩
  rw [Kept, said_documents]
  exact filter_tells_eq_iff (lines text)

/-- A whole object behind dashes is lost without a word. -/
theorem object_behind_dashes_lost :
    ¬Kept "--- \x7bapiVersion: v1, kind: Secret\x7d\n".toList ∧
      decodeAll (Utf8.encode "--- \x7bapiVersion: v1, kind: Secret\x7d\n".toList) = .ok [] := by
  have hlines : lines "--- \x7bapiVersion: v1, kind: Secret\x7d\n".toList =
      ["--- \x7bapiVersion: v1, kind: Secret\x7d\n".toList] := by decide +kernel
  constructor
  · rw [(kept_iff _).1, hlines]
    intro h
    exact absurd (h _ List.mem_cons_self) (by decide +kernel)
  · have hnone : documents "--- \x7bapiVersion: v1, kind: Secret\x7d\n".toList = [] := by
      decide +kernel
    rw [decodeAll_encode_eq_ok_iff, hnone]
    exact .nil

end Payload
end Hosting
