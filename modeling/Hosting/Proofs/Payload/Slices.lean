import Hosting.Payload.Slices
import Hosting.Proofs.Payload.Documents

/-!
# Documents as slices of the stream

The pass over the lines of a stream counts two places, where the slice begins that is under way and
where the line begins that is looked at.  Both are places between characters, as what has been
passed by is made up of whole lines (`mapM_slices`).  So every slice is to be had, and the documents
that are cut out are the segments with content (`cut_in_parts`).
-/

namespace Hosting
namespace Payload

/-! ## Places -/

theorem octets_append (p q : List Char) : octets (p ++ q) = octets p + octets q := by
  induction p with
  | nil => simp [octets]
  | cons c cs ih =>
    rw [List.cons_append, octets, octets, ih]
    omega

/-- A text can be parted where a beginning of it ends. -/
theorem partAt?_append (p r : List Char) : partAt? (octets p) (p ++ r) = some (p, r) := by
  induction p with
  | nil => simp [octets, partAt?]
  | cons c cs ih =>
    have hc := c.utf8Size_pos
    have hcs : octets (c :: cs) = c.utf8Size + octets cs := rfl
    cases hn : octets (c :: cs) with
    | zero => omega
    | succ n =>
      have hle : c.utf8Size ≤ n + 1 := by omega
      have hrest : n + 1 - c.utf8Size = octets cs := by omega
      rw [List.cons_append, partAt?, if_pos hle, hrest, ih]
      rfl

theorem append_of_partAt? {n : Nat} {cs p r : List Char} (h : partAt? n cs = some (p, r)) :
    cs = p ++ r ∧ octets p = n := by
  induction cs generalizing n p with
  | nil =>
    cases n with
    | zero =>
      cases h
      exact ⟨rfl, rfl⟩
    | succ n => cases h
  | cons c cs ih =>
    cases n with
    | zero =>
      cases h
      exact ⟨rfl, rfl⟩
    | succ n =>
      rw [partAt?, Option.ite_none_right_eq_some, Option.map_eq_some_iff] at h
      obtain ⟨hle, ⟨p', r'⟩, hrest, heq⟩ := h
      cases heq
      obtain ⟨hcs, hp'⟩ := ih hrest
      refine ⟨by rw [hcs]; rfl, ?_⟩
      show octets (c :: p') = n + 1
      rw [octets]
      omega

/-- The place lies in the stream, between two characters or at one of its ends. -/
def IsPlace (stream : List Char) (n : Nat) : Prop := ∃ p r, stream = p ++ r ∧ octets p = n

variable {stream before inside d : List Char} {ls : List (List Char)} {s : Slice}

theorem text?_append (before inside rest : List Char) :
    Slice.text? (before ++ inside ++ rest) ⟨octets before, octets (before ++ inside)⟩ =
      some inside := by
  have hstop := octets_append before inside
  have hle : octets before ≤ octets (before ++ inside) := by omega
  have hlength : octets (before ++ inside) - octets before = octets inside := by omega
  unfold Slice.text?
  dsimp only
  rw [if_pos hle, List.append_assoc, partAt?_append, hlength]
  show (partAt? (octets inside) (inside ++ rest)).bind _ = _
  rw [partAt?_append]
  rfl

theorem places_of_text? (h : s.text? stream = some d) :
    s.start ≤ s.stop ∧ IsPlace stream s.start ∧ IsPlace stream s.stop := by
  unfold Slice.text? at h
  rw [Option.ite_none_right_eq_some] at h
  obtain ⟨hle, h⟩ := h
  obtain ⟨⟨p, rest⟩, hp, h⟩ := Option.bind_eq_some_iff.mp h
  obtain ⟨⟨inside, r⟩, hinside, -⟩ := Option.bind_eq_some_iff.mp h
  obtain ⟨hstream, hstart⟩ := append_of_partAt? hp
  obtain ⟨hrest, hlength⟩ := append_of_partAt? hinside
  refine ⟨hle, ⟨p, rest, hstream, hstart⟩, p ++ inside, r, ?_, ?_⟩
  · rw [hstream, hrest, List.append_assoc]
  · rw [octets_append]
    omega

/-! ## The pass over the lines -/

/-- `before` is what has been passed by, but for what is in the slice under way so far. -/
theorem mapM_slices (h : stream = before ++ inside ++ ls.flatten) :
    (slices (octets stream) (octets before) (octets (before ++ inside)) ls).mapM
        (Slice.text? stream) =
      some (((segments ls).map List.flatten).modifyHead (inside ++ ·)) := by
  induction ls generalizing before inside with
  | nil =>
    rw [List.flatten_nil, List.append_nil] at h
    have hlast := text?_append before inside []
    rw [List.append_nil, ← h] at hlast
    rw [slices, List.mapM_cons, hlast, List.mapM_nil]
    simp [segments]
  | cons l ls ih =>
    rw [List.flatten_cons] at h
    have hnext : octets (before ++ inside) + octets l = octets (before ++ inside ++ l) :=
      (octets_append _ _).symm
    rw [slices]
    rw [hnext]
    by_cases hl : isSeparator l = true
    · -- the slice under way ends before the line, and the next one begins behind it
      have hslice := text?_append before inside (l ++ ls.flatten)
      rw [← h] at hslice
      have hrest := @ih (before ++ inside ++ l) [] (by rw [h]; simp)
      rw [List.append_nil] at hrest
      rw [if_pos hl, List.mapM_cons, hslice, hrest, segments, if_pos hl]
      cases segments ls <;> simp
    · have hrest := @ih before (inside ++ l) (by rw [h]; simp)
      rw [← List.append_assoc] at hrest
      rw [if_neg hl, hrest, segments, if_neg hl]
      obtain ⟨t, ts, ht⟩ := List.exists_cons_of_ne_nil (segments_ne_nil ls)
      rw [ht]
      simp

theorem flatten_lines (cs : List Char) : (lines cs).flatten = cs := by
  induction cs with
  | nil => rfl
  | cons c cs ih =>
    rw [lines_cons]
    by_cases hc : c = '\n'
    · rw [if_pos hc, List.flatten_cons, ih]
      rfl
    · rw [if_neg hc]
      cases hls : lines cs with
      | nil =>
        rw [hls] at ih
        rw [← ih]
        rfl
      | cons l ls =>
        rw [hls] at ih
        rw [← ih]
        rfl

/-- The slices are to be had, and their texts are the segments of the stream. -/
theorem mapM_slices_lines (stream : List Char) :
    (slices (octets stream) 0 0 (lines stream)).mapM (Slice.text? stream) =
      some ((segments (lines stream)).map List.flatten) := by
  have hslices := @mapM_slices stream [] [] (lines stream) (flatten_lines stream).symm
  cases hss : (segments (lines stream)).map List.flatten <;> simp_all [octets]

/-- What is cut out of a stream are its documents. -/
theorem cut?_eq_documents (stream : List Char) : cut? stream = some (documents stream) := by
  have hcontent : ∀ s ∈ segments (lines stream),
      (lines s.flatten).any hasContent = s.any hasContent := by
    intro s hs
    rw [lines_flatten (lined_segments (lined_lines stream) s hs)]
  unfold cut? documents
  rw [mapM_slices_lines, Option.map_some, List.filter_map, ← List.filter_congr hcontent]
  rfl

example : cut? "---\r\na: é\r\n--- # b\n \n---\nc: d".toList =
    some ["a: é\r\n".toList, "c: d".toList] := by decide +kernel

theorem exists_text?_of_mapM {ss : List Slice} {ds : List (List Char)}
    (h : ss.mapM (Slice.text? stream) = some ds) (hs : s ∈ ss) : ∃ d, s.text? stream = some d := by
  induction ss generalizing ds with
  | nil => cases hs
  | cons x xs ih =>
    rw [List.mapM_cons] at h
    obtain ⟨d, hd, h⟩ := Option.bind_eq_some_iff.mp h
    obtain ⟨ds', hds', -⟩ := Option.bind_eq_some_iff.mp h
    rcases List.mem_cons.mp hs with rfl | hs
    · exact ⟨d, hd⟩
    · exact ih hds' hs

theorem places_of_mem_slices (h : s ∈ slices (octets stream) 0 0 (lines stream)) :
    s.start ≤ s.stop ∧ IsPlace stream s.start ∧ IsPlace stream s.stop := by
  obtain ⟨d, hd⟩ := exists_text?_of_mapM (mapM_slices_lines stream) h
  exact places_of_text? hd

/-! ## The parts of a stream -/

/-- Texts with others between them. -/
def woven : List (List Char) → List (List Char) → List Char
  | s :: ss, d :: ds => s ++ d ++ woven ss ds
  | ss, [] => ss.flatten
  | [], ds => ds.flatten

theorem woven_append_head (t s : List Char) (ss ds : List (List Char)) :
    woven ((t ++ s) :: ss) ds = t ++ woven (s :: ss) ds := by
  cases ds with
  | nil => exact List.append_assoc t s ss.flatten
  | cons d ds =>
    show t ++ s ++ d ++ woven ss ds = t ++ (s ++ d ++ woven ss ds)
    simp

theorem woven_segments (ls : List (List Char)) :
    woven ((segments ls).map List.flatten) (ls.filter isSeparator) = ls.flatten := by
  induction ls with
  | nil => rfl
  | cons l ls ih =>
    rw [segments, List.filter_cons, List.flatten_cons, ← ih]
    by_cases hl : isSeparator l = true
    · rw [if_pos hl, if_pos hl]
      rfl
    · obtain ⟨t, ts, ht⟩ := List.exists_cons_of_ne_nil (segments_ne_nil ls)
      rw [if_neg hl, if_neg hl, ht]
      exact woven_append_head l t.flatten _ _

theorem length_segments (ls : List (List Char)) :
    (segments ls).length = (ls.filter isSeparator).length + 1 := by
  induction ls with
  | nil => rfl
  | cons l ls ih =>
    rw [segments, List.filter_cons]
    by_cases hl : isSeparator l = true
    · rw [if_pos hl, if_pos hl, List.length_cons, List.length_cons, ih]
    · obtain ⟨t, ts, ht⟩ := List.exists_cons_of_ne_nil (segments_ne_nil ls)
      rw [ht] at ih
      rw [if_neg hl, if_neg hl, ht, ← ih]
      rfl

theorem isSeparator_of_mem_segments {ls : List (List Char)} {s : List (List Char)} {l : List Char}
    (hs : s ∈ segments ls) (hl : l ∈ s) : isSeparator l = false := by
  have hmem : l ∈ (segments ls).flatten := List.mem_flatten.mpr ⟨s, hs, hl⟩
  rw [flatten_segments, List.mem_filter, Bool.not_eq_true'] at hmem
  exact hmem.2

theorem isSeparator_of_mem_documents {l : List Char} (hd : d ∈ documents stream)
    (hl : l ∈ lines d) : isSeparator l = false := by
  obtain ⟨s, hs, rfl⟩ := List.mem_map.mp hd
  have hs := (List.mem_filter.mp hs).1
  rw [lines_flatten (lined_segments (lined_lines stream) s hs)] at hl
  exact isSeparator_of_mem_segments hs hl

/-- The stream is made up of the segments with the dividing lines between them, and the segments
hold none of these. -/
structure InParts (stream : List Char) (ss : List (List (List Char))) (ds : List (List Char)) :
    Prop where
  whole : woven (ss.map List.flatten) ds = stream
  between : ss.length = ds.length + 1
  divides : ∀ d ∈ ds, isSeparator d = true
  runs : ∀ s ∈ ss, ∀ l ∈ s, isSeparator l = false

theorem inParts_segments (stream : List Char) :
    InParts stream (segments (lines stream)) ((lines stream).filter isSeparator) where
  whole := by rw [woven_segments, flatten_lines]
  between := length_segments _
  divides _ hd := (List.mem_filter.mp hd).2
  runs _ hs _ hl := isSeparator_of_mem_segments hs hl

/-- The lines of a stream fall into segments with the dividing lines between them.  Cutting finds
each segment between two places of the stream, whatever characters it is made of, and gives those
that have content. -/
theorem cut_in_parts (stream : List Char) :
    (Lined (lines stream) ∧ (lines stream).flatten = stream) ∧
      InParts stream (segments (lines stream)) ((lines stream).filter isSeparator) ∧
      (∀ s ∈ slices (octets stream) 0 0 (lines stream),
        s.start ≤ s.stop ∧ IsPlace stream s.start ∧ IsPlace stream s.stop) ∧
      cut? stream =
        some (((segments (lines stream)).filter (·.any hasContent)).map List.flatten) ∧
      cut? stream = some (documents stream) ∧
      ∀ d ∈ documents stream, ∀ l ∈ lines d, isSeparator l = false := by
  refine ⟨⟨lined_lines stream, flatten_lines stream⟩, inParts_segments stream, ?_,
    cut?_eq_documents stream, cut?_eq_documents stream, ?_⟩
  · intro s hs
    exact places_of_mem_slices hs
  · intro d hd l hl
    exact isSeparator_of_mem_documents hd hl

end Payload
end Hosting
