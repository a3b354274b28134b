import Hosting.Proofs.Yaml.Glyph
import Mathlib.Data.List.TakeWhile

/-!
# Cutting what is written

Where nothing is written in flow form the state of the cutter is its tokens, the columns of the open
blocks and a possible start of a key (`Cutter.block`).  `Leads` says that cutting goes on from one
place as it does from another, and counts the steps in between against the glyphs that they pass,
for a stream is cut with one step for each glyph.
-/

namespace Hosting
namespace Yaml

variable {c : Char} {cs rest : List Char} {i l k p : Nat} {g : Glyph} {gs hs : List Glyph}
  {ts us : List Token} {is : List Nat} {s : Option KeyStart} {a : Bool} {b d e : Cutter}

/-! ## Steps -/

/-- The cutter outside of flow collections. -/
def Cutter.block (ts : List Token) (is : List Nat) (s : Option KeyStart) (a : Bool) : Cutter :=
  ⟨ts, ts.length, is, s, [], a⟩

open Cutter (block)

/-- Cutting goes on from the first place as from the second, after no more steps than glyphs. -/
def Leads (b : Cutter) (gs : List Glyph) (d : Cutter) (hs : List Glyph) : Prop :=
  ∃ m, hs.length + m ≤ gs.length ∧ ∀ n, cutFrom (n + m + 1) b gs = cutFrom (n + 1) d hs

theorem Leads.refl (b : Cutter) (gs : List Glyph) : Leads b gs b gs :=
  ⟨0, Nat.le_refl _, fun _ => rfl⟩

theorem Leads.trans {ks : List Glyph} (h : Leads b gs d hs) (h' : Leads d hs e ks) :
    Leads b gs e ks := by
  obtain ⟨m, hm, hcut⟩ := h
  obtain ⟨m', hm', hcut'⟩ := h'
  refine ⟨m' + m, by omega, fun n => ?_⟩
  rw [← Nat.add_assoc, hcut, hcut']

/-- A stream that leads to its end is cut. -/
theorem Leads.cutFrom_eq (h : Leads b gs d []) : cutFrom (gs.length + 1) b gs = d.finish? := by
  obtain ⟨m, hm, hcut⟩ := h
  have hlength : gs.length = gs.length - m + m := by
    rw [List.length_nil] at hm
    omega
  rw [hlength, hcut]
  rfl

theorem leads_skip {x : Bool} (h : skipBlanks false a false gs = skipBlanks false x false hs)
    (hlength : hs.length ≤ gs.length) : Leads (block ts is s a) gs (block ts is s x) hs := by
  refine ⟨0, hlength, fun n => ?_⟩
  show cutFrom (n + 1) (block ts is s a) gs = cutFrom (n + 1) (block ts is s x) hs
  have hskip : skipBlanks (block ts is s a).inFlow (block ts is s a).keyAllowed false gs =
      skipBlanks (block ts is s x).inFlow (block ts is s x).keyAllowed false hs := h
  rw [cutFrom, cutFrom, hskip]
  rfl

theorem leads_space : Leads (block ts is s a) (⟨' ', i, l, k⟩ :: gs) (block ts is s a) gs := by
  apply leads_skip
  · rw [skipBlanks]
    simp [Glyph.isBreak, isBreakChar]
  · exact Nat.le_succ _

theorem skipBlanks_spaces (n i l k : Nat) (cs : List Char) :
    skipBlanks false a false (glyphsAt i l k (spaces n ++ cs)) =
      skipBlanks false a false (glyphsAt (i + n) l (k + n) cs) := by
  induction n generalizing i k with
  | zero => rfl
  | succ n ih =>
    have hi : i + (n + 1) = i + 1 + n := by omega
    have hk : k + (n + 1) = k + 1 + n := by omega
    rw [spaces_succ, List.cons_append, glyphsAt_space, hi, hk, skipBlanks]
    simp only [Glyph.isBreak, isBreakChar]
    exact ih (i + 1) (k + 1)

/-- The spaces that a text begins with. -/
theorem takeWhile_isSpaceChar (cs : List Char) :
    cs = spaces (cs.takeWhile isSpaceChar).length ++ cs.dropWhile isSpaceChar := by
  have hall : ∀ c ∈ cs.takeWhile isSpaceChar, c = ' ' := by
    intro c hc
    have hspace : isSpaceChar c = true := List.mem_takeWhile_imp hc
    exact eq_of_beq hspace
  have hspaces : cs.takeWhile isSpaceChar = spaces (cs.takeWhile isSpaceChar).length :=
    List.eq_replicate_iff.mpr ⟨rfl, hall⟩
  rw [← hspaces, List.takeWhile_append_dropWhile]

/-- After a break a key may start, and the spaces that the line begins with are passed. -/
theorem leads_newline (hw : IsWritten rest) :
    Leads (block ts is s a) (glyphsAt i l k ('\n' :: rest)) (block ts is s true)
      (ahead (i + 1) (l + 1) rest) := by
  have hlines := @skipBlanks_spaces true (rest.takeWhile isSpaceChar).length (i + 1) (l + 1) 0
    (rest.dropWhile isSpaceChar)
  rw [← takeWhile_isSpaceChar, Nat.zero_add] at hlines
  rw [glyphsAt_newline]
  apply leads_skip
  · rw [skipBlanks]
    exact hlines
  · have hlength := length_ahead_le hw (i + 1) (l + 1)
    rw [List.length_cons, length_glyphsAt hw]
    omega

/-! ## Starts of keys -/

/-- A possible start of a key is on a line before, and nothing hangs on it. -/
def Settled (l : Nat) (s : Option KeyStart) : Prop := ∀ k ∈ s, k.line < l ∧ k.required = false

theorem settled_none (l : Nat) : Settled l none := fun _ h => nomatch h

theorem dropStale?_settled (h : Settled g.line s) :
    (block ts is s a).dropStale? g = some (block ts is none a) := by
  cases s with
  | none => rfl
  | some k =>
    obtain ⟨hline, hrequired⟩ := h k rfl
    simp [Cutter.dropStale?, Cutter.isStale, hline, hrequired, block]

/-- A start on the same line that is near enough is kept. -/
theorem dropStale?_fresh {k : KeyStart} (hline : k.line = g.line)
    (hnear : g.index ≤ k.index + 1024) :
    (block ts is (some k) a).dropStale? g = some (block ts is (some k) a) := by
  have hfresh : Cutter.isStale g k = false := by
    unfold Cutter.isStale
    rw [decide_eq_false (by omega), decide_eq_false (by omega)]
    rfl
  simp [Cutter.dropStale?, hfresh, block]

/-! ## Blocks -/

/-- The innermost block lies at a column that is at most `k`. -/
def Within (k : Nat) (is : List Nat) : Prop := ∀ p ∈ is.head?, p ≤ k

theorem unroll_within (h : Within k is) :
    (block ts is s a).unroll (k : Nat) = block ts is s a := by
  have hnone : is.takeWhile (fun p : Nat => (k : Int) < (p : Int)) = [] := by
    cases is with
    | nil => rfl
    | cons p is =>
      have hp : p ≤ k := h p rfl
      rw [List.takeWhile_cons, decide_eq_false (by omega)]
      rfl
  show Cutter.mk _ _ _ _ _ _ = _
  rw [show (block ts is s a).indents = is from rfl, hnone]
  rfl

theorem roll_open {n : Nat} {t : Token} (h : ∀ p ∈ is.head?, p < k) :
    (block ts is s a).roll k n t = { (block ts is s a).insertAt n t with indents := k :: is } := by
  have hless : ¬(k : Int) ≤ (block ts is s a).indent := by
    cases is with
    | nil =>
      show ¬(k : Int) ≤ -1
      omega
    | cons p is =>
      have hp : p < k := h p rfl
      show ¬(k : Int) ≤ (p : Int)
      omega
  unfold Cutter.roll
  rw [decide_eq_false hless]
  rfl

theorem roll_same {n : Nat} {t : Token} :
    (block ts (k :: is) s a).roll k n t = block ts (k :: is) s a := by
  have hsame : (k : Int) ≤ (block ts (k :: is) s a).indent := Int.le_refl _
  unfold Cutter.roll
  rw [decide_eq_true hsame, Bool.or_true, if_pos rfl]

theorem skipBlanks_begins (hg : Begins g.char) (b : Cutter) (gs : List Glyph) :
    skipBlanks b.inFlow b.keyAllowed false (g :: gs) = (b.keyAllowed, g :: gs) := by
  have htab : g.char ≠ '\t' := ne_of_isWritable hg.writable (by decide)
  have horder : g.char ≠ '\uFEFF' := ne_of_isWritable hg.writable (by decide)
  rw [skipBlanks]
  simp [Glyph.isBreak, hg.line, Glyph.marksOrder, hg.ne_space, htab, horder, hg.comment]

theorem within_of_lt (h : p < k) : Within k (p :: is) := by
  intro q hq
  obtain rfl := Option.some.inj hq
  exact Nat.le_of_lt h

/-- A token is cut where a word begins. -/
theorem leads_cut {s' : Option KeyStart} (hg : Begins g.char)
    (hdrop : (block ts is s a).dropStale? g = some (block ts is s' a))
    (hwithin : Within g.column is) (hcut : cutToken (block ts is s' a) g gs = some (d, hs))
    (hlength : hs.length ≤ gs.length) : Leads (block ts is s a) (g :: gs) d hs := by
  refine ⟨1, by rw [List.length_cons]; omega, fun n => ?_⟩
  rw [cutFrom, skipBlanks_begins hg]
  show ((block ts is s a).dropStale? g).bind (fun c =>
    (cutToken (c.unroll g.column) g gs).bind fun r => cutFrom (n + 1) r.1 r.2) = _
  rw [hdrop, Option.bind_some, unroll_within hwithin, hcut]
  rfl

theorem unroll_close {j : Int} (hj : j < k) :
    (block ts (k :: is) s a).unroll j = (block (.blockEnd :: ts) is s a).unroll j := by
  have hdeeper : (k :: is).takeWhile (fun p : Nat => j < (p : Int)) =
      k :: is.takeWhile (fun p : Nat => j < (p : Int)) := by
    rw [List.takeWhile_cons, decide_eq_true hj]
    rfl
  -- all the tokens that close blocks are one, so it does not matter which of them comes first
  have hends (is : List Nat) : Token.blockEnd :: (is.map (fun _ => Token.blockEnd) ++ ts) =
      is.map (fun _ => Token.blockEnd) ++ Token.blockEnd :: ts := by
    induction is with
    | nil => rfl
    | cons p is ih => rw [List.map_cons, List.cons_append, ih, List.cons_append]
  show Cutter.mk _ _ _ _ _ _ = Cutter.mk _ _ _ _ _ _
  simp only [block, hdeeper, List.map_cons, List.cons_append, hends, List.length_cons,
    List.drop_succ_cons, Nat.add_assoc, Nat.add_comm 1]

/-- What stands to the left of a block closes it. -/
theorem leads_close (hs : Settled l s) (hrest : Outdented k rest) :
    Leads (block ts (k :: is) s a) (ahead i l rest) (block (.blockEnd :: ts) is s a)
      (ahead i l rest) := by
  refine ⟨0, Nat.le_refl _, fun n => ?_⟩
  cases hrest with
  | nil =>
    have hk : (-1 : Int) < k := by omega
    show (block ts (k :: is) s a).finish? = (block (.blockEnd :: ts) is s a).finish?
    unfold Cutter.finish?
    rw [unroll_close hk]
    rfl
  | @line j c cs hj hc hcs =>
    have hk : (j : Int) < k := by omega
    rw [ahead_line hc]
    show cutFrom (n + 1) _ _ = cutFrom (n + 1) _ _
    rw [cutFrom, cutFrom, skipBlanks_begins hc, skipBlanks_begins hc]
    show ((block ts (k :: is) s a).dropStale? _).bind _ =
      ((block (.blockEnd :: ts) is s a).dropStale? _).bind _
    rw [dropStale?_settled hs, dropStale?_settled hs, Option.bind_some, Option.bind_some,
      unroll_close hk]

/-- Where no block is open the stream may end. -/
theorem finish?_settled (h : Settled l s) : (block ts [] s a).finish? = some ts.reverse := by
  have hrequired : (s.any fun k => k.required) = false := by
    cases s with
    | none => rfl
    | some k => exact (h k rfl).2
  unfold Cutter.finish?
  show (if (s.any (fun k => k.required) || false) = true then none else _) = _
  rw [hrequired]
  rfl

/-! ## Lines that are reached -/

/-- How cutting goes on after a value: the tokens and the open blocks are these, a key may start,
and what follows begins a line that no start of a key is on. -/
def Reaches (b : Cutter) (gs : List Glyph) (ts : List Token) (is : List Nat)
    (rest : List Char) : Prop :=
  ∃ i l s, Settled l s ∧ Leads b gs (block ts is s true) (ahead i l rest)

theorem Leads.reaches (h : Leads b gs d hs) (h' : Reaches d hs ts is rest) :
    Reaches b gs ts is rest := by
  obtain ⟨i, l, s, hs', hlead⟩ := h'
  exact ⟨i, l, s, hs', h.trans hlead⟩

/-- What is cut from any line that is reached is cut from there on. -/
theorem Reaches.bind {js : List Nat} (h : Reaches b gs ts is cs)
    (h' : ∀ i l s, Settled l s → Reaches (block ts is s true) (ahead i l cs) us js rest) :
    Reaches b gs us js rest := by
  obtain ⟨i, l, s, hs', hlead⟩ := h
  exact hlead.reaches (h' i l s hs')

theorem Reaches.close (h : Reaches b gs ts (k :: is) rest) (hrest : Outdented k rest) :
    Reaches b gs (.blockEnd :: ts) is rest := by
  obtain ⟨i, l, s, hs', hlead⟩ := h
  exact ⟨i, l, s, hs', hlead.trans (leads_close hs' hrest)⟩

end Yaml
end Hosting
