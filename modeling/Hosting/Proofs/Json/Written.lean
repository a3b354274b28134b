import Hosting.Json.Reader
import Hosting.Json.Writer
import Hosting.Proofs.Table
import Hosting.Proofs.Text.Numeral

/-!
# JSON text is read back

The text of a value is cut into the tokens that the value consists of (`tokens?_written`), and these
are put together to the value again (`readTokens_tokens`).  So the text of whatever JSON has a text
for is read as what it was written for (`read?_write`), and no two such values have the same text.
-/

namespace Hosting
namespace Json

variable {v : Json} {cs rest : List Char} {c : Char} {ts : List Token} {limit : Nat}
  {stack : List Open} {p : Progress}

/-! ## What has a text of its own -/

/-- The text of the value tells it: its integers are of 64 bits, the digits of its floating-point
numbers are read as these, and the members of its objects stand in the order of their names. -/
inductive Legible : Json → Prop where
  | null : Legible .null
  | bool (b : Bool) : Legible (.bool b)
  | int {n : Int} (low : -Int.pow 2 63 ≤ n) (high : n ≤ largest) : Legible (.int n)
  | float {x : Binary64} (read : number? (floatText x).toList = some (.float x)) :
    Legible (.float x)
  | string (s : String) : Legible (.string s)
  | array {vs : List Json} (items : ∀ v ∈ vs, Legible v) : Legible (.array vs)
  | object {ms : List (String × Json)}
    (ordered : ms.Pairwise fun a b => KeyOrder.before a.1 b.1 = true)
    (members : ∀ m ∈ ms, Legible m.2) : Legible (.object ms)

mutual

/-- How deep collections lie in one another. -/
def depth : Json → Nat
  | .array vs => depthItems vs + 1
  | .object ms => depthMembers ms + 1
  | _ => 0

def depthItems : List Json → Nat
  | [] => 0
  | v :: vs => max v.depth (depthItems vs)

def depthMembers : List (String × Json) → Nat
  | [] => 0
  | m :: ms => max m.2.depth (depthMembers ms)

end

mutual

/-- The tokens of the value, before those in `rest`. -/
def tokens : Json → List Token → List Token
  | .array [], rest => .openArray :: .closeArray :: rest
  | .array (v :: vs), rest => .openArray :: tokens v (tokensItems vs (.closeArray :: rest))
  | .object [], rest => .openObject :: .closeObject :: rest
  | .object (m :: ms), rest =>
    .openObject :: .text m.1 :: .colon :: tokens m.2 (tokensMembers ms (.closeObject :: rest))
  | .string s, rest => .text s :: rest
  | v, rest => .value v :: rest

def tokensItems : List Json → List Token → List Token
  | [], rest => rest
  | v :: vs, rest => .comma :: tokens v (tokensItems vs rest)

def tokensMembers : List (String × Json) → List Token → List Token
  | [], rest => rest
  | m :: ms, rest => .comma :: .text m.1 :: .colon :: tokens m.2 (tokensMembers ms rest)

end

/-! ## Cutting a text into tokens -/

def tokens? (cs : List Char) : Option (List Token) := tokensFrom? .between [] cs

theorem tokensFrom?_cons (s : Scan) (ts : List Token) (c : Char) (cs : List Char) :
    tokensFrom? s ts (c :: cs) =
      (scanChar s c).bind fun x => tokensFrom? x.1 (x.2.reverse ++ ts) cs := by
  cases s <;> rfl

/-- The tokens that were found stand before those that are still to be found. -/
theorem tokensFrom?_eq (s : Scan) (ts : List Token) (cs : List Char) :
    tokensFrom? s ts cs = (tokensFrom? s [] cs).map (ts.reverse ++ ·) := by
  induction cs generalizing s ts with
  | nil => cases s <;> simp [tokensFrom?, Function.comp_def]
  | cons c cs ih =>
    rw [tokensFrom?_cons, tokensFrom?_cons]
    cases scanChar s c with
    | none => rfl
    | some x =>
      rw [Option.bind_some, Option.bind_some, ih x.1 (x.2.reverse ++ ts),
        ih x.1 (x.2.reverse ++ []), Option.map_map]
      simp [Function.comp_def]

theorem tokens?_punctuation {t : Token} (h : punctuation? c = some t) (rest : List Char) :
    tokens? (c :: rest) = (tokens? rest).map (t :: ·) := by
  have hscan : scanBetween c = some (.between, [t]) := by
    unfold punctuation? at h
    split at h <;> cases h <;> rfl
  unfold tokens?
  rw [tokensFrom?_cons, show scanChar .between c = _ from hscan]
  exact tokensFrom?_eq .between [t] rest

/-! ### Strings -/

theorem toDigits_of_control {n : Nat} (h : n < 0x20) :
    Text.toDigits 16 4 n = ['0', '0', Nat.digitChar (n / 16), Nat.digitChar (n % 16)] := by
  have hall : ∀ n < 0x20, Text.toDigits 16 4 n =
      ['0', '0', Nat.digitChar (n / 16), Nat.digitChar (n % 16)] := by decide
  exact hall n h

/-- A control character is read from its code. -/
theorem tokensFrom?_code (h : c.toNat < 0x20) (acc rest : List Char) :
    tokensFrom? (.text acc) [] ('\\' :: 'u' :: Text.toDigits 16 4 c.toNat ++ rest) =
      tokensFrom? (.text (c :: acc)) [] rest := by
  have hhigh : Text.digit? (Nat.digitChar (c.toNat / 16)) = some (c.toNat / 16) :=
    Text.digit?_digitChar (Nat.le_refl 16) (by omega)
  have hlow : Text.digit? (Nat.digitChar (c.toNat % 16)) = some (c.toNat % 16) :=
    Text.digit?_digitChar (Nat.le_refl 16) (by omega)
  have hzero : Text.digit? '0' = some 0 := rfl
  have hunit : unitRead acc (c.toNat / 16 * 16 + c.toNat % 16) none = some (.text (c :: acc)) := by
    have hhalf : ¬0xD800 ≤ c.toNat := by omega
    have hhalf' : ¬0xDC00 ≤ c.toNat := by omega
    rw [Nat.div_add_mod']
    simp [unitRead, hhalf, hhalf']
  rw [toDigits_of_control h]
  simp [tokensFrom?_cons, scanChar, hzero, hhigh, hlow, hunit]

theorem tokensFrom?_writtenChar (c : Char) (acc rest : List Char) :
    tokensFrom? (.text acc) [] (writtenChar c ++ rest) = tokensFrom? (.text (c :: acc)) [] rest := by
  unfold writtenChar
  split
  any_goals rfl
  next hquote hslash _ _ _ _ _ =>
    split
    · next hcontrol => exact tokensFrom?_code hcontrol acc rest
    · next hplain =>
      have hscan : scanChar (.text acc) c = some (.text (c :: acc), []) := by
        simp only [scanChar]
        rw [if_neg hquote, if_neg hslash, if_neg hplain]
      show tokensFrom? (.text acc) [] (c :: rest) = _
      rw [tokensFrom?_cons, hscan]
      rfl

theorem tokensFrom?_text (acc : List Char) (cs rest : List Char) :
    tokensFrom? (.text acc) [] (cs.flatMap writtenChar ++ '"' :: rest) =
      (tokens? rest).map (.text (String.ofList (acc.reverse ++ cs)) :: ·) := by
  induction cs generalizing acc with
  | nil =>
    have hscan : scanChar (.text acc) '"' =
      some (.between, [.text (String.ofList acc.reverse)]) := rfl
    rw [List.flatMap_nil, List.nil_append, tokensFrom?_cons, hscan, List.append_nil]
    exact tokensFrom?_eq .between [_] rest
  | cons c cs ih =>
    rw [List.flatMap_cons, List.append_assoc, tokensFrom?_writtenChar, ih]
    simp

theorem tokens?_writtenString (s : String) (rest : List Char) :
    tokens? (writtenString s ++ rest) = (tokens? rest).map (.text s :: ·) := by
  have hopen : tokens? (writtenString s ++ rest) =
      tokensFrom? (.text []) [] (s.toList.flatMap writtenChar ++ '"' :: rest) := by
    simp [tokens?, writtenString, tokensFrom?_cons, scanChar, scanBetween, isSpace]
  rw [hopen, tokensFrom?_text, List.reverse_nil, List.nil_append, String.ofList_toList]

/-! ### Words -/

/-- A word ends before the text. -/
def EndsWord (cs : List Char) : Prop := ∀ c ∈ cs.head?, isWordChar c = false

theorem scanBetween_of_isWordChar (h : isWordChar c = true) :
    scanBetween c = some (.word [c], []) := by
  have hspace : ¬isSpace c = true := by
    intro hspace
    simp only [isSpace, Bool.or_eq_true, beq_iff_eq] at hspace
    rcases hspace with ((rfl | rfl) | rfl) | rfl <;> cases h
  have hquote : c ≠ '"' := by
    rintro rfl
    cases h
  have hnone : punctuation? c = none := by
    unfold punctuation?
    split <;> first | rfl | cases h
  unfold scanBetween
  rw [if_neg hspace, if_neg hquote, hnone]
  exact if_pos h

theorem tokensFrom?_word {acc : List Char} (hcs : ∀ c ∈ cs, isWordChar c = true)
    (hv : wordValue? (acc.reverse ++ cs) = some v) (hrest : EndsWord rest) :
    tokensFrom? (.word acc) [] (cs ++ rest) = (tokens? rest).map (.value v :: ·) := by
  induction cs generalizing acc with
  | nil =>
    rw [List.append_nil] at hv
    cases rest with
    | nil =>
      show (wordValue? acc.reverse).map _ = _
      rw [hv]
      rfl
    | cons c rest =>
      have hc : isWordChar c = false := hrest c rfl
      rw [List.nil_append, tokens?, tokensFrom?_cons, tokensFrom?_cons]
      simp only [scanChar, hc, hv, Bool.false_eq_true, if_false]
      cases scanBetween c with
      | none => rfl
      | some x =>
        show tokensFrom? x.1 ((Token.value v :: x.2).reverse ++ []) rest = _
        rw [Option.bind_some, tokensFrom?_eq x.1 (x.2.reverse ++ []), tokensFrom?_eq, Option.map_map]
        simp [Function.comp_def]
  | cons c cs ih =>
    have hc : isWordChar c = true := hcs c List.mem_cons_self
    have hscan : scanChar (.word acc) c = some (.word (c :: acc), []) := if_pos hc
    rw [List.cons_append, tokensFrom?_cons, hscan]
    refine ih (fun x hx => hcs x (List.mem_cons_of_mem c hx)) ?_
    rw [List.reverse_cons, List.append_assoc]
    exact hv

theorem tokens?_word (hne : cs ≠ []) (hcs : ∀ c ∈ cs, isWordChar c = true)
    (hv : wordValue? cs = some v) (hrest : EndsWord rest) :
    tokens? (cs ++ rest) = (tokens? rest).map (.value v :: ·) := by
  cases cs with
  | nil => exact absurd rfl hne
  | cons c cs =>
    have hscan : scanChar .between c = some (.word [c], []) :=
      scanBetween_of_isWordChar (hcs c List.mem_cons_self)
    rw [tokens?, List.cons_append, tokensFrom?_cons, hscan]
    exact tokensFrom?_word (fun x hx => hcs x (List.mem_cons_of_mem c hx)) hv hrest

/-! ### Numbers -/

theorem isWordChar_of_isDigit (h : Text.isDigit c = true) : isWordChar c = true := by
  have hrange := Text.isDigit_iff.mp h
  have hdigit : c.isDigit = true := by
    simpa [Char.isDigit, UInt32.le_iff_toNat_le] using hrange
  simp [isWordChar, Char.isAlphanum, hdigit]

/-- A number is none of the other words. -/
theorem wordValue?_of_number? (h : number? cs = some v) : cs ≠ [] ∧ wordValue? cs = some v := by
  have hne (w : List Char) (hw : number? w = none) : cs ≠ w := by
    rintro rfl
    rw [hw] at h
    cases h
  refine ⟨hne [] rfl, ?_⟩
  unfold wordValue?
  rw [if_neg (hne _ rfl), if_neg (hne _ rfl), if_neg (hne _ rfl), h]

theorem head?_toDigits {n : Nat} (h : n ≠ 0) : (Nat.toDigits 10 n).head? ≠ some '0' := by
  induction n using Nat.strongRecOn with
  | ind n ih =>
    by_cases hn : n < 10
    · have hall : ∀ d < 10, d ≠ 0 → Nat.digitChar d ≠ '0' := by decide
      rw [Nat.toDigits_of_lt_base hn]
      exact fun he => hall n hn h (Option.some.inj he)
    · have hless : n / 10 < n := Nat.div_lt_self (by omega) (by omega)
      obtain ⟨d, ds, hds⟩ := List.exists_cons_of_ne_nil (Nat.toDigits_ne_nil (n := n / 10) (b := 10))
      have hhead := ih (n / 10) hless (by omega)
      rw [hds] at hhead
      rw [Nat.toDigits_of_base_le (by omega) (by omega), hds]
      exact hhead

theorem toDigits_one (n : Nat) : Text.toDigits 10 1 n = Nat.toDigits 10 n := by
  have hpos : 1 ≤ (Nat.toDigits 10 n).length := Nat.length_toDigits_pos
  simp [Text.toDigits, Nat.sub_eq_zero_of_le hpos]

theorem isWhole_toDigits (n : Nat) : isWhole (Text.toDigits 10 1 n) = true := by
  have hdigits : ∀ c ∈ Text.toDigits 10 1 n, Text.isDigit c = true :=
    fun _ => Text.isDigit_of_mem_toDigits
  by_cases hn : n = 0
  · subst hn
    rfl
  · have hhead := head?_toDigits hn
    rw [← toDigits_one] at hhead
    obtain ⟨c, cs, hds, -⟩ := Text.exists_toDigits_eq_cons 1 n
    rw [hds] at hdigits hhead ⊢
    have hc : c ≠ '0' := fun he => hhead (congrArg some he)
    unfold isWhole
    split
    · next heq => cases heq
    · rfl
    · next heq =>
      cases heq
      rw [bne_iff_ne.mpr hc, List.all_eq_true.mpr hdigits]
      rfl

theorem takeWhile_toDigits (n : Nat) :
    (Text.toDigits 10 1 n).takeWhile Text.isDigit = Text.toDigits 10 1 n := by
  have h := Text.takeWhile_toDigits 1 n []
  simpa using h

theorem dropWhile_toDigits (n : Nat) : (Text.toDigits 10 1 n).dropWhile Text.isDigit = [] :=
  List.dropWhile_eq_nil_iff.mpr fun _ => Text.isDigit_of_mem_toDigits

theorem number?_natural {n : Nat} (h : n ≤ largest) :
    number? (Text.toDigits 10 1 n) = some (.int n) := by
  have hplus : ((Text.toDigits 10 1 n).head? == some '-') = false := by
    obtain ⟨c, cs, hds, hc⟩ := Text.exists_toDigits_eq_cons 1 n
    rw [hds]
    refine beq_eq_false_iff_ne.mpr fun he => ?_
    obtain rfl : c = '-' := Option.some.inj he
    cases hc
  unfold number?
  simp only [hplus, Bool.false_eq_true, if_false, takeWhile_toDigits, dropWhile_toDigits,
    isWhole_toDigits, Text.digits?_toDigits, Bool.not_true, if_pos h]

theorem number?_negative {n : Nat} (hpos : 1 ≤ n) (h : n ≤ Nat.pow 2 63) :
    number? ('-' :: Text.toDigits 10 1 n) = some (.int (-n)) := by
  have hminus : (('-' :: Text.toDigits 10 1 n).head? == some '-') = true := rfl
  unfold number?
  simp only [hminus, if_true, List.drop_succ_cons, List.drop_zero, takeWhile_toDigits,
    dropWhile_toDigits, isWhole_toDigits, Text.digits?_toDigits, Bool.not_true, Bool.false_eq_true,
    if_false, hpos, h, decide_true, Bool.and_self]

theorem number?_integer {n : Int} (low : -Int.pow 2 63 ≤ n) (high : n ≤ largest) :
    number? (Text.integer n).toList = some (.int n) := by
  by_cases hn : n < 0
  · have htext : (Text.integer n).toList = '-' :: Text.toDigits 10 1 n.natAbs := by
      simp [Text.integer, Text.decimal, Text.padded, hn, String.toList_append]
    have hsmall : n.natAbs ≤ Nat.pow 2 63 := by
      have hpow : Int.pow 2 63 = (Nat.pow 2 63 : Nat) := by decide
      omega
    rw [htext, number?_negative (by omega) hsmall]
    exact congrArg (some ∘ Json.int) (by omega)
  · have htext : (Text.integer n).toList = Text.toDigits 10 1 n.natAbs := by
      simp [Text.integer, Text.decimal, Text.padded, hn]
    rw [htext, number?_natural (by omega)]
    exact congrArg (some ∘ Json.int) (by omega)

theorem isWordChar_of_mem_digits {n : Nat} (h : c ∈ Nat.toDigits 10 n) : isWordChar c = true := by
  rw [← toDigits_one] at h
  exact isWordChar_of_isDigit (Text.isDigit_of_mem_toDigits h)

theorem isWordChar_of_mem_integer {n : Int} (h : c ∈ (Text.integer n).toList) :
    isWordChar c = true := by
  have htext : c = '-' ∨ c ∈ Text.toDigits 10 1 n.natAbs := by
    unfold Text.integer Text.decimal Text.padded at h
    split at h
    · simpa [String.toList_append] using h
    · simpa using Or.inr h
  rcases htext with rfl | h
  · rfl
  · exact isWordChar_of_isDigit (Text.isDigit_of_mem_toDigits h)

theorem isWordChar_of_mem_floatText {x : Binary64} (h : c ∈ (floatText x).toList) :
    isWordChar c = true := by
  have hzeros (k : Nat) : ∀ c ∈ List.replicate k '0', isWordChar c = true := fun c hc => by
    rw [List.eq_of_mem_replicate hc]
    rfl
  have hdigits (m : Nat) : ∀ c ∈ Nat.toDigits 10 m, isWordChar c = true :=
    fun _ => isWordChar_of_mem_digits
  have hmarks : isWordChar '0' = true ∧ isWordChar '.' = true ∧ isWordChar 'e' = true ∧
    isWordChar '-' = true := by decide
  have hinteger (n : Int) : ∀ c ∈ (Text.integer n).toList, isWordChar c = true :=
    fun _ => isWordChar_of_mem_integer
  rw [floatText, String.toList_ofList] at h
  grind [List.mem_of_mem_take, List.mem_of_mem_drop]

/-! ### Values -/

theorem endsWord_writtenItems (vs : List Json) (h : EndsWord rest) :
    EndsWord (writtenItems vs rest) := by
  cases vs with
  | nil => exact h
  | cons v vs =>
    rintro c ⟨rfl⟩
    rfl

theorem endsWord_writtenMembers (ms : List (String × Json)) (h : EndsWord rest) :
    EndsWord (writtenMembers ms rest) := by
  cases ms with
  | nil => exact h
  | cons m ms =>
    rintro c ⟨rfl⟩
    rfl

theorem endsWord_of_punctuation {t : Token} (h : punctuation? c = some t) (rest : List Char) :
    EndsWord (c :: rest) := by
  rintro x ⟨rfl⟩
  unfold punctuation? at h
  split at h <;> first | rfl | cases h

/-- What was written of the value is cut into its tokens. -/
def IsCut (v : Json) : Prop :=
  ∀ {rest : List Char}, EndsWord rest → tokens? (written v rest) = (tokens? rest).map v.tokens

theorem tokens?_writtenItems {vs : List Json} (h : ∀ v ∈ vs, IsCut v) (hrest : EndsWord rest) :
    tokens? (writtenItems vs rest) = (tokens? rest).map (tokensItems vs) := by
  induction vs with
  | nil => simp [writtenItems, tokensItems]
  | cons v vs ih =>
    rw [List.forall_mem_cons] at h
    rw [writtenItems, tokens?_punctuation rfl, h.1 (endsWord_writtenItems vs hrest), ih h.2,
      Option.map_map, Option.map_map]
    rfl

theorem tokens?_writtenMember {m : String × Json} (h : IsCut m.2) (hrest : EndsWord rest) :
    tokens? (writtenString m.1 ++ ':' :: written m.2 rest) =
      (tokens? rest).map fun ts => .text m.1 :: .colon :: m.2.tokens ts := by
  rw [tokens?_writtenString, tokens?_punctuation rfl, h hrest, Option.map_map, Option.map_map]
  rfl

theorem tokens?_writtenMembers {ms : List (String × Json)} (h : ∀ m ∈ ms, IsCut m.2)
    (hrest : EndsWord rest) :
    tokens? (writtenMembers ms rest) = (tokens? rest).map (tokensMembers ms) := by
  induction ms with
  | nil => simp [writtenMembers, tokensMembers]
  | cons m ms ih =>
    rw [List.forall_mem_cons] at h
    rw [writtenMembers, tokens?_punctuation rfl,
      tokens?_writtenMember h.1 (endsWord_writtenMembers ms hrest), ih h.2, Option.map_map,
      Option.map_map]
    rfl

theorem tokens?_written (h : Legible v) : IsCut v := by
  induction h with
  | null =>
    intro rest hrest
    exact tokens?_word (List.cons_ne_nil _ _) (List.all_eq_true.mp rfl) rfl hrest
  | bool b =>
    intro rest hrest
    cases b with
    | true => exact tokens?_word (List.cons_ne_nil _ _) (List.all_eq_true.mp rfl) rfl hrest
    | false => exact tokens?_word (List.cons_ne_nil _ _) (List.all_eq_true.mp rfl) rfl hrest
  | int low high =>
    intro rest hrest
    obtain ⟨hne, hv⟩ := wordValue?_of_number? (number?_integer low high)
    exact tokens?_word hne (fun _ => isWordChar_of_mem_integer) hv hrest
  | @float x hread =>
    intro rest hrest
    obtain ⟨hne, hv⟩ := wordValue?_of_number? hread
    exact tokens?_word hne (fun _ => isWordChar_of_mem_floatText) hv hrest
  | string s =>
    intro rest hrest
    exact tokens?_writtenString s rest
  | @array vs _ ih =>
    intro rest hrest
    cases vs with
    | nil =>
      rw [written, tokens?_punctuation rfl, tokens?_punctuation rfl, Option.map_map]
      rfl
    | cons v vs =>
      have hclose : EndsWord (']' :: rest) := endsWord_of_punctuation rfl rest
      rw [List.forall_mem_cons] at ih
      rw [written, tokens?_punctuation rfl, ih.1 (endsWord_writtenItems vs hclose),
        tokens?_writtenItems ih.2 hclose, tokens?_punctuation rfl, Option.map_map, Option.map_map,
        Option.map_map]
      rfl
  | @object ms _ _ ih =>
    intro rest hrest
    cases ms with
    | nil =>
      rw [written, tokens?_punctuation rfl, tokens?_punctuation rfl, Option.map_map]
      rfl
    | cons m ms =>
      have hclose : EndsWord ('\x7d' :: rest) := endsWord_of_punctuation rfl rest
      rw [List.forall_mem_cons] at ih
      rw [written, tokens?_punctuation rfl,
        tokens?_writtenMember ih.1 (endsWord_writtenMembers ms hclose),
        tokens?_writtenMembers ih.2 hclose, tokens?_punctuation rfl, Option.map_map, Option.map_map,
        Option.map_map]
      rfl

/-! ## Putting the tokens together -/

theorem readTokens_cons {q : Progress} {t : Token} (h : readToken limit p t = some q)
    (ts : List Token) : readTokens limit p (t :: ts) = readTokens limit q ts := by
  rw [readTokens, h]
  rfl

/-- A collection may begin where a value may come. -/
theorem mayOpen_of_join? (h : join? v stack = some p) : mayOpen stack = true := by
  unfold join? at h
  split at h <;> first | rfl | cases h

/-- The tokens of the value are put together to it, wherever a value may come. -/
def IsRead (limit : Nat) (v : Json) : Prop :=
  ∀ stack p, join? v stack = some p → stack.length + v.depth ≤ limit →
    ∀ ts, readTokens limit (.inside stack) (v.tokens ts) = readTokens limit p ts

theorem readTokens_items {vs : List Json} (h : ∀ v ∈ vs, IsRead limit v) {acc : List Json}
    (hdeep : stack.length + 1 + depthItems vs ≤ limit) (ts : List Token) :
    readTokens limit (.inside (.array acc true :: stack)) (tokensItems vs ts) =
      readTokens limit (.inside (.array (vs.reverse ++ acc) true :: stack)) ts := by
  induction vs generalizing acc with
  | nil => rfl
  | cons v vs ih =>
    rw [List.forall_mem_cons] at h
    rw [depthItems] at hdeep
    have hroom : stack.length + 1 + v.depth ≤ limit := by omega
    have hv := h.1 (.arrayComma acc :: stack) (.inside (.array (v :: acc) true :: stack)) rfl hroom
    rw [tokensItems, readTokens_cons rfl, hv, ih h.2 (by omega), List.reverse_cons,
      List.append_assoc]
    rfl

theorem readTokens_members {ms : List (String × Json)} (h : ∀ m ∈ ms, IsRead limit m.2)
    {acc : List (String × Json)} (hdeep : stack.length + 1 + depthMembers ms ≤ limit)
    (ts : List Token) :
    readTokens limit (.inside (.objectAfter acc :: stack)) (tokensMembers ms ts) =
      readTokens limit (.inside (.objectAfter (ms.reverse ++ acc) :: stack)) ts := by
  induction ms generalizing acc with
  | nil => rfl
  | cons m ms ih =>
    rw [List.forall_mem_cons] at h
    rw [depthMembers] at hdeep
    have hroom : stack.length + 1 + m.2.depth ≤ limit := by omega
    have hm := h.1 (.objectColon acc m.1 :: stack) (.inside (.objectAfter (m :: acc) :: stack)) rfl
      hroom
    rw [tokensMembers, readTokens_cons rfl, readTokens_cons rfl, readTokens_cons rfl, hm,
      ih h.2 (by omega), List.reverse_cons, List.append_assoc]
    rfl

theorem entries_foldl_insert (ms : List (String × Json)) (t : Table String Json) :
    (ms.foldl (fun t m => t.insert m.1 m.2) t).entries =
      ms.foldl (fun o m => Table.place m.1 m.2 o) t.entries := by
  induction ms generalizing t with
  | nil => rfl
  | cons m ms ih => exact ih (t.insert m.1 m.2)

/-- Members in their order make the object of just these. -/
theorem ofMembers_of_ordered {ms : List (String × Json)}
    (h : ms.Pairwise fun a b => KeyOrder.before a.1 b.1 = true) : ofMembers ms = .object ms := by
  have htable : (Table.ofList ms).entries = ms :=
    congrArg Table.entries (Table.ofList_entries (⟨ms, h⟩ : Table String Json))
  exact congrArg Json.object ((entries_foldl_insert ms .empty).symm.trans htable)

theorem readTokens_tokens (h : Legible v) : IsRead limit v := by
  induction h with
  | null => exact fun _ _ hjoin _ => readTokens_cons (t := .value .null) hjoin
  | bool b => exact fun _ _ hjoin _ => readTokens_cons (t := .value (.bool b)) hjoin
  | @int n _ _ => exact fun _ _ hjoin _ => readTokens_cons (t := .value (.int n)) hjoin
  | @float x _ => exact fun _ _ hjoin _ => readTokens_cons (t := .value (.float x)) hjoin
  | string s =>
    intro stack p hjoin _ ts
    refine readTokens_cons ?_ ts
    unfold join? at hjoin
    split at hjoin <;> first | exact hjoin | cases hjoin
  | @array vs _ ih =>
    intro stack p hjoin hdeep ts
    rw [depth] at hdeep
    have hopen : readToken limit (.inside stack) .openArray =
        some (.inside (.array [] false :: stack)) := by
      have hroom : stack.length < limit := by omega
      simp [readToken, mayOpen_of_join? hjoin, hroom]
    cases vs with
    | nil =>
      rw [tokens, readTokens_cons hopen]
      have hclose : readToken limit (.inside (.array [] false :: stack)) .closeArray = some p := hjoin
      rw [readTokens_cons hclose]
    | cons v vs =>
      rw [List.forall_mem_cons] at ih
      rw [depthItems] at hdeep
      have hroom : stack.length + 1 + v.depth ≤ limit := by omega
      have hv := ih.1 (.array [] false :: stack) (.inside (.array [v] true :: stack)) rfl hroom
      have hclose : readToken limit (.inside (.array (vs.reverse ++ [v]) true :: stack))
          .closeArray = some p := by
        simpa [readToken] using hjoin
      rw [tokens, readTokens_cons hopen, hv, readTokens_items ih.2 (by omega),
        readTokens_cons hclose]
  | @object ms hordered _ ih =>
    intro stack p hjoin hdeep ts
    rw [depth] at hdeep
    have hopen : readToken limit (.inside stack) .openObject =
        some (.inside (.object [] :: stack)) := by
      have hroom : stack.length < limit := by omega
      simp [readToken, mayOpen_of_join? hjoin, hroom]
    cases ms with
    | nil =>
      rw [tokens, readTokens_cons hopen]
      have hclose : readToken limit (.inside (.object [] :: stack)) .closeObject = some p := hjoin
      rw [readTokens_cons hclose]
    | cons m ms =>
      rw [List.forall_mem_cons] at ih
      rw [depthMembers] at hdeep
      have hroom : stack.length + 1 + m.2.depth ≤ limit := by omega
      have hm := ih.1 (.objectColon [] m.1 :: stack) (.inside (.objectAfter [m] :: stack)) rfl hroom
      have hclose : readToken limit (.inside (.objectAfter (ms.reverse ++ [m]) :: stack))
          .closeObject = some p := by
        simpa [readToken, ofMembers_of_ordered hordered] using hjoin
      rw [tokens, readTokens_cons hopen, readTokens_cons rfl, readTokens_cons rfl, hm,
        readTokens_members ih.2 (by omega), readTokens_cons hclose]

/-! ## The text -/

/-- The text of a value is read as the value. -/
theorem read?_write (h : Legible v) (hdeep : v.depth ≤ maxDepth) : read? v.write = some v := by
  have htokens : tokens? (written v []) = some (v.tokens []) :=
    (tokens?_written h) fun _ hc => nomatch hc
  have hread : readTokens maxDepth (.inside []) (v.tokens []) = some (.complete v) := by
    refine readTokens_tokens h [] (.complete v) rfl ?_ []
    rw [List.length_nil, Nat.zero_add]
    exact hdeep
  have hcut : tokensFrom? .between [] v.write.toList = some (v.tokens []) := by
    rw [write, String.toList_ofList]
    exact htokens
  rw [read?, hcut]
  show (readTokens maxDepth (.inside []) (v.tokens [])).bind _ = _
  rw [hread]
  rfl

example : read? "[-1,\"\\u001f\\n\",\x7b\"a\":\x7b\x7d,\"b\":null\x7d]" =
    some (.array [.int (-1), .string "\x1f\n", .object [("a", .object []), ("b", .null)]]) := by rfl

/-- Values with the same text are the same. -/
theorem eq_of_write_eq {w : Json} (hv : Legible v) (hw : Legible w) (hv' : v.depth ≤ maxDepth)
    (hw' : w.depth ≤ maxDepth) (h : v.write = w.write) : v = w := by
  have hread := read?_write hv hv'
  rw [h, read?_write hw hw', Option.some.injEq] at hread
  exact hread.symm

end Json
end Hosting
