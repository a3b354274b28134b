import Hosting.Proofs.Yaml.Token.Entry

/-!
# The tokens of what is written

A value that is written in block form is cut into the tokens of its tree (`Block.tokens`).  The
theorem is by induction over the value, at once for a value that begins a line of its own and for
one after the colon of a key, with the values of a sequence and the pairs of a mapping; each of them
leads to the next line to the left of it, where its block is closed.
-/

namespace Hosting
namespace Yaml

variable {cs rest : List Char} {i l k p : Nat} {ts : List Token} {is : List Nat}
  {s : Option KeyStart} {b v : Block} {bs : List Block} {ps : List (List Char × Block)}
  {key : List Char}

open Cutter (block)

namespace Block

/-! ## Values that can be read back -/

/-- A plain text, short enough to be found as a key. -/
def isKey (cs : List Char) : Bool := !cs.isEmpty && admitsPlain cs && decide (octets cs ≤ 1024)

/-- A plain text that says something. -/
def isWord (cs : List Char) : Bool := !cs.isEmpty && admitsPlain cs && (plainValue? cs).isSome

mutual

/-- The words and the keys of the value stand for themselves; its texts may be any. -/
def isReadable : Block → Bool
  | .word cs => isWord cs
  | .text _ => true
  | .sequence b bs => b.isReadable && areReadable bs
  | .mapping k v rest => isKey k && v.isReadable && pairsReadable rest

def areReadable : List Block → Bool
  | [] => true
  | b :: bs => b.isReadable && areReadable bs

def pairsReadable : List (List Char × Block) → Bool
  | [] => true
  | p :: ps => isKey p.1 && p.2.isReadable && pairsReadable ps

end

def isCollection : Block → Bool
  | .sequence _ _ => true
  | .mapping _ _ _ => true
  | _ => false

theorem isKey_iff (h : isKey cs = true) : IsKey cs := by
  simp only [isKey, Bool.and_eq_true, Bool.not_eq_true', List.isEmpty_eq_false_iff,
    decide_eq_true_eq] at h
  exact ⟨flat_of_admitsPlain h.1.2, h.1.1, h.2⟩

theorem flat_of_isWord (h : isWord cs = true) : Flat cs ∧ cs ≠ [] := by
  simp only [isWord, Bool.and_eq_true, Bool.not_eq_true', List.isEmpty_eq_false_iff] at h
  exact ⟨flat_of_admitsPlain h.1.2, h.1.1⟩

/-! ## Tokens -/

/-- A sequence is bracketed where its column opens a block, as it does not after a key. -/
def bracket : Block → List Token → List Token
  | .sequence _ _, ts => .blockSequenceStart :: (ts ++ [.blockEnd])
  | _, ts => ts

mutual

/-- The tokens of a value after the colon of a key. -/
def tokensAfterKey : Block → List Token
  | .word cs => [.scalar .plain cs]
  | .text cs => [.scalar (styleOf cs) cs]
  | .sequence b bs => .blockEntry :: (b.bracket b.tokensAfterKey ++ itemTokens bs)
  | .mapping k v rest =>
    .blockMappingStart :: .key :: .scalar .plain k :: .value ::
      (v.tokensAfterKey ++ (pairTokens rest ++ [.blockEnd]))

def itemTokens : List Block → List Token
  | [] => []
  | b :: bs => .blockEntry :: (b.bracket b.tokensAfterKey ++ itemTokens bs)

def pairTokens : List (List Char × Block) → List Token
  | [] => []
  | p :: ps => .key :: .scalar .plain p.1 :: .value :: (p.2.tokensAfterKey ++ pairTokens ps)

end

/-- The tokens of a value that begins a line of its own. -/
def tokens (b : Block) : List Token := b.bracket b.tokensAfterKey

/-! ## Characters -/

mutual

theorem isWritten_afterKey : ∀ (b : Block), b.isReadable = true → ∀ k, IsWritten (b.afterKey k)
  | .word cs, h, k => by
    simp [afterKey, (flat_of_isWord h).1.written, isWritable]
  | .text cs, _, k => by
    simp [afterKey, isWritten_writeText, isWritable]
  | .sequence b bs, h, k => by
    obtain ⟨hb, hbs⟩ := Bool.and_eq_true_iff.mp h
    simp [afterKey, isWritten_here b hb, isWritten_items bs hbs, isWritable]
  | .mapping key v ps, h, k => by
    obtain ⟨hkv, hps⟩ := Bool.and_eq_true_iff.mp h
    obtain ⟨hkey, hv⟩ := Bool.and_eq_true_iff.mp hkv
    simp [afterKey, (isKey_iff hkey).flat.written, isWritten_afterKey v hv, isWritten_pairs ps hps,
      isWritable]

theorem isWritten_here : ∀ (b : Block), b.isReadable = true → ∀ k, IsWritten (b.here k)
  | .word cs, h, k => by
    simp [here, (flat_of_isWord h).1.written, isWritable]
  | .text cs, _, k => isWritten_writeText k cs
  | .sequence b bs, h, k => by
    obtain ⟨hb, hbs⟩ := Bool.and_eq_true_iff.mp h
    simp [here, isWritten_here b hb, isWritten_items bs hbs, isWritable]
  | .mapping key v ps, h, k => by
    obtain ⟨hkv, hps⟩ := Bool.and_eq_true_iff.mp h
    obtain ⟨hkey, hv⟩ := Bool.and_eq_true_iff.mp hkv
    simp [here, (isKey_iff hkey).flat.written, isWritten_afterKey v hv, isWritten_pairs ps hps,
      isWritable]

theorem isWritten_items : ∀ (bs : List Block), areReadable bs = true → ∀ k, IsWritten (items k bs)
  | [], _, _ => isWritten_nil
  | b :: bs, h, k => by
    obtain ⟨hb, hbs⟩ := Bool.and_eq_true_iff.mp h
    simp [items, isWritten_here b hb, isWritten_items bs hbs, isWritable]

theorem isWritten_pairs : ∀ (ps : List (List Char × Block)), pairsReadable ps = true →
    ∀ k, IsWritten (pairs k ps)
  | [], _, _ => isWritten_nil
  | p :: ps, h, k => by
    obtain ⟨hkv, hps⟩ := Bool.and_eq_true_iff.mp h
    obtain ⟨hkey, hv⟩ := Bool.and_eq_true_iff.mp hkv
    simp [pairs, (isKey_iff hkey).flat.written, isWritten_afterKey p.2 hv, isWritten_pairs ps hps,
      isWritable]

end

/-! ## Lines of items and pairs -/

/-- More items stand at the column of their sequence. -/
theorem outdented_items (h : areReadable bs = true) (hrest : Outdented (k + 1) rest) :
    Outdented (k + 1) (items k bs ++ rest) := by
  cases bs with
  | nil => exact hrest
  | cons b bs =>
    obtain ⟨hb, hbs⟩ := Bool.and_eq_true_iff.mp h
    have hdash : Begins '-' := ⟨rfl, rfl, rfl, by decide⟩
    have hw : IsWritten (' ' :: (b.here (k + 2) ++ (items k bs ++ rest))) := by
      simp [isWritten_here b hb, isWritten_items bs hbs, hrest.isWritten, isWritable]
    have hline := Outdented.line (Nat.lt_succ_self k) hdash hw
    rw [items]
    simpa using hline

/-- More pairs stand at the column of their mapping. -/
theorem outdented_pairs (h : pairsReadable ps = true) (hrest : Outdented (k + 1) rest) :
    Outdented (k + 1) (pairs k ps ++ rest) := by
  cases ps with
  | nil => exact hrest
  | cons p ps =>
    obtain ⟨hkv, hps⟩ := Bool.and_eq_true_iff.mp h
    obtain ⟨hkey, hv⟩ := Bool.and_eq_true_iff.mp hkv
    obtain ⟨hflat, hne, -⟩ := isKey_iff hkey
    obtain ⟨c, cs, hp⟩ := List.exists_cons_of_ne_nil hne
    rw [hp] at hflat
    have hw : IsWritten (cs ++ ':' :: (p.2.afterKey k ++ (pairs k ps ++ rest))) := by
      simp [(isWritten_cons.mp hflat.written).2, isWritten_afterKey p.2 hv,
        isWritten_pairs ps hps, hrest.isWritten, isWritable]
    have hline := Outdented.line (Nat.lt_succ_self k) hflat.begins hw
    rw [pairs, hp]
    simpa using hline

theorem endsWordChars_afterKey (b : Block) (k : Nat) (rest : List Char) :
    endsWordChars (b.afterKey k ++ rest) = true := by
  cases b <;> rw [afterKey] <;> rfl

/-! ## Cutting -/

/-- A value may begin at the column: of the whole document, or two to the right of the block that it
is an item of. -/
inductive Nested : Nat → List Nat → Prop where
  | root : Nested 0 []
  | item (p : Nat) (is : List Nat) : Nested (p + 2) (p :: is)

/-- The first column that is within the innermost block. -/
def inner : List Nat → Nat
  | [] => 0
  | p :: _ => p + 1

theorem Nested.deeper (h : Nested k is) : ∀ p ∈ is.head?, p < k := by
  cases h with
  | root =>
    intro p hp
    cases hp
  | item q is =>
    intro p hp
    obtain rfl := Option.some.inj hp
    omega

theorem Nested.inner_le (h : Nested k is) : inner is ≤ k := by
  cases h with
  | root => exact Nat.le_refl 0
  | item q is => exact Nat.le_succ (q + 1)

/-- A value that begins a line of its own is cut into its tokens. -/
def CutHere (b : Block) : Prop :=
  ∀ {rest i l k ts is s}, (is = [] → b.isCollection = true) → Nested k is → Settled l s →
    Outdented (inner is) rest →
    Reaches (block ts is s true) (glyphsAt i l k (b.here k ++ rest)) (b.tokens.reverse ++ ts) is
      rest

/-- A value after the colon of a key is. -/
def CutAfterKey (b : Block) : Prop :=
  ∀ {rest i l k p ts is}, p < k → Outdented (p + 1) rest →
    Reaches (block ts (p :: is) none false) (glyphsAt i l k (b.afterKey p ++ rest))
      (b.tokensAfterKey.reverse ++ ts) (p :: is) rest

/-- More items of an open sequence are. -/
def CutItems (bs : List Block) : Prop :=
  ∀ {rest i l k ts is s}, Settled l s → Outdented (k + 1) rest →
    Reaches (block ts (k :: is) s true) (ahead i l (items k bs ++ rest))
      ((itemTokens bs).reverse ++ ts) (k :: is) rest

/-- More pairs of an open mapping are. -/
def CutPairs (ps : List (List Char × Block)) : Prop :=
  ∀ {rest i l k ts is s}, Settled l s → Outdented (k + 1) rest →
    Reaches (block ts (k :: is) s true) (ahead i l (pairs k ps ++ rest))
      ((pairTokens ps).reverse ++ ts) (k :: is) rest

theorem cutHere_word (h : isWord cs = true) : CutHere (.word cs) := by
  intro rest i l k ts is s hroot hk hs hrest
  obtain ⟨hflat, hne⟩ := flat_of_isWord h
  cases hk with
  | root => cases hroot rfl
  | item p is =>
    rw [here, List.append_assoc]
    exact leads_plain hflat hne (by omega) hs hrest

theorem cutHere_text (cs : List Char) : CutHere (.text cs) := by
  intro rest i l k ts is s hroot hk hs hrest
  cases hk with
  | root => cases hroot rfl
  | item p is => exact leads_text cs (by omega) hs hrest

theorem cutAfterKey_word (h : isWord cs = true) : CutAfterKey (.word cs) := by
  intro rest i l k p ts is hk hrest
  obtain ⟨hflat, hne⟩ := flat_of_isWord h
  have hcut : Reaches (block ts (p :: is) none false) (glyphsAt (i + 1) l (k + 1)
      (cs ++ '\n' :: rest)) (.scalar .plain cs :: ts) (p :: is) rest :=
    leads_plain hflat hne (by omega) (settled_none l) hrest
  rw [afterKey, List.append_assoc]
  show Reaches _ (glyphsAt i l k (' ' :: (cs ++ '\n' :: rest))) _ _ _
  rw [glyphsAt_space]
  exact leads_space.reaches hcut

theorem cutAfterKey_text (cs : List Char) : CutAfterKey (.text cs) := by
  intro rest i l k p ts is hk hrest
  have hcut : Reaches (block ts (p :: is) none false) (glyphsAt (i + 1) l (k + 1)
      (writeText (p + 2) cs ++ rest)) (.scalar (styleOf cs) cs :: ts) (p :: is) rest :=
    leads_text cs (by omega) (settled_none l) hrest
  rw [afterKey, List.cons_append, glyphsAt_space]
  exact leads_space.reaches hcut

/-- After the mark of an entry its value and the entries that follow are cut. -/
theorem CutHere.entry (hb : CutHere b) (hbs : CutItems bs)
    (hitems : Outdented (k + 1) (items k bs ++ rest)) (hrest : Outdented (k + 1) rest) :
    Reaches (block (.blockEntry :: ts) (k :: is) none true)
      (glyphsAt i l (k + 2) (b.here (k + 2) ++ (items k bs ++ rest)))
      ((itemTokens (b :: bs)).reverse ++ ts) (k :: is) rest := by
  have hroot : k :: is = [] → b.isCollection = true := by
    intro h
    cases h
  have hvalue : Reaches (block (.blockEntry :: ts) (k :: is) none true)
      (glyphsAt i l (k + 2) (b.here (k + 2) ++ (items k bs ++ rest)))
      (b.tokens.reverse ++ .blockEntry :: ts) (k :: is) (items k bs ++ rest) :=
    hb hroot (.item k is) (settled_none l) hitems
  have htokens : (itemTokens (b :: bs)).reverse ++ ts =
      (itemTokens bs).reverse ++ (b.tokens.reverse ++ .blockEntry :: ts) := by
    rw [itemTokens, ← tokens]
    simp
  rw [htokens]
  exact hvalue.bind fun i l s hs => hbs hs hrest

/-- After the colon of a key its value and the pairs that follow are cut. -/
theorem CutAfterKey.pair (hv : CutAfterKey v) (hps : CutPairs ps) (hk : p < k)
    (hpairs : Outdented (p + 1) (pairs p ps ++ rest)) (hrest : Outdented (p + 1) rest) :
    Reaches (block (.value :: .scalar .plain key :: .key :: ts) (p :: is) none false)
      (glyphsAt i l k (v.afterKey p ++ (pairs p ps ++ rest)))
      ((pairTokens ((key, v) :: ps)).reverse ++ ts) (p :: is) rest := by
  have htokens : (pairTokens ((key, v) :: ps)).reverse ++ ts = (pairTokens ps).reverse ++
      (v.tokensAfterKey.reverse ++ .value :: .scalar .plain key :: .key :: ts) := by
    rw [pairTokens]
    simp
  rw [htokens]
  exact (hv hk hpairs).bind fun i l s hs => hps hs hrest

/-- The spaces before a key are passed. -/
theorem ahead_key (h : isKey key = true) (i l k : Nat) (rest : List Char) :
    ahead i l (spaces k ++ (key ++ rest)) = glyphsAt (i + k) l k (key ++ rest) := by
  obtain ⟨hflat, hne, -⟩ := isKey_iff h
  obtain ⟨c, cs, rfl⟩ := List.exists_cons_of_ne_nil hne
  exact ahead_spaces hflat.begins.space i l k (cs ++ rest)

/-- A sequence whose column opens a block. -/
theorem cutHere_sequence (h : (Block.sequence b bs).isReadable = true) (hb : CutHere b)
    (hbs : CutItems bs) : CutHere (.sequence b bs) := by
  intro rest i l k ts is s _ hk hs hrest
  obtain ⟨hreadable, hmore⟩ := Bool.and_eq_true_iff.mp h
  have hrest' : Outdented k rest := hrest.mono hk.inner_le
  have hright : Outdented (k + 1) rest := hrest'.mono (Nat.le_succ k)
  have hitems := outdented_items hmore hright
  have hw := isWritten_append.mpr ⟨isWritten_here b hreadable (k + 2), hitems.isWritten⟩
  have hcut : Reaches (block ts is s true)
      (glyphsAt i l k ('-' :: ' ' :: (b.here (k + 2) ++ (items k bs ++ rest))))
      ((itemTokens (b :: bs)).reverse ++ .blockSequenceStart :: ts) (k :: is) rest :=
    (leads_first_entry hk.deeper hs hw).reaches (hb.entry hbs hitems hright)
  have htokens : (Block.sequence b bs).tokens.reverse ++ ts =
      .blockEnd :: ((itemTokens (b :: bs)).reverse ++ .blockSequenceStart :: ts) := by
    simp [tokens, bracket, tokensAfterKey, itemTokens]
  rw [htokens, here, List.cons_append, List.cons_append, List.append_assoc]
  exact hcut.close hrest'

/-- A mapping always opens a block. -/
theorem reaches_mapping (h : (Block.mapping key v ps).isReadable = true) (hv : CutAfterKey v)
    (hps : CutPairs ps) (hdeeper : ∀ p ∈ is.head?, p < k) (hs : Settled l s)
    (hrest : Outdented k rest) :
    Reaches (block ts is s true) (glyphsAt i l k ((Block.mapping key v ps).here k ++ rest))
      ((Block.mapping key v ps).tokensAfterKey.reverse ++ ts) is rest := by
  obtain ⟨hkv, hmore⟩ := Bool.and_eq_true_iff.mp h
  obtain ⟨hkey, hreadable⟩ := Bool.and_eq_true_iff.mp hkv
  have hright : Outdented (k + 1) rest := hrest.mono (Nat.le_succ k)
  have hpairs := outdented_pairs hmore hright
  have hw := isWritten_append.mpr ⟨isWritten_afterKey v hreadable k, hpairs.isWritten⟩
  obtain ⟨i', k', hk', hlead⟩ := @leads_first_key (v.afterKey k ++ (pairs k ps ++ rest)) i l k ts is
    s key (isKey_iff hkey) hdeeper hs (endsWordChars_afterKey v k _) hw
  have hcut : Reaches (block ts is s true)
      (glyphsAt i l k (key ++ ':' :: (v.afterKey k ++ (pairs k ps ++ rest))))
      ((pairTokens ((key, v) :: ps)).reverse ++ .blockMappingStart :: ts) (k :: is) rest :=
    hlead.reaches (hv.pair hps hk' hpairs hright)
  have htokens : (Block.mapping key v ps).tokensAfterKey.reverse ++ ts =
      .blockEnd :: ((pairTokens ((key, v) :: ps)).reverse ++ .blockMappingStart :: ts) := by
    simp [tokensAfterKey, pairTokens]
  rw [htokens, here, List.append_assoc, List.cons_append, List.append_assoc]
  exact hcut.close hrest

theorem cutHere_mapping (h : (Block.mapping key v ps).isReadable = true) (hv : CutAfterKey v)
    (hps : CutPairs ps) : CutHere (.mapping key v ps) := by
  intro rest i l k ts is s _ hk hs hrest
  exact reaches_mapping h hv hps hk.deeper hs (hrest.mono hk.inner_le)

/-- A sequence after a key stands at the column of the key, which opens no block. -/
theorem cutAfterKey_sequence (h : (Block.sequence b bs).isReadable = true) (hb : CutHere b)
    (hbs : CutItems bs) : CutAfterKey (.sequence b bs) := by
  intro rest i l k p ts is hk hrest
  obtain ⟨hreadable, hmore⟩ := Bool.and_eq_true_iff.mp h
  have hitems := outdented_items hmore hrest
  have hw := isWritten_append.mpr ⟨isWritten_here b hreadable (p + 2), hitems.isWritten⟩
  have hline : IsWritten (spaces p ++ '-' :: ' ' :: (b.here (p + 2) ++ (items p bs ++ rest))) := by
    simp only [isWritten_append, isWritten_cons, isWritten_spaces] at hw ⊢
    exact ⟨trivial, rfl, rfl, hw⟩
  have hnewline := @leads_newline _ i l k ts (p :: is) none false hline
  rw [ahead_spaces rfl] at hnewline
  rw [afterKey, List.cons_append, List.append_assoc, List.cons_append, List.cons_append,
    List.append_assoc]
  exact hnewline.reaches ((leads_entry (settled_none _) hw).reaches (hb.entry hbs hitems hrest))

theorem cutAfterKey_mapping (h : (Block.mapping key v ps).isReadable = true) (hv : CutAfterKey v)
    (hps : CutPairs ps) : CutAfterKey (.mapping key v ps) := by
  intro rest i l k p ts is hk hrest
  obtain ⟨hkv, -⟩ := Bool.and_eq_true_iff.mp h
  obtain ⟨hkey, -⟩ := Bool.and_eq_true_iff.mp hkv
  have hhere (k : Nat) : (Block.mapping key v ps).here k ++ rest =
      key ++ (':' :: (v.afterKey k ++ pairs k ps) ++ rest) := by
    rw [here, List.append_assoc]
  have hafter : (Block.mapping key v ps).afterKey p ++ rest =
      '\n' :: (spaces (p + 2) ++ ((Block.mapping key v ps).here (p + 2) ++ rest)) := by
    rw [afterKey, here]
    simp
  have hw : IsWritten (spaces (p + 2) ++ ((Block.mapping key v ps).here (p + 2) ++ rest)) :=
    isWritten_append.mpr ⟨isWritten_spaces _,
      isWritten_append.mpr ⟨isWritten_here _ h (p + 2), hrest.isWritten⟩⟩
  have hdeeper : ∀ q ∈ (p :: is).head?, q < p + 2 := by
    intro q hq
    obtain rfl := Option.some.inj hq
    omega
  have hnewline := @leads_newline _ i l k ts (p :: is) none false hw
  rw [hhere, ahead_key hkey, ← hhere] at hnewline
  rw [hafter]
  exact hnewline.reaches
    (reaches_mapping h hv hps hdeeper (settled_none _) (hrest.mono (Nat.le_succ _)))

theorem cutItems_cons (h : areReadable (b :: bs) = true) (hb : CutHere b) (hbs : CutItems bs) :
    CutItems (b :: bs) := by
  intro rest i l k ts is s hs hrest
  obtain ⟨hreadable, hmore⟩ := Bool.and_eq_true_iff.mp h
  have hitems := outdented_items hmore hrest
  have hw := isWritten_append.mpr ⟨isWritten_here b hreadable (k + 2), hitems.isWritten⟩
  rw [items, List.append_assoc, List.cons_append, List.cons_append, List.append_assoc,
    ahead_spaces rfl]
  exact (leads_entry hs hw).reaches (hb.entry hbs hitems hrest)

theorem cutPairs_cons (h : pairsReadable ((key, v) :: ps) = true) (hv : CutAfterKey v)
    (hps : CutPairs ps) : CutPairs ((key, v) :: ps) := by
  intro rest i l k ts is s hs hrest
  obtain ⟨hkv, hmore⟩ := Bool.and_eq_true_iff.mp h
  obtain ⟨hkey, hreadable⟩ := Bool.and_eq_true_iff.mp hkv
  have hpairs := outdented_pairs hmore hrest
  have hw := isWritten_append.mpr ⟨isWritten_afterKey v hreadable k, hpairs.isWritten⟩
  have htext : pairs k ((key, v) :: ps) ++ rest =
      spaces k ++ (key ++ ':' :: (v.afterKey k ++ (pairs k ps ++ rest))) := by
    rw [pairs]
    simp
  obtain ⟨i', k', hk', hlead⟩ := @leads_key (v.afterKey k ++ (pairs k ps ++ rest)) (i + k) l k ts is
    s key (isKey_iff hkey) hs (endsWordChars_afterKey v k _) hw
  rw [htext, ahead_key hkey]
  exact hlead.reaches (hv.pair hps hk' hpairs hrest)

mutual

theorem cutHere : ∀ (b : Block), b.isReadable = true → CutHere b
  | .word _, h => cutHere_word h
  | .text cs, _ => cutHere_text cs
  | .sequence b bs, h =>
    have hs := Bool.and_eq_true_iff.mp h
    cutHere_sequence h (cutHere b hs.1) (cutItems bs hs.2)
  | .mapping _ v ps, h =>
    have hs := Bool.and_eq_true_iff.mp h
    cutHere_mapping h (cutAfterKey v (Bool.and_eq_true_iff.mp hs.1).2) (cutPairs ps hs.2)

theorem cutAfterKey : ∀ (b : Block), b.isReadable = true → CutAfterKey b
  | .word _, h => cutAfterKey_word h
  | .text cs, _ => cutAfterKey_text cs
  | .sequence b bs, h =>
    have hs := Bool.and_eq_true_iff.mp h
    cutAfterKey_sequence h (cutHere b hs.1) (cutItems bs hs.2)
  | .mapping _ v ps, h =>
    have hs := Bool.and_eq_true_iff.mp h
    cutAfterKey_mapping h (cutAfterKey v (Bool.and_eq_true_iff.mp hs.1).2) (cutPairs ps hs.2)

theorem cutItems : ∀ (bs : List Block), areReadable bs = true → CutItems bs
  | [], _ => fun hs _ => ⟨_, _, _, hs, Leads.refl _ _⟩
  | b :: bs, h =>
    have hs := Bool.and_eq_true_iff.mp h
    cutItems_cons h (cutHere b hs.1) (cutItems bs hs.2)

theorem cutPairs : ∀ (ps : List (List Char × Block)), pairsReadable ps = true → CutPairs ps
  | [], _ => fun hs _ => ⟨_, _, _, hs, Leads.refl _ _⟩
  | p :: ps, h =>
    have hs := Bool.and_eq_true_iff.mp h
    cutPairs_cons h (cutAfterKey p.2 (Bool.and_eq_true_iff.mp hs.1).2) (cutPairs ps hs.2)

end

/-- A collection that is written is cut into its tokens. -/
theorem tokens?_here (h : b.isReadable = true) (hcollection : b.isCollection = true) :
    tokens? (b.here 0) = some b.tokens := by
  have hw := isWritten_here b h 0
  obtain ⟨i, l, s, hs, hlead⟩ := @cutHere b h [] 0 0 0 [] [] none (fun _ => hcollection) .root
    (settled_none 0) .nil
  rw [List.append_nil, List.append_nil, ahead_nil] at hlead
  unfold tokens?
  rw [glyphs?_of_isWritten hw]
  show cutFrom _ (block [] [] none true) _ = _
  rw [hlead.cutFrom_eq, finish?_settled hs, List.reverse_reverse]

end Block
end Yaml
end Hosting
