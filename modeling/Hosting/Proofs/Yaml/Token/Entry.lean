import Hosting.Proofs.Yaml.Token.Scalar

/-!
# Entries and keys

The mark of an entry and the colon after a key open a block at their column, unless the innermost
one lies there.
-/

namespace Hosting
namespace Yaml

variable {c : Char} {cs rest : List Char} {i l k p : Nat} {g : Glyph} {gs hs : List Glyph}
  {ts us : List Token} {is : List Nat} {s : Option KeyStart} {a : Bool} {b d e : Cutter}

open Cutter (block)

/-! ## Entries -/

theorem cutToken_entry (hdocument : marksDocument (⟨'-', i, l, k⟩ :: gs) = false)
    (hword : endsWord gs = true) :
    cutToken (block ts is s a) ⟨'-', i, l, k⟩ gs =
      cutBlockEntry (block ts is s a) ⟨'-', i, l, k⟩ gs := by
  unfold cutToken
  rw [hdocument, hword]
  simp

/-- An entry begins where a sequence is open, or opens one. -/
theorem leads_entry_of_roll {is' : List Nat} (hwithin : Within k is)
    (hroll : (block ts is none true).roll k ts.length .blockSequenceStart = block us is' none true)
    (hs : Settled l s) (hrest : IsWritten rest) :
    Leads (block ts is s true) (glyphsAt i l k ('-' :: ' ' :: rest))
      (block (.blockEntry :: us) is' none true) (glyphsAt (i + 2) l (k + 2) rest) := by
  have hbegins : Begins '-' := ⟨rfl, rfl, rfl, by decide⟩
  have hw : IsWritten ('-' :: ' ' :: rest) :=
    isWritten_cons.mpr ⟨rfl, isWritten_cons.mpr ⟨rfl, hrest⟩⟩
  have hdocument : marksDocument (glyphsAt i l k ('-' :: ' ' :: rest)) = false := by
    apply marksDocument_of_chars
    rw [chars_glyphsAt hw]
    cases rest <;> rfl
  have hglyphs : glyphsAt i l k ('-' :: ' ' :: rest) =
      ⟨'-', i, l, k⟩ :: ⟨' ', i + 1, l, k + 1⟩ :: glyphsAt (i + 2) l (k + 2) rest := by
    rw [glyphsAt_text rfl, glyphsAt_space]
    rfl
  rw [hglyphs] at hdocument ⊢
  have hcut : Leads (block ts is s true) (⟨'-', i, l, k⟩ :: ⟨' ', i + 1, l, k + 1⟩ ::
      glyphsAt (i + 2) l (k + 2) rest) (block (.blockEntry :: us) is' none true)
      (⟨' ', i + 1, l, k + 1⟩ :: glyphsAt (i + 2) l (k + 2) rest) := by
    refine leads_cut hbegins (dropStale?_settled hs) hwithin ?_ (Nat.le_refl _)
    rw [cutToken_entry hdocument rfl, cutBlockEntry]
    show Option.bind
      (((block ts is none true).roll k ts.length .blockSequenceStart).dropStart?) _ = _
    rw [hroll]
    rfl
  exact hcut.trans leads_space

theorem leads_entry (hs : Settled l s) (hrest : IsWritten rest) :
    Leads (block ts (k :: is) s true) (glyphsAt i l k ('-' :: ' ' :: rest))
      (block (.blockEntry :: ts) (k :: is) none true) (glyphsAt (i + 2) l (k + 2) rest) := by
  have hwithin : Within k (k :: is) := fun p hp => Nat.le_of_eq (Option.some.inj hp).symm
  exact leads_entry_of_roll hwithin roll_same hs hrest

theorem leads_first_entry (hdeeper : ∀ p ∈ is.head?, p < k) (hs : Settled l s)
    (hrest : IsWritten rest) :
    Leads (block ts is s true) (glyphsAt i l k ('-' :: ' ' :: rest))
      (block (.blockEntry :: .blockSequenceStart :: ts) (k :: is) none true)
      (glyphsAt (i + 2) l (k + 2) rest) := by
  have hroll : (block ts is none true).roll k ts.length .blockSequenceStart =
      block (.blockSequenceStart :: ts) (k :: is) none true := by
    rw [roll_open hdeeper]
    simp [Cutter.insertAt, block]
  exact leads_entry_of_roll (fun p hp => Nat.le_of_lt (hdeeper p hp)) hroll hs hrest

/-! ## Keys -/

/-- A key that may stand in a line of a mapping: a plain text, short enough to be found. -/
structure IsKey (cs : List Char) : Prop where
  flat : Flat cs
  ne_nil : cs ≠ []
  near : octets cs ≤ 1024

theorem cutToken_value (hk : k ≠ 0) (hword : endsWord gs = true) :
    cutToken (block ts is s a) ⟨':', i, l, k⟩ gs =
      cutValue (block ts is s a) ⟨':', i, l, k⟩ gs := by
  have hcolumn : (⟨':', i, l, k⟩ : Glyph).column ≠ 0 := hk
  unfold cutToken
  rw [marksDocument_of_column hcolumn, decide_eq_false hcolumn, hword]
  rfl

theorem endsWord_of_chars (h : endsWordChars rest = true) (hw : IsWritten rest) (i l k : Nat) :
    endsWord (glyphsAt i l k rest) = true := by
  cases rest with
  | nil => rfl
  | cons c cs =>
    cases hc : isBreakChar c with
    | true =>
      rw [glyphsAt_break (isWritten_cons.mp hw).1 hc]
      exact h
    | false =>
      rw [glyphsAt_text hc]
      exact h

/-- A plain text before a colon that ends a word is read to the colon. -/
theorem readPlain_key {indent : Nat} (h : Flat (c :: cs)) (hindent : indent ≤ k + 1)
    (hend : endsWordChars rest = true) (hrest : IsWritten rest) :
    readPlain false indent [] Gap.none (glyphsAt i l k (c :: cs ++ ':' :: rest)) =
      some ⟨c :: cs, false,
        glyphsAt (i + octets (c :: cs)) l (k + (c :: cs).length) (':' :: rest)⟩ := by
  have hline : IsWritten (':' :: rest) := isWritten_cons.mpr ⟨rfl, hrest⟩
  have hlength : 0 < k + (c :: cs).length := by
    rw [List.length_cons]
    omega
  have hpassed := @readPlain_text (c :: cs) [] [] (':' :: rest) i l k indent h.written h.line
    h.inner h.last (by intro h; cases h) (marksDocument_flat h rfl hline i l k) hindent
    (by intro h; cases h rfl)
  have hcolon := endsWord_of_chars hend hrest (i + octets (c :: cs) + 1) l
    (k + (c :: cs).length + 1)
  have hmark := marksDocument_glyphsAt hlength (i + octets (c :: cs)) l (':' :: rest)
  rw [glyphsAt_text rfl] at hmark
  rw [glyphsAt_text rfl, readPlain_colon rfl hmark hcolon, List.nil_append, List.append_nil,
    List.reverse_reverse] at hpassed
  rw [glyphsAt_text rfl]
  exact hpassed

/-- A key is cut as a scalar, with its start noted. -/
theorem leads_key_text {key : List Char} (h : IsKey key) (hwithin : Within k is)
    (hs : Settled l s) (hend : endsWordChars rest = true) (hrest : IsWritten rest) :
    ∃ required, Leads (block ts is s true) (glyphsAt i l k (key ++ ':' :: rest))
      (block (.scalar .plain key :: ts) is (some ⟨ts.length, i, l, k, required⟩) false)
      (glyphsAt (i + octets key) l (k + key.length) (':' :: rest)) := by
  obtain ⟨hflat, hne, hnear⟩ := h
  obtain ⟨c, cs, rfl⟩ := List.exists_cons_of_ne_nil hne
  have hline : IsWritten (':' :: rest) := isWritten_cons.mpr ⟨rfl, hrest⟩
  have hcs : IsWritten cs := (isWritten_cons.mp hflat.written).2
  have hdocument := marksDocument_flat hflat rfl hline i l k
  have hindent (s : Option KeyStart) : ((block ts is s true).indent + 1).toNat ≤ k + 1 := by
    cases is with
    | nil => exact Nat.zero_le _
    | cons p is =>
      have hp : p ≤ k := hwithin p rfl
      show ((p : Int) + 1).toNat ≤ k + 1
      omega
  obtain ⟨required, hsave⟩ : ∃ required, (block ts is none true).saveStart? ⟨c, i, l, k⟩ =
      some (block ts is (some ⟨ts.length, i, l, k, required⟩) true) := ⟨_, rfl⟩
  have hread := @readPlain_key c cs rest i l k _ hflat
    (hindent (some ⟨ts.length, i, l, k, required⟩)) hend hrest
  refine ⟨required, ?_⟩
  rw [List.cons_append, glyphsAt_text hflat.begins.line] at hread hdocument ⊢
  refine leads_cut hflat.begins (dropStale?_settled hs) hwithin ?_ ?_
  · rw [cutToken_plain hflat hdocument (hflat.word _ _ _ _), cutPlain, hsave]
    show Option.bind (readPlain false _ [] Gap.none _) _ = _
    rw [hread]
    rfl
  · exact length_glyphsAt_append hcs hline _ _ _ _ _ _

/-- The colon says that the key is one, and opens a mapping where none is open. -/
theorem leads_key_of_roll {key : List Char} {is' : List Nat} (h : IsKey key)
    (hwithin : Within k is)
    (hroll : ∀ s, (block (.scalar .plain key :: .key :: ts) is s false).roll k ts.length
      .blockMappingStart = block us is' s false)
    (hs : Settled l s) (hend : endsWordChars rest = true) (hrest : IsWritten rest) :
    ∃ i' k', k < k' ∧
      Leads (block ts is s true) (glyphsAt i l k (key ++ ':' :: rest))
        (block (.value :: us) is' none false) (glyphsAt i' l k' rest) := by
  obtain ⟨required, htext⟩ := @leads_key_text rest i l k ts is s key h hwithin hs hend hrest
  have hbegins : Begins ':' := ⟨rfl, rfl, rfl, by decide⟩
  have hlength : 0 < key.length := List.length_pos_iff.mpr h.ne_nil
  have hnear : i + octets key ≤ i + 1024 := Nat.add_le_add_left h.near i
  have hwithin' : Within (k + key.length) is := fun p hp => Nat.le_trans (hwithin p hp) (by omega)
  refine ⟨i + octets key + 1, k + key.length + 1, by omega, htext.trans ?_⟩
  rw [glyphsAt_text rfl]
  refine leads_cut hbegins (dropStale?_fresh rfl hnear) hwithin' ?_ (Nat.le_refl _)
  have hinsert (s : Option KeyStart) :
      (block (.scalar .plain key :: ts) is s false).insertAt ts.length .key =
        block (.scalar .plain key :: .key :: ts) is s false := by
    simp [Cutter.insertAt, block]
  rw [cutToken_value (by omega) (endsWord_of_chars hend hrest _ _ _)]
  show some ((Cutter.push { (((block (.scalar .plain key :: ts) is _ false).insertAt ts.length
    .key).roll k ts.length .blockMappingStart) with
      start := none, keyAllowed := false } .value), _) = _
  rw [hinsert, hroll]
  rfl

theorem leads_key {key : List Char} (h : IsKey key) (hs : Settled l s)
    (hend : endsWordChars rest = true) (hrest : IsWritten rest) :
    ∃ i' k', k < k' ∧
      Leads (block ts (k :: is) s true) (glyphsAt i l k (key ++ ':' :: rest))
        (block (.value :: .scalar .plain key :: .key :: ts) (k :: is) none false)
        (glyphsAt i' l k' rest) := by
  have hwithin : Within k (k :: is) := fun p hp => Nat.le_of_eq (Option.some.inj hp).symm
  exact leads_key_of_roll h hwithin (fun _ => roll_same) hs hend hrest

theorem leads_first_key {key : List Char} (h : IsKey key) (hdeeper : ∀ p ∈ is.head?, p < k)
    (hs : Settled l s) (hend : endsWordChars rest = true) (hrest : IsWritten rest) :
    ∃ i' k', k < k' ∧
      Leads (block ts is s true) (glyphsAt i l k (key ++ ':' :: rest))
        (block (.value :: .scalar .plain key :: .key :: .blockMappingStart :: ts) (k :: is) none
          false) (glyphsAt i' l k' rest) := by
  have hroll (s : Option KeyStart) : (block (.scalar .plain key :: .key :: ts) is s false).roll k
      ts.length .blockMappingStart =
        block (.scalar .plain key :: .key :: .blockMappingStart :: ts) (k :: is) s false := by
    have hnewer : ts.length + 1 + 1 - ts.length = 2 := by omega
    rw [roll_open hdeeper]
    simp [Cutter.insertAt, block, hnewer]
  exact leads_key_of_roll h (fun p hp => Nat.le_of_lt (hdeeper p hp)) hroll hs hend hrest

end Yaml
end Hosting
