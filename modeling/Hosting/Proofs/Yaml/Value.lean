import Hosting.Proofs.Yaml.Node
import Hosting.Yaml.Value

/-!
# What is written is read back

A collection that is written is read as its value: its words as what they say, its texts as
themselves, in whatever style they are written.
-/

namespace Hosting
namespace Yaml

variable {cs : List Char} {b : Block} {root : Node}

/-! ## Scalars -/

theorem float?_ne_string (s : String) : float? cs ≠ some (.string s) := by
  intro h
  simp only [float?] at h
  repeat' split at h
  all_goals cases h

/-- A plain scalar that is text is the text that it is. -/
theorem eq_of_plainValue? {s : String} (h : plainValue? cs = some (.string s)) :
    s = String.ofList cs := by
  have hotherwise (h : (if isZeroPadded cs then Json.string (String.ofList cs)
      else (float? cs).getD (.string (String.ofList cs))) = .string s) : s = String.ofList cs := by
    split at h
    · cases h
      rfl
    · cases hfloat : float? cs with
      | none =>
        rw [hfloat] at h
        cases h
        rfl
      | some v =>
        rw [hfloat] at h
        exact absurd (hfloat.trans (congrArg some h)) (float?_ne_string s)
  unfold plainValue? at h
  split at h
  · cases h
  · split at h
    · cases h
    · dsimp only at h
      split at h
      · exact hotherwise (Option.some.inj h)
      · split at h
        · cases h
        · cases h
        · exact hotherwise (Option.some.inj h)

/-- A text is read as text in the style that it is written in. -/
theorem untypedValue?_styleOf (cs : List Char) :
    untypedValue? (styleOf cs) cs = some (.string (String.ofList cs)) := by
  rcases styleOf_cases cs with ⟨hstyle, hclear, -⟩ | ⟨hstyle, -⟩ | ⟨hstyle, -⟩ | hstyle
  · rw [hstyle]
    show plainValue? cs = _
    unfold isAmbiguous at hclear
    rw [Bool.or_eq_false_iff] at hclear
    split at hclear
    · next s hs => rw [hs, eq_of_plainValue? hs]
    · cases hclear.2
  · rw [hstyle]
    rfl
  · rw [hstyle]
    rfl
  · rw [hstyle]
    rfl

namespace Block

/-! ## Values -/

mutual

/-- The value that is read from the written one. -/
def value : Block → Json
  | .word cs => (plainValue? cs).getD .null
  | .text cs => .string (String.ofList cs)
  | .sequence b bs => .array (b.value :: itemValues bs)
  | .mapping k v ps => Json.ofMembers ((String.ofList k, v.value) :: pairValues ps)

def itemValues : List Block → List Json
  | [] => []
  | b :: bs => b.value :: itemValues bs

def pairValues : List (List Char × Block) → List (String × Json)
  | [] => []
  | p :: ps => (String.ofList p.1, p.2.value) :: pairValues ps

end

mutual

/-- How many collections lie within one another. -/
def depth : Block → Nat
  | .word _ => 0
  | .text _ => 0
  | .sequence b bs => max b.depth (itemsDepth bs) + 1
  | .mapping _ v ps => max v.depth (pairsDepth ps) + 1

def itemsDepth : List Block → Nat
  | [] => 0
  | b :: bs => max b.depth (itemsDepth bs)

def pairsDepth : List (List Char × Block) → Nat
  | [] => 0
  | p :: ps => max p.2.depth (pairsDepth ps)

end

/-- A scalar is read at any depth. -/
theorem valueOf_scalar {style : Style} {text : List Char} {v : Json}
    (h : untypedValue? style text = some v) (d : Nat) :
    valueOf root d (.scalar {} style text) = pure v := by
  have hlift : (StateT.lift (scalarValue? {} style text) : Reading Json) = pure v := by
    show (StateT.lift (untypedValue? style text) : Reading Json) = pure v
    rw [h]
    rfl
  cases d with
  | zero => exact hlift
  | succ d => exact hlift

/-- How a mapping's pair is read. -/
def memberOf (root : Node) (d : Nat) (kv : Node × Node) : Reading (String × Json) := do
  let k ← keyOf root kv.1
  let v ← valueOf root d kv.2
  pure (k, v)

mutual

theorem valueOf_node : ∀ (b : Block), b.isReadable = true → ∀ {d}, b.depth ≤ d →
    valueOf root d b.node = pure b.value
  | .word cs, h, d, _ => by
    obtain ⟨v, hv⟩ := Option.isSome_iff_exists.mp (Bool.and_eq_true_iff.mp h).2
    have hvalue : (Block.word cs).value = v := by
      rw [value, hv]
      rfl
    have hword : untypedValue? .plain cs = some v := hv
    rw [hvalue]
    exact valueOf_scalar hword d
  | .text cs, _, d, _ => valueOf_scalar (untypedValue?_styleOf cs) d
  | .sequence b bs, h, d, hd => by
    obtain ⟨hb, hbs⟩ := Bool.and_eq_true_iff.mp h
    rw [depth] at hd
    obtain ⟨d, rfl⟩ : ∃ e, d = e + 1 := ⟨d - 1, by omega⟩
    have hfirst := valueOf_node b hb (by omega : b.depth ≤ d)
    have hmore := valuesOf_items bs hbs (by omega : itemsDepth bs ≤ d)
    show (List.mapM (valueOf root d) (b.node :: itemNodes bs) >>=
      fun vs => pure (Json.array vs)) = _
    rw [List.mapM_cons, hfirst, hmore]
    rfl
  | .mapping k v ps, h, d, hd => by
    obtain ⟨hkv, hps⟩ := Bool.and_eq_true_iff.mp h
    rw [depth] at hd
    obtain ⟨d, rfl⟩ : ∃ e, d = e + 1 := ⟨d - 1, by omega⟩
    have hfirst := valueOf_node v (Bool.and_eq_true_iff.mp hkv).2 (by omega : v.depth ≤ d)
    have hmore := valuesOf_pairs ps hps (by omega : pairsDepth ps ≤ d)
    show (List.mapM (memberOf root d) ((.scalar {} .plain k, v.node) :: pairNodes ps) >>=
      fun ms => pure (Json.ofMembers ms)) = _
    rw [List.mapM_cons, hmore, memberOf, hfirst]
    rfl

theorem valuesOf_items : ∀ (bs : List Block), areReadable bs = true → ∀ {d}, itemsDepth bs ≤ d →
    (itemNodes bs).mapM (valueOf root d) = pure (itemValues bs)
  | [], _, _, _ => List.mapM_nil
  | b :: bs, h, d, hd => by
    obtain ⟨hb, hbs⟩ := Bool.and_eq_true_iff.mp h
    rw [itemsDepth] at hd
    rw [itemNodes, List.mapM_cons, valueOf_node b hb (by omega), valuesOf_items bs hbs (by omega)]
    rfl

theorem valuesOf_pairs : ∀ (ps : List (List Char × Block)), pairsReadable ps = true →
    ∀ {d}, pairsDepth ps ≤ d → (pairNodes ps).mapM (memberOf root d) = pure (pairValues ps)
  | [], _, _, _ => List.mapM_nil
  | p :: ps, h, d, hd => by
    obtain ⟨hkv, hps⟩ := Bool.and_eq_true_iff.mp h
    rw [pairsDepth] at hd
    rw [pairNodes, List.mapM_cons, valuesOf_pairs ps hps (by omega), memberOf,
      valueOf_node p.2 (Bool.and_eq_true_iff.mp hkv).2 (by omega)]
    rfl

end

/-- A collection of readable values that lie not too deep is read back. -/
theorem read?_write (h : b.isReadable = true) (hcollection : b.isCollection = true)
    (hdepth : b.depth ≤ maxDepth) : read? b.write = some b.value := by
  have htext : b.write.toList = b.here 0 := String.toList_ofList
  unfold read?
  rw [htext, tokens?_here h hcollection]
  show Option.bind (compose? b.tokens) _ = _
  rw [compose?_tokens hcollection]
  show Option.map _ ((valueOf b.node maxDepth b.node).run 0) = _
  rw [valueOf_node b h hdepth]
  rfl

end Block
end Yaml
end Hosting
