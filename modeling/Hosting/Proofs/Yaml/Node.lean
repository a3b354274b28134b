import Hosting.Proofs.Yaml.Written
import Hosting.Yaml.Node.Compose

/-!
# The tree of what is written

The tokens of a written value put its tree (`Block.node`) into the frame that waits for it.  Only a
sequence after a key is known to have ended when the next token comes, so that there the theorem
speaks of that token too.
-/

namespace Hosting
namespace Yaml

variable {f : Frame} {after : Node → Frame} {fs : List Frame} {n k : Node} {t : Token}
  {ts : List Token} {ns : List Node} {kvs : List (Node × Node)} {p : Props} {l : Bool}
  {b v : Block} {bs : List Block} {key : List Char} {ps : List (List Char × Block)}

/-! ## Tokens -/

/-- A document without properties, anchors and directives that is being read. -/
def Composer.reading (stack : List Frame) : Composer := ⟨stack, none, [], [], false, false⟩

open Composer (reading)

theorem Composer.tokens?_of_token? {c d : Composer} (h : c.token? t = some d)
    (ts : List Token) : c.tokens? (t :: ts) = d.tokens? ts := by
  rw [Composer.tokens?, h]
  rfl

theorem settle_of_ended? {props : Option Props} {t : Option Token}
    (h : ((f.settleNode props t).settleValue t).ended? t = none) :
    settle props t f fs = some ((f.settleNode props t).settleValue t, fs) := by
  cases fs <;> simp only [settle, h]

/-- A token that implies nothing is one for the frame as it is. -/
theorem token?_of_settled (h : (f.settleNode none (some t)).settleValue (some t) = f)
    (hended : f.ended? (some t) = none) :
    (reading (f :: fs)).token? t =
      if f.awaits && f.canBegin (some t) then (reading (f :: fs)).nodeToken? f fs t
      else (reading (f :: fs)).frameToken? f fs t := by
  have hsettle : settle none (some t) f fs = some (f, fs) := by
    rw [settle_of_ended?, h]
    rw [h]
    exact hended
  show (settle none (some t) f fs).bind _ = _
  rw [hsettle]
  rfl

/-- A frame in block form waits for a node, and becomes another with it. -/
inductive Waits : Frame → (Node → Frame) → Prop where
  | document : Waits (.document false none) fun n => .document false (some n)
  | item (p : Props) (ns : List Node) (l : Bool) :
    Waits (.sequence p ns l true) fun n => .sequence p (n :: ns) l false
  | key (p : Props) (kvs : List (Node × Node)) :
    Waits (.mapping p kvs .keyNode) fun n => .mapping p kvs (.value n)
  | value (p : Props) (kvs : List (Node × Node)) (k : Node) :
    Waits (.mapping p kvs (.valueNode k)) fun n => .mapping p ((k, n) :: kvs) .key

theorem token?_scalar (h : Waits f after) (style : Style) (text : List Char) :
    (reading (f :: fs)).token? (.scalar style text) =
      some (reading (after (.scalar {} style text) :: fs)) := by
  cases h with
  | item p ns l => cases l <;> exact token?_of_settled rfl rfl
  | _ => exact token?_of_settled rfl rfl

theorem token?_sequenceStart (h : Waits f after) :
    (reading (f :: fs)).token? .blockSequenceStart =
      some (reading (.sequence {} [] false false :: f :: fs)) := by
  cases h with
  | item p ns l => cases l <;> exact token?_of_settled rfl rfl
  | _ => exact token?_of_settled rfl rfl

theorem token?_mappingStart (h : Waits f after) :
    (reading (f :: fs)).token? .blockMappingStart =
      some (reading (.mapping {} [] .key :: f :: fs)) := by
  cases h with
  | item p ns l => cases l <;> exact token?_of_settled rfl rfl
  | _ => exact token?_of_settled rfl rfl

theorem token?_entry :
    (reading (.sequence p ns l false :: fs)).token? .blockEntry =
      some (reading (.sequence p ns l true :: fs)) := by
  cases l <;> exact token?_of_settled rfl rfl

theorem token?_sequenceEnd (h : Waits f after) :
    (reading (.sequence p ns false false :: f :: fs)).token? .blockEnd =
      some (reading (after (.sequence p ns.reverse) :: fs)) := by
  cases h <;> exact token?_of_settled rfl rfl

theorem token?_mappingEnd (h : Waits f after) :
    (reading (.mapping p kvs .key :: f :: fs)).token? .blockEnd =
      some (reading (after (.mapping p kvs.reverse) :: fs)) := by
  cases h <;> exact token?_of_settled rfl rfl

/-- Nothing is implied where a mapping waits for a key. -/
theorem settled_key : ((Frame.mapping p kvs .key).settleNode none (some t)).settleValue (some t) =
    .mapping p kvs .key := by
  show (Frame.mapping p kvs .key).settleValue (some t) = _
  unfold Frame.settleValue
  split <;> rfl

/-- A sequence without an indentation of its own ends before a token that is no entry of it, and is
then the value of its key. -/
theorem settle_indentless (ht : t ≠ .blockEntry) :
    settle none (some t) (.sequence {} ns true false) (.mapping p kvs (.valueNode k) :: fs) =
      some (.mapping p ((k, .sequence {} ns.reverse) :: kvs) .key, fs) := by
  have hvalue : ((Frame.sequence {} ns true false).settleNode none (some t)).settleValue (some t) =
      .sequence {} ns true false := by
    show (Frame.sequence {} ns true false).settleValue (some t) = _
    unfold Frame.settleValue
    split <;> rfl
  have hended : (Frame.sequence {} ns true false).ended? (some t) =
      some (.sequence {} ns.reverse) := by
    have hne : some t ≠ some .blockEntry := fun h => ht (Option.some.inj h)
    exact if_neg hne
  rw [settle]
  simp only [hvalue, hended]
  show settle none (some t) (.mapping p ((k, .sequence {} ns.reverse) :: kvs) .key) fs = _
  rw [settle_of_ended?, settled_key]
  rw [settled_key]
  rfl

theorem token?_indentless (ht : t ≠ .blockEntry) :
    (reading (.sequence {} ns true false :: .mapping p kvs (.valueNode k) :: fs)).token? t =
      (reading (.mapping p ((k, .sequence {} ns.reverse) :: kvs) .key :: fs)).token? t := by
  rw [token?_of_settled settled_key rfl]
  show Option.bind (settle none (some t) (.sequence {} ns true false) _) _ = _
  rw [settle_indentless ht]
  cases t <;> rfl

namespace Block

/-! ## Trees -/

mutual

/-- The tree that is read from the written value. -/
def node : Block → Node
  | .word cs => .scalar {} .plain cs
  | .text cs => .scalar {} (styleOf cs) cs
  | .sequence b bs => .sequence {} (b.node :: itemNodes bs)
  | .mapping k v ps => .mapping {} ((.scalar {} .plain k, v.node) :: pairNodes ps)

def itemNodes : List Block → List Node
  | [] => []
  | b :: bs => b.node :: itemNodes bs

def pairNodes : List (List Char × Block) → List (Node × Node)
  | [] => []
  | p :: ps => (.scalar {} .plain p.1, p.2.node) :: pairNodes ps

end

/-! ## Composing -/

/-- The tokens of a value that begins a line of its own put its tree into the frame. -/
def ComposedHere (b : Block) : Prop :=
  ∀ {f after fs ts}, Waits f after →
    (reading (f :: fs)).tokens? (b.tokens ++ ts) = (reading (after b.node :: fs)).tokens? ts

/-- Those of a value after a key do when something else than an entry follows. -/
def ComposedAfterKey (b : Block) : Prop :=
  ∀ {p kvs k fs t ts}, t ≠ .blockEntry →
    (reading (.mapping p kvs (.valueNode k) :: fs)).tokens? (b.tokensAfterKey ++ t :: ts) =
      (reading (.mapping p ((k, b.node) :: kvs) .key :: fs)).tokens? (t :: ts)

def ComposedItems (bs : List Block) : Prop :=
  ∀ {p ns l fs ts}, (reading (.sequence p ns l false :: fs)).tokens? (itemTokens bs ++ ts) =
    (reading (.sequence p ((itemNodes bs).reverse ++ ns) l false :: fs)).tokens? ts

def ComposedPairs (ps : List (List Char × Block)) : Prop :=
  ∀ {p kvs fs ts},
    (reading (.mapping p kvs .key :: fs)).tokens? (pairTokens ps ++ .blockEnd :: ts) =
      (reading (.mapping p ((pairNodes ps).reverse ++ kvs) .key :: fs)).tokens? (.blockEnd :: ts)

theorem composedItems_cons (hb : ComposedHere b) (hbs : ComposedItems bs) :
    ComposedItems (b :: bs) := by
  intro p ns l fs ts
  rw [itemTokens, ← tokens, List.cons_append, List.append_assoc,
    Composer.tokens?_of_token? token?_entry, hb (.item p ns l), hbs, itemNodes, List.reverse_cons,
    List.append_assoc]
  rfl

/-- What follows a value within a mapping is another key or the end of the mapping. -/
theorem pairTokens_append (ps : List (List Char × Block)) (ts : List Token) :
    ∃ t us, pairTokens ps ++ .blockEnd :: ts = t :: us ∧ t ≠ .blockEntry := by
  cases ps with
  | nil => exact ⟨_, _, rfl, by decide⟩
  | cons p ps => exact ⟨_, _, rfl, by decide⟩

theorem composedPairs_cons (hv : ComposedAfterKey v) (hps : ComposedPairs ps) :
    ComposedPairs ((key, v) :: ps) := by
  intro p kvs fs ts
  obtain ⟨t, us, hnext, ht⟩ := pairTokens_append ps ts
  have hkey : (reading (.mapping p kvs .key :: fs)).token? .key =
      some (reading (.mapping p kvs .keyNode :: fs)) := token?_of_settled rfl rfl
  have hvalue (n : Node) : (reading (.mapping p kvs (.value n) :: fs)).token? .value =
      some (reading (.mapping p kvs (.valueNode n) :: fs)) := token?_of_settled rfl rfl
  rw [pairTokens, List.cons_append, List.cons_append, List.cons_append, List.append_assoc, hnext,
    Composer.tokens?_of_token? hkey, Composer.tokens?_of_token? (token?_scalar (.key p kvs) _ _),
    Composer.tokens?_of_token? (hvalue _), hv ht, ← hnext, hps, pairNodes, List.reverse_cons,
    List.append_assoc]
  rfl

theorem composedHere_sequence (hitems : ComposedItems (b :: bs)) :
    ComposedHere (.sequence b bs) := by
  intro f after fs ts hf
  have htokens : (Block.sequence b bs).tokens ++ ts =
      .blockSequenceStart :: (itemTokens (b :: bs) ++ .blockEnd :: ts) := by
    simp [tokens, bracket, tokensAfterKey, itemTokens]
  rw [htokens, Composer.tokens?_of_token? (token?_sequenceStart hf), hitems,
    Composer.tokens?_of_token? (token?_sequenceEnd hf), List.append_nil, List.reverse_reverse]
  rfl

theorem composedHere_mapping (hpairs : ComposedPairs ((key, v) :: ps)) :
    ComposedHere (.mapping key v ps) := by
  intro f after fs ts hf
  have htokens : (Block.mapping key v ps).tokens ++ ts =
      .blockMappingStart :: (pairTokens ((key, v) :: ps) ++ .blockEnd :: ts) := by
    simp [tokens, bracket, tokensAfterKey, pairTokens]
  rw [htokens, Composer.tokens?_of_token? (token?_mappingStart hf), hpairs,
    Composer.tokens?_of_token? (token?_mappingEnd hf), List.append_nil, List.reverse_reverse]
  rfl

/-- Nothing brackets a sequence after a key. -/
theorem composedAfterKey_sequence (hb : ComposedHere b) (hbs : ComposedItems bs) :
    ComposedAfterKey (.sequence b bs) := by
  intro p kvs k fs t ts ht
  have hentry : (reading (.mapping p kvs (.valueNode k) :: fs)).token? .blockEntry =
      some (reading (.sequence {} [] true true :: .mapping p kvs (.valueNode k) :: fs)) :=
    token?_of_settled rfl rfl
  rw [tokensAfterKey, ← tokens, List.cons_append, List.append_assoc,
    Composer.tokens?_of_token? hentry, hb (.item {} [] true), hbs, Composer.tokens?,
    token?_indentless ht, List.reverse_append, List.reverse_reverse]
  rfl

/-- The other values are the same after a key as at the beginning of a line. -/
theorem ComposedHere.afterKey (h : ComposedHere b) (htokens : b.tokens = b.tokensAfterKey) :
    ComposedAfterKey b := by
  intro p kvs k fs t ts _
  rw [← htokens]
  exact h (.value p kvs k)

mutual

theorem composedHere : ∀ (b : Block), ComposedHere b
  | .word cs => fun hf => Composer.tokens?_of_token? (token?_scalar hf .plain cs) _
  | .text cs => fun hf => Composer.tokens?_of_token? (token?_scalar hf (styleOf cs) cs) _
  | .sequence b bs =>
    composedHere_sequence (composedItems_cons (composedHere b) (composedItems bs))
  | .mapping _ v ps =>
    composedHere_mapping (composedPairs_cons (composedAfterKey v) (composedPairs ps))

theorem composedAfterKey : ∀ (b : Block), ComposedAfterKey b
  | .word cs => ComposedHere.afterKey
    (fun hf => Composer.tokens?_of_token? (token?_scalar hf .plain cs) _) rfl
  | .text cs => ComposedHere.afterKey
    (fun hf => Composer.tokens?_of_token? (token?_scalar hf (styleOf cs) cs) _) rfl
  | .sequence b bs => composedAfterKey_sequence (composedHere b) (composedItems bs)
  | .mapping _ v ps => ComposedHere.afterKey
    (composedHere_mapping (composedPairs_cons (composedAfterKey v) (composedPairs ps))) rfl

theorem composedItems : ∀ (bs : List Block), ComposedItems bs
  | [] => rfl
  | b :: bs => composedItems_cons (composedHere b) (composedItems bs)

theorem composedPairs : ∀ (ps : List (List Char × Block)), ComposedPairs ps
  | [] => rfl
  | p :: ps => composedPairs_cons (composedAfterKey p.2) (composedPairs ps)

end

/-- The tokens of a written collection are a document of its tree. -/
theorem compose?_tokens (h : b.isCollection = true) : compose? b.tokens = some (some b.node) := by
  have hread : (reading [.document false none]).tokens? b.tokens =
      some (reading [.document false (some b.node)]) := by
    have hcomposed := @composedHere b _ _ [] [] .document
    rw [List.append_nil] at hcomposed
    exact hcomposed
  -- the document begins with its first token
  have hinitial : Composer.initial.tokens? b.tokens =
      (reading [.document false none]).tokens? b.tokens := by
    cases b with
    | word cs => cases h
    | text cs => cases h
    | sequence b bs => rfl
    | mapping k v ps => rfl
  unfold compose?
  rw [hinitial, hread]
  show Option.bind (settle none none (.document false (some b.node)) []) _ = _
  rw [settle_of_ended? rfl]
  rfl

end Block
end Yaml
end Hosting
