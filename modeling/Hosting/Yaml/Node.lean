import Hosting.Yaml.Token

/-!
The nodes of a document: scalars, sequences and mappings, with their tags.
-/

namespace Hosting
namespace Yaml

/-- What may stand before a node: an anchor, here by its number, and a tag. -/
structure Props where
  anchor : Option Nat := none
  tag : Option Bytes := none
  deriving DecidableEq, Repr

/-- A document as a tree.  An alias stands for the last node of its number. -/
inductive Node where
  | alias (anchor : Nat)
  | scalar (props : Props) (style : Style) (text : List Char)
  | sequence (props : Props) (items : List Node)
  | mapping (props : Props) (pairs : List (Node × Node))
  deriving Inhabited, Repr

namespace Node

/-- A node that is not written. -/
def empty (props : Props) : Node := .scalar props .plain []

mutual

/-- How often a node, or the end of a collection, is met in reading the tree. -/
def events : Node → Nat
  | .alias _ => 1
  | .scalar _ _ _ => 1
  | .sequence _ items => eventsOfItems items + 2
  | .mapping _ pairs => eventsOfPairs pairs + 2

def eventsOfItems : List Node → Nat
  | [] => 0
  | n :: ns => events n + eventsOfItems ns

def eventsOfPairs : List (Node × Node) → Nat
  | [] => 0
  | p :: ps => events p.1 + events p.2 + eventsOfPairs ps

end

/-- The node under its anchor, if it has one. -/
def anchored (props : Props) (n : Node) : List (Nat × Node) :=
  match props.anchor with
  | none => []
  | some a => [(a, n)]

mutual

/-- The anchored nodes of the tree, in the order in which they begin. -/
def anchors : Node → List (Nat × Node)
  | .alias _ => []
  | .scalar p s t => anchored p (.scalar p s t)
  | .sequence p items => anchored p (.sequence p items) ++ anchorsOfItems items
  | .mapping p pairs => anchored p (.mapping p pairs) ++ anchorsOfPairs pairs

def anchorsOfItems : List Node → List (Nat × Node)
  | [] => []
  | n :: ns => anchors n ++ anchorsOfItems ns

def anchorsOfPairs : List (Node × Node) → List (Nat × Node)
  | [] => []
  | p :: ps => anchors p.1 ++ anchors p.2 ++ anchorsOfPairs ps

end

/-- The node that the aliases of a number stand for. -/
def target? (root : Node) (a : Nat) : Option Node :=
  (root.anchors.reverse.find? (·.1 == a)).map (·.2)

end Node
end Yaml
end Hosting
