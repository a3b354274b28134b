import Hosting.Yaml.Node

/-!
Documents put together from their tokens.  The collections that are still open are kept in
a stack; each token is for the innermost one.
-/

namespace Hosting
namespace Yaml

/-! ## Open collections -/

/-- What a block mapping waits for. -/
inductive MappingSlot where
  | key
  | keyNode
  | value (k : Node)
  | valueNode (k : Node)

/-- What a flow sequence waits for; a pair without braces is an item of its own. -/
inductive FlowSequenceSlot where
  | first
  | next
  | item
  | pairKey
  | pairValue (k : Node)
  | pairValueNode (k : Node)

/-- What a flow mapping waits for. -/
inductive FlowMappingSlot where
  | first
  | next
  | item
  | keyNode
  | value (k : Node)
  | valueNode (k : Node)

/-- A collection, or the document itself, that is being read; its parts so far are in
reverse.  A sequence without indentation of its own has no token for its end. -/
inductive Frame where
  | document (explicit : Bool) (root : Option Node)
  | sequence (props : Props) (items : List Node) (indentless entry : Bool)
  | mapping (props : Props) (pairs : List (Node × Node)) (slot : MappingSlot)
  | flowSequence (props : Props) (items : List Node) (slot : FlowSequenceSlot)
  | flowMapping (props : Props) (pairs : List (Node × Node)) (slot : FlowMappingSlot)

namespace Frame

/-- The node that the frame waits for has come. -/
def put (n : Node) : Frame → Option Frame
  | .document e none => some (.document e (some n))
  | .sequence p items l true => some (.sequence p (n :: items) l false)
  | .mapping p pairs .keyNode => some (.mapping p pairs (.value n))
  | .mapping p pairs (.valueNode k) => some (.mapping p ((k, n) :: pairs) .key)
  | .flowSequence p items .first => some (.flowSequence p (n :: items) .next)
  | .flowSequence p items .item => some (.flowSequence p (n :: items) .next)
  | .flowSequence p items .pairKey => some (.flowSequence p items (.pairValue n))
  | .flowSequence p items (.pairValueNode k) =>
    some (.flowSequence p (.mapping {} [(k, n)] :: items) .next)
  | .flowMapping p pairs .first => some (.flowMapping p ((n, .empty {}) :: pairs) .next)
  | .flowMapping p pairs .item => some (.flowMapping p ((n, .empty {}) :: pairs) .next)
  | .flowMapping p pairs .keyNode => some (.flowMapping p pairs (.value n))
  | .flowMapping p pairs (.valueNode k) => some (.flowMapping p ((k, n) :: pairs) .next)
  | _ => none

/-- The frame waits for a node. -/
def awaits (f : Frame) : Bool := (f.put default).isSome

/-- The frame admits a sequence without indentation of its own. -/
def isMapping : Frame → Bool
  | .mapping _ _ _ => true
  | _ => false

def isFlow : Frame → Bool
  | .flowSequence _ _ _ => true
  | .flowMapping _ _ _ => true
  | _ => false

/-- A node may begin with the token. -/
def canBegin (f : Frame) : Option Token → Bool
  | some (.alias _) => true
  | some (.anchor _) => true
  | some (.tag _ _) => true
  | some (.scalar _ _) => true
  | some .flowSequenceStart => true
  | some .flowMappingStart => true
  | some .blockSequenceStart => !f.isFlow
  | some .blockMappingStart => !f.isFlow
  | some .blockEntry => f.isMapping
  | _ => false

/-- Without a node before it, the token says that the node is not written. -/
def skipsNode : Frame → Option Token → Bool
  | .document true none, some .documentStart => true
  | .document true none, some .documentEnd => true
  | .document true none, some (.versionDirective _ _) => true
  | .document true none, some (.tagDirective _ _) => true
  | .document true none, none => true
  | .sequence _ _ _ true, some .blockEntry => true
  | .sequence _ _ _ true, some .blockEnd => true
  | .sequence _ _ true true, some .key => true
  | .sequence _ _ true true, some .value => true
  | .mapping _ _ .keyNode, some .key => true
  | .mapping _ _ .keyNode, some .value => true
  | .mapping _ _ .keyNode, some .blockEnd => true
  | .mapping _ _ (.valueNode _), some .key => true
  | .mapping _ _ (.valueNode _), some .value => true
  | .mapping _ _ (.valueNode _), some .blockEnd => true
  | .flowSequence _ _ (.pairValueNode _), some .flowEntry => true
  | .flowSequence _ _ (.pairValueNode _), some .flowSequenceEnd => true
  | .flowMapping _ _ .keyNode, some .value => true
  | .flowMapping _ _ .keyNode, some .flowEntry => true
  | .flowMapping _ _ .keyNode, some .flowMappingEnd => true
  | .flowMapping _ _ (.valueNode _), some .flowEntry => true
  | .flowMapping _ _ (.valueNode _), some .flowMappingEnd => true
  | _, _ => false

/-- The node that the frame waits for is not written when the token cannot begin one
and properties have been read for it, or the token says so. -/
def settleNode (props : Option Props) (t : Option Token) (f : Frame) : Frame :=
  if f.awaits && !f.canBegin t && (props.isSome || f.skipsNode t) then
    (f.put (.empty (props.getD {}))).getD f
  else f

/-- A key without a `:` after it has no value. -/
def settleValue (t : Option Token) (f : Frame) : Frame :=
  if t = some .value then f
  else match f with
    | .mapping p pairs (.value k) => .mapping p ((k, .empty {}) :: pairs) .key
    | .flowSequence p items (.pairValue k) =>
      .flowSequence p (.mapping {} [(k, .empty {})] :: items) .next
    | .flowMapping p pairs (.value k) => .flowMapping p ((k, .empty {}) :: pairs) .next
    | f => f

/-- The sequence that ends before the token because it has no indentation of its own. -/
def ended? (t : Option Token) : Frame → Option Node
  | .sequence p items true false =>
    if t = some .blockEntry then none else some (.sequence p items.reverse)
  | _ => none

end Frame

/-- Everything that the token implies without being read itself. -/
def settle (props : Option Props) (t : Option Token) (f : Frame) (fs : List Frame) :
    Option (Frame × List Frame) :=
  let f := (f.settleNode props t).settleValue t
  match f.ended? t with
  | none => some (f, fs)
  | some n =>
    match fs with
    | [] => none
    | g :: gs => do settle none t (← g.put n) gs

/-! ## Documents -/

/-- A stream that is being read as one document. -/
structure Composer where
  /-- The open collections, innermost first; the document is the last. -/
  stack : List Frame
  /-- The properties read for the node that comes next. -/
  props : Option Props
  /-- The known anchors, the latest first. -/
  names : List (List Char × Nat)
  /-- The tag handles that directives declare. -/
  handles : List (List Char × Bytes)
  versioned : Bool
  directed : Bool

namespace Composer

def initial : Composer := ⟨[], none, [], [], false, false⟩

/-- A new anchor's number: how many names are known. -/
def addName (c : Composer) (name : List Char) : Composer × Nat :=
  let id := c.names.length
  ({ c with names := (name, id) :: c.names.filter (·.1 != name) }, id)

def defaultHandles : List (List Char × Bytes) :=
  [(['!'], Utf8.encode ['!']), (['!', '!'], Utf8.encode "tag:yaml.org,2002:".toList)]

/-- The tag that a handle and the rest of a tag spell. -/
def tag? (c : Composer) (handle : List Char) (rest : Bytes) : Option Bytes :=
  if handle.isEmpty then some rest
  else ((c.handles ++ defaultHandles).find? (·.1 == handle)).map (·.2 ++ rest)

/-- A directive before the document. -/
def direct? (c : Composer) : Token → Option Composer
  | .versionDirective major minor =>
    if !c.versioned && major = 1 && (minor = 1 || minor = 2) then
      some { c with versioned := true, directed := true }
    else none
  | .tagDirective handle target =>
    if c.handles.any (·.1 == handle) then none
    else some { c with handles := c.handles ++ [(handle, target)], directed := true }
  | _ => none

/-- A node is complete. -/
def put? (c : Composer) (n : Node) (f : Frame) (fs : List Frame) : Option Composer := do
  let f ← f.put n
  some { c with stack := f :: fs, props := none }

/-- A collection begins. -/
def begin_ (c : Composer) (f : Frame) (outer : List Frame) : Option Composer :=
  some { c with stack := f :: outer, props := none }

/-- The collection `n` ends. -/
def end? (c : Composer) (n : Node) (outer : List Frame) : Option Composer :=
  match outer with
  | [] => none
  | g :: gs => c.put? n g gs

/-- A token where the innermost frame waits for a node. -/
def nodeToken? (c : Composer) (f : Frame) (fs : List Frame) (t : Token) : Option Composer :=
  let props := c.props.getD {}
  match t with
  | .anchor name =>
    if props.anchor.isSome then none
    else
      let (c, id) := c.addName name
      some { c with stack := f :: fs, props := some { props with anchor := some id } }
  | .tag handle rest =>
    if props.tag.isSome then none
    else do
      let tag ← c.tag? handle rest
      some { c with stack := f :: fs, props := some { props with tag := some tag } }
  | .alias name =>
    if c.props.isSome then none
    else do
      let (_, id) ← c.names.find? (·.1 == name)
      c.put? (.alias id) f fs
  | .scalar style text => c.put? (.scalar props style text) f fs
  | .flowSequenceStart => c.begin_ (.flowSequence props [] .first) (f :: fs)
  | .flowMappingStart => c.begin_ (.flowMapping props [] .first) (f :: fs)
  | .blockSequenceStart => c.begin_ (.sequence props [] false false) (f :: fs)
  | .blockMappingStart => c.begin_ (.mapping props [] .key) (f :: fs)
  | .blockEntry => c.begin_ (.sequence props [] true true) (f :: fs)
  | _ => none

/-- A token that is no part of a node the frame waits for. -/
def frameToken? (c : Composer) (f : Frame) (fs : List Frame) (t : Token) : Option Composer :=
  let go (f : Frame) : Option Composer := some { c with stack := f :: fs }
  match f, t with
  | .document _ (some _), .documentEnd => go f
  | .sequence p items l false, .blockEntry => go (.sequence p items l true)
  | .sequence p items false false, .blockEnd => c.end? (.sequence p items.reverse) fs
  | .mapping p pairs .key, .key => go (.mapping p pairs .keyNode)
  | .mapping p pairs .key, .blockEnd => c.end? (.mapping p pairs.reverse) fs
  | .mapping p pairs (.value k), .value => go (.mapping p pairs (.valueNode k))
  | .flowSequence p items .first, .key => go (.flowSequence p items .pairKey)
  | .flowSequence p items .item, .key => go (.flowSequence p items .pairKey)
  | .flowSequence p items .first, .flowSequenceEnd => c.end? (.sequence p items.reverse) fs
  | .flowSequence p items .item, .flowSequenceEnd => c.end? (.sequence p items.reverse) fs
  | .flowSequence p items .next, .flowSequenceEnd => c.end? (.sequence p items.reverse) fs
  | .flowSequence p items .next, .flowEntry => go (.flowSequence p items .item)
  | .flowSequence p items .pairKey, .value => go (.flowSequence p items (.pairValue (.empty {})))
  | .flowSequence p items .pairKey, .flowEntry =>
    go (.flowSequence p items (.pairValue (.empty {})))
  | .flowSequence p items .pairKey, .flowSequenceEnd =>
    go (.flowSequence p items (.pairValue (.empty {})))
  | .flowSequence p items (.pairValue k), .value => go (.flowSequence p items (.pairValueNode k))
  | .flowMapping p pairs .first, .key => go (.flowMapping p pairs .keyNode)
  | .flowMapping p pairs .item, .key => go (.flowMapping p pairs .keyNode)
  | .flowMapping p pairs .first, .flowMappingEnd => c.end? (.mapping p pairs.reverse) fs
  | .flowMapping p pairs .item, .flowMappingEnd => c.end? (.mapping p pairs.reverse) fs
  | .flowMapping p pairs .next, .flowMappingEnd => c.end? (.mapping p pairs.reverse) fs
  | .flowMapping p pairs .next, .flowEntry => go (.flowMapping p pairs .item)
  | .flowMapping p pairs (.value k), .value => go (.flowMapping p pairs (.valueNode k))
  | _, _ => none

/-- One token of the document. -/
def documentToken? (c : Composer) (f : Frame) (fs : List Frame) (t : Token) : Option Composer := do
  let (f, fs) ← settle c.props (some t) f fs
  if f.awaits && f.canBegin (some t) then c.nodeToken? f fs t
  else Composer.frameToken? { c with props := none } f fs t

/-- One token of the stream.  The document may begin without a mark unless directives
came before it. -/
def token? (c : Composer) (t : Token) : Option Composer :=
  match c.stack with
  | f :: fs => c.documentToken? f fs t
  | [] =>
    match t with
    | .versionDirective _ _ => c.direct? t
    | .tagDirective _ _ => c.direct? t
    | .documentStart => some { c with stack := [.document true none] }
    | _ => if c.directed then none else c.documentToken? (.document false none) [] t

def tokens? : Composer → List Token → Option Composer
  | c, [] => some c
  | c, t :: ts => do tokens? (← c.token? t) ts

end Composer

/-- A stream of one document, or of none, which is told apart from an empty one. -/
def compose? (ts : List Token) : Option (Option Node) := do
  let c ← Composer.initial.tokens? ts
  match c.stack with
  | [] => if c.directed then none else some none
  | f :: fs =>
    match ← settle c.props none f fs with
    | (.document _ (some n), []) => some (some n)
    | _ => none

end Yaml
end Hosting
