import Hosting.Yaml.Node.Compose
import Hosting.Yaml.Scalar
import Hosting.Yaml.Token.Stream

/-!
The JSON value of a document.
-/

namespace Hosting
namespace Yaml

/-- Values are read while the aliases followed are counted; a document may follow a
hundred per node. -/
abbrev Reading := StateT Nat Option

/-- The tags of the core schema are those of this name. -/
def coreTag (name : String) : Bytes := Utf8.encode ("tag:yaml.org,2002:" ++ name).toList

/-- A tag that the core schema leaves to applications.  A bare `!`, which parsing hands on as it
is, counts as one. -/
def isLocal (tag : Bytes) : Bool := tag.head? == some '!'.toUInt8

/-- A tag that asks an application for a value of its own: its name is text. -/
def isCustom (tag : Bytes) : Bool := isLocal tag && (Utf8.decode tag).isOk

/-- The value of a scalar by its style: only plain scalars are more than texts. -/
def untypedValue? (style : Style) (text : List Char) : Option Json :=
  if style = .plain then plainValue? text else some (.string (String.ofList text))

/-- The value of a scalar.  A core tag asks for a value of its kind, a local one that is no
text for none, and any other for a text. -/
def scalarValue? (props : Props) (style : Style) (text : List Char) : Option Json :=
  match props.tag with
  | none => untypedValue? style text
  | some tag =>
    if isCustom tag then none
    else if tag = coreTag "bool" then (bool? text).map .bool
    else if tag = coreTag "int" then
      match integer? text with
      | none => none
      | some n =>
        match integerRange n with
        | .kept => some (.int n)
        | _ => none
    else if tag = coreTag "float" then float? text
    else if tag = coreTag "null" then (if isNullWord text then some .null else none)
    else if isLocal tag then untypedValue? style text
    else some (.string (String.ofList text))

/-- Follow an alias to its node. -/
def follow (root : Node) (a : Nat) : Reading Node := do
  let jumps ← get
  if jumps + 1 > root.events * 100 then failure
  set (jumps + 1)
  match root.target? a with
  | some n => pure n
  | none => failure

/-- The node, or the one that an alias stands for. -/
def followed (root : Node) : Node → Reading Node
  | .alias a => follow root a
  | n => pure n

/-- A key is a scalar's text, whatever it says. -/
def keyOf (root : Node) (n : Node) : Reading String := do
  match ← followed root n with
  | .scalar _ _ text => pure (String.ofList text)
  | _ => failure

def untagged (props : Props) : Reading Unit :=
  if props.tag.any isCustom then failure else pure ()

/-- The value of a node with collections at most `depth` deep. -/
def valueOf (root : Node) : Nat → Node → Reading Json
  | 0, n => do
    match ← followed root n with
    | .scalar p s t => StateT.lift (scalarValue? p s t)
    | _ => failure
  | depth + 1, n => do
    match ← followed root n with
    | .scalar p s t => StateT.lift (scalarValue? p s t)
    | .sequence p items => do
      untagged p
      let vs ← items.mapM (valueOf root depth)
      pure (.array vs)
    | .mapping p pairs => do
      untagged p
      let ms ← pairs.mapM fun kv => do
        let k ← keyOf root kv.1
        let v ← valueOf root depth kv.2
        pure (k, v)
      pure (Json.ofMembers ms)
    | .alias _ => failure

def maxDepth : Nat := 128

/-- The value of the one document of a text; a text without any is null. -/
def read? (text : String) : Option Json := do
  let ts ← tokens? text.toList
  match ← compose? ts with
  | none => some .null
  | some n => ((valueOf n maxDepth n).run 0).map (·.1)

/-- Stands for whatever is said of a text that cannot be read. -/
def unreadable : String := "<yaml>"

/-- The value of a text, or why there is none. -/
def read (text : String) : Except String Json :=
  match read? text with
  | some v => .ok v
  | none => .error unreadable

theorem read_eq_ok_iff {text : String} {v : Json} : read text = .ok v ↔ read? text = some v := by
  unfold read
  cases read? text <;> simp

end Yaml
end Hosting
