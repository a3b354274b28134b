import Hosting.Text.Blank
import Hosting.Text.Utf8
import Hosting.Yaml.Value

/-!
Payloads: streams of documents, each of which describes one object.
-/

namespace Hosting

namespace Payload

/-! ## Documents of a stream -/

/-- The lines of a text, each with the newline that ends it. -/
def lines : List Char → List (List Char)
  | [] => []
  | c :: cs =>
    if c = '\n' then [c] :: lines cs
    else match lines cs with
      | [] => [[c]]
      | l :: ls => (c :: l) :: ls

/-- A line that divides documents: three dashes, alone or before a blank or a comment. -/
def isSeparator (line : List Char) : Bool :=
  match Text.trimEnd line with
  | ['-', '-', '-'] => true
  | '-' :: '-' :: '-' :: c :: _ => c == ' ' || c == '\t' || c == '#'
  | _ => false

/-- A line that is neither blank nor a comment. -/
def hasContent (line : List Char) : Bool :=
  match Text.trim line with
  | [] => false
  | c :: _ => c != '#'

/-- The runs of lines between separators. -/
def segments : List (List Char) → List (List (List Char))
  | [] => [[]]
  | l :: ls =>
    if isSeparator l then [] :: segments ls
    else match segments ls with
      | [] => [[l]]
      | s :: ss => (l :: s) :: ss

/-- The documents of a stream, without those that have no content. -/
def documents (text : List Char) : List (List Char) :=
  ((segments (lines text)).filter (·.any hasContent)).map List.flatten

/-! ## Objects -/

/-- Why a document is no object. -/
inductive Fault where
  /-- It cannot be read, for this reason. -/
  | malformed (reason : String)
  | notMapping
  | missing (field : String)
  deriving DecidableEq, Repr

def Fault.message : Fault → String
  | .malformed reason => reason
  | .notMapping => "document is not a mapping"
  | .missing field => "document has no " ++ field

/-- The member is a text that is not empty. -/
def hasText (v : Json) (field : String) : Bool :=
  ((v.member? field).bind Json.string?).any (· != "")

/-- The object that a document describes by what was read of it; it has at least a version and a
kind. -/
def described : Except String Json → Except Fault Json
  | .error reason => .error (.malformed reason)
  | .ok (.object ms) =>
    if !hasText (.object ms) "apiVersion" then .error (.missing "apiVersion")
    else if !hasText (.object ms) "kind" then .error (.missing "kind")
    else .ok (.object ms)
  | .ok _ => .error .notMapping

def decode (document : String) : Except Fault Json := described (Yaml.read document)

/-- A payload that cannot be used: the number of a document in it, and why. -/
structure Rejection where
  index : Nat
  reason : String
  deriving DecidableEq, Repr

/-- The objects of the documents, or the first that is none, counted from `index`. -/
def decodeFrom (index : Nat) : List (List Char) → Except Rejection (List Json)
  | [] => .ok []
  | d :: ds =>
    match decode (String.ofList d) with
    | .error f => .error ⟨index, f.message⟩
    | .ok v => (decodeFrom (index + 1) ds).map (v :: ·)

def decodeAll (payload : Bytes) : Except Rejection (List Json) :=
  match Utf8.decode payload with
  | .error f => .error ⟨0, f.message⟩
  | .ok text => decodeFrom 0 (documents text)

end Payload
end Hosting
