import Hosting.Hub.Error
import Hosting.Json.Decode
import Hosting.Json.Reader
import Hosting.Resource.Kind
import Hosting.Text.Form
import Hosting.Text.Quoted

/-!
Requests to an API server and its answers: where objects are found, how an answer is
read, and how a refusal is told from one.
-/

namespace Hosting
namespace Hub

/-- A request over HTTP. -/
structure Call where
  method : String
  uri : String
  contentType : Option String := none
  body : Option Json := none

structure Reply where
  status : Nat
  body : String
  deriving DecidableEq, Repr

/-- Characters that a URI holds only when they are escaped: blanks and controls, angle
brackets, a backtick in its path and a double quote in its query. -/
def isBarred (inQuery : Bool) (c : Char) : Bool :=
  c ≤ ' ' || c == '<' || c == '>' || c == (if inQuery then '"' else '\x60')

/-- The most octets that a URI may have. -/
def longestUri : Nat := 65534

/-- A URI as it is sent, without the fragment that a `#` begins; none when it is too long
or holds a character that it may not. -/
def sentUri? (uri : String) : Option String :=
  let sent := uri.toList.takeWhile (· != '#')
  let path := sent.takeWhile (· != '?')
  let query := sent.dropWhile (· != '?')
  if uri.utf8ByteSize ≤ longestUri && !path.any (isBarred false) && !query.any (isBarred true) then
    some (String.ofList sent)
  else none

namespace Call

/-- The request as it is sent; none when its URI cannot be. -/
def sent? (c : Call) : Option Call := (sentUri? c.uri).map fun uri => { c with uri := uri }

/-- Where the objects of a kind are found, all of them or those of a namespace. -/
def collection (k : Kind) (nspace : Option String) : String :=
  (if k.group = "" then "/api/" else "/apis/") ++ k.apiVersion ++
    (match nspace with
      | none => ""
      | some n => "/namespaces/" ++ n) ++ "/" ++ k.plural

def item (k : Kind) (nspace : Option String) (name : String) : String :=
  collection k nspace ++ "/" ++ name

def get (path : String) : Call where
  method := "GET"
  uri := path

/-- Listing; the query names the selector, if there is one. -/
def list (path : String) (selector : Option String) : Call where
  method := "GET"
  uri := path ++ "?" ++
    (match selector with
      | none => ""
      | some s => "&labelSelector=" ++ Text.formEncoded s)

def withBody (method path contentType : String) (body : Json) : Call where
  method := method
  uri := path ++ "?"
  contentType := some contentType
  body := some body

def post (path : String) (body : Json) : Call := withBody "POST" path "application/json" body

def put (path : String) (body : Json) : Call := withBody "PUT" path "application/json" body

def delete (path : String) : Call := withBody "DELETE" path "application/json" (.object [])

/-- A change of the members that the body names. -/
def patch (path : String) (body : Json) : Call :=
  withBody "PATCH" path "application/merge-patch+json" body

end Call

/-- What a server says about a request that it refuses. -/
structure Refusal where
  code : Nat
  message : String
  reason : String
  deriving DecidableEq, Repr

namespace Refusal

def asCode (v : Json) : Option Nat := (Json.asInt 0 65535 v).map Int.toNat

open Json in
def ofJson? (v : Json) : Option Refusal := do
  match ← slots? ["status", "message", "reason", "code"] 4 v with
  | [status, message, reason, code] =>
    let _ ← required asString status
    some {
      message := ← withDefault "" asString message
      reason := ← withDefault "" asString reason
      code := ← required asCode code }
  | _ => none

def error (r : Refusal) : Error := .ofCode r.code r.message

end Refusal

namespace Reply

/-- The refusal that an answer carries by its status.  One that does not say itself what
it means has the status for its code and shows its text. -/
def refusal? (r : Reply) : Option Refusal :=
  if 400 ≤ r.status && r.status < 600 then
    some (((Json.read? r.body).bind Refusal.ofJson?).getD
      ⟨r.status, Text.quoted r.body, "Failed to parse error data"⟩)
  else none

/-- What an answer is read as, unless it is a refusal. -/
def value (decode : Json → Option α) (r : Reply) : Except Error α :=
  match r.refusal? with
  | some f => .error f.error
  | none =>
    match (Json.read? r.body).bind decode with
    | some x => .ok x
    | none => .error .unreadable

/-- The object that is looked up, none when the server knows that there is no such one. -/
def found (decode : Json → Option α) (r : Reply) : Except Error (Option α) :=
  match r.refusal? with
  | some f => if f.reason = "NotFound" then .ok none else .error f.error
  | none => some <$> r.value decode

/-- A deed that is done as well when the object was not there. -/
def done (x : Except Error α) : Except Error Unit :=
  match x with
  | .ok _ | .error (.notFound _) => .ok ()
  | .error e => .error e

end Reply

open Json in
/-- Metadata of a listing. -/
def listMetadata? (v : Json) : Option Unit := do
  match ← members? ["continue", "remainingItemCount", "resourceVersion", "selfLink"] v with
  | [next, remaining, version, link] =>
    let _ ← optional asString next
    let _ ← optional asInt64 remaining
    let _ ← optional asString version
    let _ ← optional asString link
    some ()
  | _ => none

open Json in
def items? (decode : Json → Option α) (v : Json) : Option (List α) := do
  match ← members? ["metadata", "items"] v with
  | [metadata, items] =>
    withDefault () listMetadata? metadata
    required (asList decode) items
  | _ => none

inductive Summary where
  | success | failure
  deriving DecidableEq, Repr

def Summary.text : Summary → String
  | .success => "Success"
  | .failure => "Failure"

open Json in
def causeOfJson? (v : Json) : Option Unit := do
  match ← slots? ["reason", "message", "field"] 0 v with
  | [reason, message, field] =>
    let _ ← withDefault "" asString reason
    let _ ← withDefault "" asString message
    let _ ← withDefault "" asString field
    some ()
  | _ => none

open Json in
def detailsOfJson? (v : Json) : Option Unit := do
  match ← slots? ["name", "group", "kind", "uid", "causes", "retryAfterSeconds"] 0 v with
  | [name, group, kind, uid, causes, retry] =>
    let _ ← withDefault "" asString name
    let _ ← withDefault "" asString group
    let _ ← withDefault "" asString kind
    let _ ← withDefault "" asString uid
    let _ ← withDefault [] (asList causeOfJson?) causes
    let _ ← withDefault 0 (asInt 0 4294967295) retry
    some ()
  | _ => none

open Json in
/-- The server's own report on what it did. -/
def reportOfJson? (v : Json) : Option Unit := do
  match ← members? ["status", "code", "message", "reason", "details"] v with
  | [status, code, message, reason, details] =>
    let _ ← optional (asChoice Summary.text [.success, .failure]) status
    let _ ← withDefault 0 Refusal.asCode code
    let _ ← withDefault "" asString message
    let _ ← withDefault "" asString reason
    let _ ← optional detailsOfJson? details
    some ()
  | _ => none

/-- What is left of an object after its deletion: the server's report, or the object as
it still is. -/
def remains? (decode : Json → Option α) (v : Json) : Option Unit :=
  if (v.member? "kind").bind Json.string? == some "Status" then reportOfJson? v
  else (decode v).map fun _ => ()

end Hub
end Hosting
