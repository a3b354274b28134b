import Hosting.Hub.Http
import Hosting.Names

/-!
The streams of objects that the controller watches.  Each is first listed as it is and
then followed from there.
-/

namespace Hosting
namespace Watch

inductive Stream where
  | clusters
  | works
  | importSecrets
  | autoImportSecrets
  deriving DecidableEq, Repr

namespace Stream

def all : List Stream := [.clusters, .works, .importSecrets, .autoImportSecrets]

def kind : Stream → Kind
  | .clusters => Kind.managedCluster
  | .works => Kind.manifestWork
  | .importSecrets | .autoImportSecrets => Kind.secret

/-- What the query asks of the objects. -/
def selection : Stream → List (String × String)
  | .clusters | .works => []
  | .importSecrets => [("labelSelector", Names.importSecretLabel)]
  | .autoImportSecrets => [("fieldSelector", "metadata.name=" ++ Names.autoImportSecret)]

/-- How many objects a listing gives at most at a time. -/
def pageSize : Nat := 500

/-- For how many seconds a stream is followed before it is opened anew. -/
def followSeconds : Nat := 290

def query (s : Stream) (parameters : List (String × String)) : Hub.Call :=
  .get (Hub.Call.collection s.kind none ++ "?" ++
    Text.join "" (parameters.map fun p => "&" ++ p.1 ++ "=" ++ Text.formEncoded p.2))

def listing (s : Stream) : Hub.Call :=
  s.query (s.selection ++ [("limit", Text.decimal pageSize)])

/-- Follow the stream from a version on. -/
def following (s : Stream) (version : String) : Hub.Call :=
  s.query ([("watch", "true"), ("timeoutSeconds", Text.decimal followSeconds)] ++ s.selection ++
    [("allowWatchBookmarks", "true"), ("resourceVersion", version)])

end Stream
end Watch
end Hosting
