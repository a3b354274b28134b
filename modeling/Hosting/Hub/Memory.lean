import Hosting.Finalizer
import Hosting.Hub.Request

/-!
A hub that is kept in memory.  It checks versions as a server does, keeps a deleted
work as long as it has finalizers, and notes every write.  Failures can be laid in wait
for it: then it refuses a request and changes nothing else.
-/

namespace Hosting
namespace Hub

/-- The requests that can be made to fail. -/
inductive Operation where
  | setFinalizers | setStatus | listWorks | createWork | replaceWork | deleteWork
  | replaceSecret | deleteSecret
  deriving DecidableEq, Repr

namespace Operation

instance : KeyOrder Operation where
  before a b := decide (a.ctorIdx < b.ctorIdx)
  irrefl a := by simp
  trans hab hbc := by
    simp only [decide_eq_true_eq] at hab hbc ⊢
    exact Nat.lt_trans hab hbc
  total {a b} hab hba := by cases a <;> cases b <;> first | rfl | simp_all [Operation.ctorIdx]

end Operation

/-- A write that took place. -/
inductive Write where
  | setFinalizers (cluster : String)
  | setStatus (cluster : String)
  | createWork (key : ObjectKey)
  | replaceWork (key : ObjectKey)
  | deleteWork (key : ObjectKey)
  | releaseWork (key : ObjectKey)
  | replaceSecret (key : ObjectKey)
  | deleteSecret (key : ObjectKey)
  deriving DecidableEq, Repr

/-- A key as messages show it. -/
def slashed (k : ObjectKey) : String := k.nspace ++ "/" ++ k.name

def Write.text : Write → String
  | .setFinalizers name => "update ManagedCluster/finalizers " ++ name
  | .setStatus name => "update ManagedCluster/status " ++ name
  | .createWork k => "create ManifestWork " ++ slashed k
  | .replaceWork k => "update ManifestWork " ++ slashed k
  | .deleteWork k => "delete ManifestWork " ++ slashed k
  | .releaseWork k => "finalize ManifestWork " ++ slashed k
  | .replaceSecret k => "update Secret " ++ slashed k
  | .deleteSecret k => "delete Secret " ++ slashed k

structure Memory where
  clusters : Table String ManagedCluster := .empty
  works : Table ObjectKey ManifestWork := .empty
  secrets : Table ObjectKey Secret := .empty
  addOns : Table ObjectKey AddOn := .empty
  /-- The last version given to an object. -/
  version : Nat := 0
  writes : List Write := []
  /-- Published events with the names of the objects they are about. -/
  events : List (String × Event) := []
  /-- What the next request of a kind fails with. -/
  failures : Table Operation String := .empty
  /-- How many updates of clusters are still refused as conflicts. -/
  conflicts : Nat := 0

namespace Memory

/-! ## Parts of the answers -/

/-- The labels fit a selector: each of its terms, which `,` separates, names a label
that is there, or one with its value after `=`. -/
def selects (m : Metadata) : Option String → Bool
  | none => true
  | some selector => (Text.splitAt ',' selector.toList).all fun term =>
    match Text.cutAt? '=' term with
    | some (k, v) => m.label? (String.ofList k) == some (String.ofList v)
    | none => (m.label? (String.ofList term)).isSome

/-- The metadata with the version numbered `n`. -/
def stamped (m : Metadata) (n : Nat) : Metadata :=
  { m with resourceVersion := some (Text.decimal n) }

/-- An update made from a version that is not the stored one.  An update or an object
without a version is never stale. -/
def stale? (what : String) (stored incoming : Metadata) : Option Error :=
  match incoming.resourceVersion, stored.resourceVersion with
  | some new, some old =>
    if new = old then none
    else some (.conflict
      (what ++ ": resourceVersion " ++ new ++ " is stale, current is " ++ old))
  | _, _ => none

/-- Go on from the stored object, unless it is missing or the copy is not of its version. -/
def ifCurrent (m : Memory) (kind name : String) (stored : Option α) (metadata : α → Metadata)
    (copy : Metadata) (go : α → Except Error β × Memory) : Except Error β × Memory :=
  match stored with
  | none => (.error (.notFound (kind ++ " " ++ name)), m)
  | some s =>
    match stale? kind (metadata s) copy with
    | some e => (.error e, m)
    | none => go s

/-- What holds of every refusal and of going on holds of the answer. -/
theorem ifCurrent_ind {m : Memory} {kind name : String} {stored : Option α}
    {metadata : α → Metadata} {copy : Metadata} {go : α → Except Error β × Memory}
    {P : Except Error β × Memory → Prop} (hrefused : ∀ e, P (.error e, m))
    (hgo : ∀ s, stored = some s → stale? kind (metadata s) copy = none → P (go s)) :
    P (m.ifCurrent kind name stored metadata copy go) := by
  unfold ifCurrent
  cases stored with
  | none => exact hrefused _
  | some s =>
    dsimp only
    cases hstale : stale? kind (metadata s) copy with
    | some e => exact hrefused e
    | none => exact hgo s rfl hstale

def noted (m : Memory) (w : Write) : Memory := { m with writes := m.writes ++ [w] }

/-- Go on unless a failure lies in wait for the operation. -/
def unlessFailing (m : Memory) (op : Operation) (go : Except Error α × Memory) :
    Except Error α × Memory :=
  match m.failures.get? op with
  | some text => (.error (.rejected text), { m with failures := m.failures.erase op })
  | none => go

theorem unlessFailing_of_none {m : Memory} {op : Operation} (h : m.failures.get? op = none)
    (go : Except Error α × Memory) : m.unlessFailing op go = go := by
  simp [unlessFailing, h]

/-! ## Answers -/

/-- Update part of a cluster: of the stored one, what `edit` takes over from `c`.  A
deleting cluster that is left without finalizers is gone after it. -/
def updateCluster (m : Memory) (op : Operation) (write : String → Write)
    (edit : ManagedCluster → ManagedCluster) (c : ManagedCluster) :
    Except Error ManagedCluster × Memory :=
  let name := c.nameText
  if 0 < m.conflicts then
    (.error (.conflict ("ManagedCluster " ++ name ++ " was modified")),
      { m with conflicts := m.conflicts - 1 })
  else m.unlessFailing op <|
    m.ifCurrent "ManagedCluster" name (m.clusters.get? name) (·.metadata) c.metadata fun stored =>
      let edited := edit stored
      let updated := { edited with metadata := stamped edited.metadata (m.version + 1) }
      let released := op == .setFinalizers && updated.isDeleting &&
        (updated.metadata.finalizers.getD []).isEmpty
      (.ok updated, noted { m with
        clusters :=
          if released then m.clusters.erase name else m.clusters.insert name updated
        version := m.version + 1 } (write name))

def createWork (m : Memory) (w : ManifestWork) : Except Error ManifestWork × Memory :=
  m.unlessFailing .createWork <|
    match m.works.get? w.key with
    | some _ => (.error (.conflict ("ManifestWork " ++ slashed w.key ++ " already exists")), m)
    | none =>
      let created := { w with metadata := stamped w.metadata (m.version + 1), status := none }
      (.ok created, noted { m with
        works := m.works.insert w.key created
        version := m.version + 1 } (.createWork w.key))

/-- All of a work is replaced but its status, which is the agent's. -/
def replaceWork (m : Memory) (w : ManifestWork) : Except Error ManifestWork × Memory :=
  m.unlessFailing .replaceWork <|
    m.ifCurrent "ManifestWork" (slashed w.key) (m.works.get? w.key) (·.metadata) w.metadata
      fun stored =>
        let updated :=
          { w with metadata := stamped w.metadata (m.version + 1), status := stored.status }
        (.ok updated, noted { m with
          works := m.works.insert w.key updated
          version := m.version + 1 } (.replaceWork w.key))

/-- A work with finalizers stays, marked as deleting since `now`; any other goes. -/
def deleteWork (now : Instant) (m : Memory) (k : ObjectKey) : Except Error Unit × Memory :=
  m.unlessFailing .deleteWork <|
    match m.works.get? k with
    | none => (.ok (), m)
    | some w =>
      let works :=
        if (w.metadata.finalizers.getD []).isEmpty then m.works.erase k
        else m.works.insert k { w with metadata := { w.metadata with
          deletionTimestamp := w.metadata.deletionTimestamp.or (some now.truncated) } }
      (.ok (), noted { m with works := works } (.deleteWork k))

def releaseWork (m : Memory) (k : ObjectKey) : Except Error Unit × Memory :=
  match m.works.get? k with
  | none => (.ok (), m)
  | some w =>
    let works :=
      if w.isDeleting then m.works.erase k
      else m.works.insert k { w with metadata := { w.metadata with finalizers := none } }
    (.ok (), noted { m with works := works } (.releaseWork k))

def replaceSecret (m : Memory) (s : Secret) : Except Error Secret × Memory :=
  m.unlessFailing .replaceSecret <|
    m.ifCurrent "Secret" (slashed s.key) (m.secrets.get? s.key) (·.metadata) s.metadata
      fun _ =>
        let updated := { s with metadata := stamped s.metadata (m.version + 1) }
        (.ok updated, noted { m with
          secrets := m.secrets.insert s.key updated
          version := m.version + 1 } (.replaceSecret s.key))

def deleteSecret (m : Memory) (k : ObjectKey) : Except Error Unit × Memory :=
  m.unlessFailing .deleteSecret <|
    if m.secrets.contains k then
      (.ok (), noted { m with secrets := m.secrets.erase k } (.deleteSecret k))
    else (.ok (), m)

/-- The works of a namespace that fit a selector, in the order of their names. -/
def worksIn (m : Memory) (nspace : String) (selector : Option String) : List ManifestWork :=
  (m.works.entries.filter fun e => e.1.nspace == nspace && selects e.2.metadata selector).map (·.2)

def addOnsIn (m : Memory) (nspace : String) : List AddOn :=
  (m.addOns.entries.filter fun e => e.1.nspace == nspace).map (·.2)

/-- The answer to a request, and the hub after it, at the time `now`. -/
def answer (now : Instant) : (q : Request) → Memory → q.Answer × Memory
  | .getCluster name, m => (.ok (m.clusters.get? name), m)
  | .setFinalizers c, m =>
    m.updateCluster .setFinalizers .setFinalizers
      (fun stored => { stored with metadata := { stored.metadata with
        finalizers := c.metadata.finalizers } }) c
  | .setStatus c, m =>
    m.updateCluster .setStatus .setStatus (fun stored => { stored with status := c.status }) c
  | .listWorks nspace selector, m =>
    m.unlessFailing .listWorks (.ok (m.worksIn nspace selector), m)
  | .getWork k, m => (.ok (m.works.get? k), m)
  | .createWork w, m => m.createWork w
  | .replaceWork w, m => m.replaceWork w
  | .deleteWork k, m => m.deleteWork now k
  | .releaseWork k, m => m.releaseWork k
  | .getSecret k, m => (.ok (m.secrets.get? k), m)
  | .replaceSecret s, m => m.replaceSecret s
  | .deleteSecret k, m => m.deleteSecret k
  | .listAddOns nspace, m => (.ok (m.addOnsIn nspace), m)
  | .publish about e, m => (.ok (), { m with events := m.events ++ [(about.name.getD "", e)] })

/-- Hold a dialogue with the hub at the time `now`. -/
def talk (now : Instant) (d : Talk α) (m : Memory) : α × Memory := d.run (answer now) m

/-! ## Changes from outside

Others than the controller put objects in place as they are; only the version is the
hub's own. -/

def putCluster (m : Memory) (c : ManagedCluster) : Memory :=
  { m with
    clusters := m.clusters.insert c.nameText
      { c with metadata := stamped c.metadata (m.version + 1) }
    version := m.version + 1 }

def putWork (m : Memory) (w : ManifestWork) : Memory :=
  { m with
    works := m.works.insert w.key { w with metadata := stamped w.metadata (m.version + 1) }
    version := m.version + 1 }

def putSecret (m : Memory) (s : Secret) : Memory :=
  { m with
    secrets := m.secrets.insert s.key { s with metadata := stamped s.metadata (m.version + 1) }
    version := m.version + 1 }

def putAddOn (m : Memory) (a : AddOn) : Memory :=
  { m with addOns := m.addOns.insert a.key a }

def removeAddOn (m : Memory) (k : ObjectKey) : Memory :=
  { m with addOns := m.addOns.erase k }

/-- The agent's report on a work, if the work is there. -/
def reportWork (m : Memory) (k : ObjectKey) (s : WorkStatus) : Memory :=
  match m.works.get? k with
  | none => m
  | some w => { m with works := m.works.insert k { w with status := some s } }

/-- Let the next request of a kind fail. -/
def failNext (m : Memory) (op : Operation) (text : String) : Memory :=
  { m with failures := m.failures.insert op text }

/-- Let the next `n` updates of clusters fail as conflicts. -/
def conflictNext (m : Memory) (n : Nat) : Memory := { m with conflicts := n }

end Memory
end Hub
end Hosting
