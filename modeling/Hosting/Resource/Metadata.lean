import Hosting.Instant.Text
import Hosting.Json.Decode
import Hosting.Resource.Kind

/-!
Names, labels, annotations and the like, which all objects have, and the keys that objects
are filed under.
-/

namespace Hosting

/-- Namespace and name, under which the hub files an object. -/
structure ObjectKey where
  nspace : String
  name : String
  deriving DecidableEq, Repr

namespace ObjectKey

def before (a b : ObjectKey) : Bool :=
  KeyOrder.before a.nspace b.nspace || (a.nspace == b.nspace && KeyOrder.before a.name b.name)

instance : KeyOrder ObjectKey where
  before := before
  irrefl a := by simp [before, KeyOrder.irrefl]
  trans := by
    intro a b c hab hbc
    simp only [before, Bool.or_eq_true, Bool.and_eq_true, beq_iff_eq] at hab hbc ⊢
    rcases hab with hab | ⟨hab, hab'⟩
    · rcases hbc with hbc | ⟨hbc, _⟩
      · exact Or.inl (KeyOrder.trans hab hbc)
      · exact Or.inl (hbc ▸ hab)
    · rcases hbc with hbc | ⟨hbc, hbc'⟩
      · exact Or.inl (hab ▸ hbc)
      · exact Or.inr ⟨hab.trans hbc, KeyOrder.trans hab' hbc'⟩
  total := by
    intro a b hab hba
    simp only [before, Bool.or_eq_false_iff, Bool.and_eq_false_iff, beq_eq_false_iff_ne] at hab hba
    have hn : a.nspace = b.nspace := KeyOrder.total hab.1 hba.1
    have h1 := hab.2.resolve_left (fun h => h hn)
    have h2 := hba.2.resolve_left (fun h => h hn.symm)
    obtain ⟨an, am⟩ := a
    obtain ⟨bn, bm⟩ := b
    simp only at hn h1 h2
    rw [hn, KeyOrder.total h1 h2]

end ObjectKey

/-- A point in time that is written in whole seconds. -/
def Instant.ofJson? (v : Json) : Option Instant := Json.asString v >>= Instant.read?

/-- The object that another one belongs to, and goes with. -/
structure OwnerReference where
  apiVersion : String
  kind : String
  name : String
  uid : String
  controller : Option Bool := none
  blockOwnerDeletion : Option Bool := none
  deriving DecidableEq, Repr

namespace OwnerReference

open Json in
/-- What is missing of the texts is empty. -/
def ofJson? (v : Json) : Option OwnerReference := do
  match ← members? ["apiVersion", "kind", "name", "uid", "controller", "blockOwnerDeletion"] v with
  | [version, kind, name, uid, controller, block] =>
    some {
      apiVersion := (← optional asString version).getD ""
      kind := (← optional asString kind).getD ""
      name := (← optional asString name).getD ""
      uid := (← optional asString uid).getD ""
      controller := ← optional asBool controller
      blockOwnerDeletion := ← optional asBool block }
  | _ => none

def toJson (r : OwnerReference) : Json :=
  .ofPresent [
    ("apiVersion", some (.string r.apiVersion)),
    ("kind", some (.string r.kind)),
    ("name", some (.string r.name)),
    ("uid", some (.string r.uid)),
    ("controller", r.controller.map .bool),
    ("blockOwnerDeletion", r.blockOwnerDeletion.map .bool)]

end OwnerReference

/-- Who wrote which members of an object last.  The members are told as a value of their own. -/
structure ManagedFields where
  manager : Option String := none
  operation : Option String := none
  apiVersion : Option String := none
  time : Option Instant := none
  fieldsType : Option String := none
  fieldsV1 : Option Json := none
  subresource : Option String := none
  deriving DecidableEq

namespace ManagedFields

open Json in
def ofJson? (v : Json) : Option ManagedFields := do
  match ← members? ["manager", "operation", "apiVersion", "time", "fieldsType", "fieldsV1",
    "subresource"] v with
  | [manager, operation, version, time, type, fields, subresource] =>
    some {
      manager := ← optional asString manager
      operation := ← optional asString operation
      apiVersion := ← optional asString version
      time := ← optional Instant.ofJson? time
      fieldsType := ← optional asString type
      fieldsV1 := ← optional some fields
      subresource := ← optional asString subresource }
  | _ => none

def toJson (f : ManagedFields) : Json :=
  .ofPresent [
    ("manager", f.manager.map .string),
    ("operation", f.operation.map .string),
    ("apiVersion", f.apiVersion.map .string),
    ("time", f.time.map fun t => .string t.secondsText),
    ("fieldsType", f.fieldsType.map .string),
    ("fieldsV1", f.fieldsV1),
    ("subresource", f.subresource.map .string)]

end ManagedFields

/-- What every object of the hub carries. -/
structure Metadata where
  name : Option String := none
  /-- How a name is to begin that the hub gives to an object without one. -/
  generateName : Option String := none
  nspace : Option String := none
  labels : Option (Table String String) := none
  annotations : Option (Table String String) := none
  finalizers : Option (List String) := none
  ownerReferences : Option (List OwnerReference) := none
  managedFields : Option (List ManagedFields) := none
  resourceVersion : Option String := none
  uid : Option String := none
  selfLink : Option String := none
  generation : Option Int := none
  creationTimestamp : Option Instant := none
  deletionTimestamp : Option Instant := none
  deletionGracePeriodSeconds : Option Int := none
  deriving DecidableEq

namespace Metadata

/-- The name, empty when missing. -/
def nameText (m : Metadata) : String := m.name.getD ""

/-- The name that passes call the object by: how it is to begin, as long as there is none. -/
def anyName (m : Metadata) : String := (m.name.or m.generateName).getD ""

/-- The namespace, empty when missing. -/
def spaceText (m : Metadata) : String := m.nspace.getD ""

/-- Under which the hub files the object. -/
def key (m : Metadata) : ObjectKey := ⟨m.spaceText, m.nameText⟩

/-- Under which passes ask for the object. -/
def anyKey (m : Metadata) : ObjectKey := ⟨m.spaceText, m.anyName⟩

/-- Passes call the object by its name. -/
def IsNamed (m : Metadata) : Prop := m.anyName = m.nameText

instance (m : Metadata) : Decidable m.IsNamed := inferInstanceAs (Decidable (_ = _))

theorem isNamed_of_nameText_ne {m : Metadata} (h : m.nameText ≠ "") : m.IsNamed := by
  unfold IsNamed anyName
  unfold nameText at h ⊢
  cases hn : m.name with
  | none => simp [hn] at h
  | some n => rfl

theorem IsNamed.anyKey_eq {m : Metadata} (h : m.IsNamed) : m.anyKey = m.key :=
  congrArg (ObjectKey.mk m.spaceText) h

def annotation? (m : Metadata) (k : String) : Option String := m.annotations.bind (·.get? k)

def label? (m : Metadata) (k : String) : Option String := m.labels.bind (·.get? k)

/-- A deletion has been asked for. -/
def isDeleting (m : Metadata) : Bool := m.deletionTimestamp.isSome

def fieldNames : List String :=
  ["name", "generateName", "namespace", "labels", "annotations", "finalizers", "ownerReferences",
    "managedFields", "resourceVersion", "uid", "selfLink", "generation", "creationTimestamp",
    "deletionTimestamp", "deletionGracePeriodSeconds"]

open Json in
def ofJson? (v : Json) : Option Metadata := do
  match ← members? fieldNames v with
  | [name, generateName, nspace, labels, annotations, finalizers, owners, managed, version, uid,
      link, generation, creation, deletion, grace] =>
    some {
      name := ← optional asString name
      generateName := ← optional asString generateName
      nspace := ← optional asString nspace
      labels := ← optional (asTable asString) labels
      annotations := ← optional (asTable asString) annotations
      finalizers := ← optional (asList asString) finalizers
      ownerReferences := ← optional (asList OwnerReference.ofJson?) owners
      managedFields := ← optional (asList ManagedFields.ofJson?) managed
      resourceVersion := ← optional asString version
      uid := ← optional asString uid
      selfLink := ← optional asString link
      generation := ← optional asInt64 generation
      creationTimestamp := ← optional Instant.ofJson? creation
      deletionTimestamp := ← optional Instant.ofJson? deletion
      deletionGracePeriodSeconds := ← optional asInt64 grace }
  | _ => none

def toJson (m : Metadata) : Json :=
  .ofPresent [
    ("name", m.name.map .string),
    ("generateName", m.generateName.map .string),
    ("namespace", m.nspace.map .string),
    ("labels", m.labels.map .ofTable),
    ("annotations", m.annotations.map .ofTable),
    ("finalizers", m.finalizers.map fun fs => .array (fs.map .string)),
    ("ownerReferences", m.ownerReferences.map fun rs => .array (rs.map OwnerReference.toJson)),
    ("managedFields", m.managedFields.map fun fs => .array (fs.map ManagedFields.toJson)),
    ("resourceVersion", m.resourceVersion.map .string),
    ("uid", m.uid.map .string),
    ("selfLink", m.selfLink.map .string),
    ("generation", m.generation.map .int),
    ("creationTimestamp", m.creationTimestamp.map fun t => .string t.secondsText),
    ("deletionTimestamp", m.deletionTimestamp.map fun t => .string t.secondsText),
    ("deletionGracePeriodSeconds", m.deletionGracePeriodSeconds.map .int)]

end Metadata

/-- A record with its kind's own `apiVersion` and `kind`. -/
def Kind.tagged (k : Kind) (fields : List (String × Option Json)) : Json :=
  .ofPresent (("apiVersion", some (.string k.apiVersion)) ::
    ("kind", some (.string k.name)) :: fields)

open Json in
/-- A tag that is missing or exactly the one expected. -/
def Kind.tagFits (expected : String) : Option Json → Option Unit
  | none => some ()
  | some v => if asString v == some expected then some () else none

end Hosting
