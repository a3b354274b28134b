import Hosting.Resource.Condition
import Hosting.Resource.Metadata

/-!
Works, as records: the objects that the hub asks an agent to apply, and the agent's report.
-/

namespace Hosting

/-- What happens to the objects of a work when it is deleted. -/
inductive Propagation where
  | foreground | orphan | selectivelyOrphan
  deriving DecidableEq, Repr

def Propagation.text : Propagation → String
  | .foreground => "Foreground"
  | .orphan => "Orphan"
  | .selectivelyOrphan => "SelectivelyOrphan"

/-- Which object of a work an option is about. -/
structure ResourceIdentifier where
  group : String := ""
  resource : String
  name : String
  nspace : String := ""
  deriving DecidableEq, Repr

/-- A named value to report, by its path in the object. -/
structure JsonPath where
  name : String
  path : String
  deriving DecidableEq, Repr

inductive FeedbackType where
  | wellKnownStatus | jsonPaths
  deriving DecidableEq, Repr

def FeedbackType.text : FeedbackType → String
  | .wellKnownStatus => "WellKnownStatus"
  | .jsonPaths => "JSONPaths"

/-- Which values the agent reports of an object. -/
structure FeedbackRule where
  type : FeedbackType
  jsonPaths : List JsonPath := []
  deriving DecidableEq, Repr

structure ManifestConfig where
  resource : ResourceIdentifier
  feedbackRules : List FeedbackRule := []
  deriving DecidableEq, Repr

/-- What a work asks for: objects to apply, and options. -/
structure WorkSpec where
  manifests : List Json := []
  deletion : Option Propagation := none
  configs : List ManifestConfig := []

/-- A reported value of one of four kinds, told apart by `type`. -/
structure FieldValue where
  type : String
  integer : Option Int := none
  string : Option String := none
  boolean : Option Bool := none
  jsonRaw : Option String := none
  deriving DecidableEq, Repr

structure FeedbackValue where
  name : String
  value : FieldValue
  deriving DecidableEq, Repr

/-- Which applied object a report is about. -/
structure AppliedResource where
  ordinal : Int := 0
  group : String := ""
  version : String := ""
  kind : String := ""
  resource : String := ""
  name : String := ""
  nspace : String := ""
  deriving DecidableEq, Repr

/-- The agent's report on one applied object. -/
structure ManifestReport where
  resource : AppliedResource := {}
  feedback : List FeedbackValue := []
  conditions : Conditions := []
  deriving DecidableEq, Repr

structure WorkStatus where
  conditions : Conditions := []
  reports : Option (List ManifestReport) := none
  deriving DecidableEq, Repr

/-- Objects that the hub asks an agent to apply on a cluster. -/
structure ManifestWork where
  metadata : Metadata
  spec : WorkSpec := {}
  status : Option WorkStatus := none

namespace WorkSpec

/-- The two ask for the same. -/
def agrees (a b : WorkSpec) : Bool :=
  Json.agreesItems a.manifests b.manifests && a.deletion == b.deletion && a.configs == b.configs

end WorkSpec

namespace ManifestWork

def nameText (w : ManifestWork) : String := w.metadata.nameText

def anyName (w : ManifestWork) : String := w.metadata.anyName

def key (w : ManifestWork) : ObjectKey := w.metadata.key

def anyKey (w : ManifestWork) : ObjectKey := w.metadata.anyKey

theorem anyName_eq {w : ManifestWork} (h : w.metadata.IsNamed) : w.anyName = w.nameText := h

theorem anyKey_eq {w : ManifestWork} (h : w.metadata.IsNamed) : w.anyKey = w.key := h.anyKey_eq

def isDeleting (w : ManifestWork) : Bool := w.metadata.isDeleting

/-- The reported conditions, none before the first report. -/
def conditions (w : ManifestWork) : Conditions := (w.status.map (·.conditions)).getD []

def reports (w : ManifestWork) : List ManifestReport := (w.status.bind (·.reports)).getD []

end ManifestWork

/-! ## Reading -/

open Json

def ResourceIdentifier.ofJson? (v : Json) : Option ResourceIdentifier := do
  match ← slots? ["group", "resource", "name", "namespace"] 0 v with
  | [group, resource, name, nspace] =>
    some {
      group := ← withDefault "" asString group
      resource := ← required asString resource
      name := ← required asString name
      nspace := ← withDefault "" asString nspace }
  | _ => none

def JsonPath.ofJson? (v : Json) : Option JsonPath := do
  match ← slots? ["name", "path"] 0 v with
  | [name, path] => some { name := ← required asString name, path := ← required asString path }
  | _ => none

def FeedbackRule.ofJson? (v : Json) : Option FeedbackRule := do
  match ← slots? ["type", "jsonPaths"] 0 v with
  | [type, paths] =>
    some {
      type := ← required (asChoice FeedbackType.text [.wellKnownStatus, .jsonPaths]) type
      jsonPaths := ← withDefault [] (asList JsonPath.ofJson?) paths }
  | _ => none

def ManifestConfig.ofJson? (v : Json) : Option ManifestConfig := do
  match ← slots? ["resourceIdentifier", "feedbackRules"] 0 v with
  | [resource, rules] =>
    some {
      resource := ← required ResourceIdentifier.ofJson? resource
      feedbackRules := ← withDefault [] (asList FeedbackRule.ofJson?) rules }
  | _ => none

def Propagation.ofJson? (v : Json) : Option Propagation := do
  match ← slots? ["propagationPolicy"] 0 v with
  | [policy] =>
    required (asChoice Propagation.text [.foreground, .orphan, .selectivelyOrphan]) policy
  | _ => none

/-- The objects of a work, each kept as it is. -/
def manifestsOfJson? (v : Json) : Option (List Json) := do
  match ← slots? ["manifests"] 0 v with
  | [manifests] => withDefault [] (asList some) manifests
  | _ => none

def WorkSpec.ofJson? (v : Json) : Option WorkSpec := do
  match ← slots? ["workload", "deleteOption", "manifestConfigs"] 0 v with
  | [workload, deletion, configs] =>
    some {
      manifests := ← withDefault [] manifestsOfJson? workload
      deletion := ← optional Propagation.ofJson? deletion
      configs := ← withDefault [] (asList ManifestConfig.ofJson?) configs }
  | _ => none

def FieldValue.ofJson? (v : Json) : Option FieldValue := do
  match ← slots? ["type", "integer", "string", "boolean", "jsonRaw"] 0 v with
  | [type, integer, string, boolean, raw] =>
    some {
      type := ← required asString type
      integer := ← optional asInt64 integer
      string := ← optional asString string
      boolean := ← optional asBool boolean
      jsonRaw := ← optional asString raw }
  | _ => none

def FeedbackValue.ofJson? (v : Json) : Option FeedbackValue := do
  match ← slots? ["name", "fieldValue"] 0 v with
  | [name, value] =>
    some { name := ← required asString name, value := ← required FieldValue.ofJson? value }
  | _ => none

def AppliedResource.ofJson? (v : Json) : Option AppliedResource := do
  match ← slots? ["ordinal", "group", "version", "kind", "resource", "name", "namespace"] 0 v with
  | [ordinal, group, version, kind, resource, name, nspace] =>
    some {
      ordinal := ← withDefault 0 asInt32 ordinal
      group := ← withDefault "" asString group
      version := ← withDefault "" asString version
      kind := ← withDefault "" asString kind
      resource := ← withDefault "" asString resource
      name := ← withDefault "" asString name
      nspace := ← withDefault "" asString nspace }
  | _ => none

def feedbackOfJson? (v : Json) : Option (List FeedbackValue) := do
  match ← slots? ["values"] 0 v with
  | [values] => withDefault [] (asList FeedbackValue.ofJson?) values
  | _ => none

def ManifestReport.ofJson? (v : Json) : Option ManifestReport := do
  match ← slots? ["resourceMeta", "statusFeedback", "conditions"] 0 v with
  | [resource, feedback, conditions] =>
    some {
      resource := ← withDefault {} AppliedResource.ofJson? resource
      feedback := ← withDefault [] feedbackOfJson? feedback
      conditions := ← withDefault [] Conditions.ofJson? conditions }
  | _ => none

def reportsOfJson? (v : Json) : Option (List ManifestReport) := do
  match ← slots? ["manifests"] 0 v with
  | [manifests] => withDefault [] (asList ManifestReport.ofJson?) manifests
  | _ => none

def WorkStatus.ofJson? (v : Json) : Option WorkStatus := do
  match ← slots? ["conditions", "resourceStatus"] 0 v with
  | [conditions, reports] =>
    some {
      conditions := ← withDefault [] Conditions.ofJson? conditions
      reports := ← optional reportsOfJson? reports }
  | _ => none

def ManifestWork.ofJson? (v : Json) : Option ManifestWork := do
  match ← slots? ["metadata", "spec", "status"] 3 v with
  | [metadata, spec, status] =>
    some {
      metadata := ← required Metadata.ofJson? metadata
      spec := ← required WorkSpec.ofJson? spec
      status := ← optional WorkStatus.ofJson? status }
  | _ => none

/-! ## Writing -/

/-- A list that is left out when it is empty. -/
def listUnlessEmpty (write : α → Json) (xs : List α) : Option Json :=
  if xs.isEmpty then none else some (.array (xs.map write))

def ResourceIdentifier.toJson (r : ResourceIdentifier) : Json :=
  .ofPresent [
    ("group", some (.string r.group)),
    ("resource", some (.string r.resource)),
    ("name", some (.string r.name)),
    ("namespace", if r.nspace = "" then none else some (.string r.nspace))]

def JsonPath.toJson (p : JsonPath) : Json :=
  .ofMembers [("name", .string p.name), ("path", .string p.path)]

def FeedbackRule.toJson (r : FeedbackRule) : Json :=
  .ofPresent [
    ("type", some (.string r.type.text)),
    ("jsonPaths", listUnlessEmpty JsonPath.toJson r.jsonPaths)]

def ManifestConfig.toJson (c : ManifestConfig) : Json :=
  .ofPresent [
    ("resourceIdentifier", some c.resource.toJson),
    ("feedbackRules", listUnlessEmpty FeedbackRule.toJson c.feedbackRules)]

def WorkSpec.toJson (s : WorkSpec) : Json :=
  .ofPresent [
    ("workload", some (.ofMembers [("manifests", .array s.manifests)])),
    ("deleteOption", s.deletion.map fun p => .ofMembers [("propagationPolicy", .string p.text)]),
    ("manifestConfigs", listUnlessEmpty ManifestConfig.toJson s.configs)]

def FieldValue.toJson (v : FieldValue) : Json :=
  .ofPresent [
    ("type", some (.string v.type)),
    ("integer", v.integer.map .int),
    ("string", v.string.map .string),
    ("boolean", v.boolean.map .bool),
    ("jsonRaw", v.jsonRaw.map .string)]

def FeedbackValue.toJson (v : FeedbackValue) : Json :=
  .ofMembers [("name", .string v.name), ("fieldValue", v.value.toJson)]

def AppliedResource.toJson (r : AppliedResource) : Json :=
  .ofMembers [
    ("ordinal", .int r.ordinal),
    ("group", .string r.group),
    ("version", .string r.version),
    ("kind", .string r.kind),
    ("resource", .string r.resource),
    ("name", .string r.name),
    ("namespace", .string r.nspace)]

def ManifestReport.toJson (r : ManifestReport) : Json :=
  .ofMembers [
    ("resourceMeta", r.resource.toJson),
    ("statusFeedback", .ofMembers [("values", .array (r.feedback.map FeedbackValue.toJson))]),
    ("conditions", r.conditions.toJson)]

def WorkStatus.toJson (s : WorkStatus) : Json :=
  .ofPresent [
    ("conditions", some s.conditions.toJson),
    ("resourceStatus", s.reports.map fun rs =>
      .ofMembers [("manifests", .array (rs.map ManifestReport.toJson))])]

def ManifestWork.toJson (w : ManifestWork) : Json :=
  Kind.manifestWork.tagged [
    ("metadata", some w.metadata.toJson),
    ("spec", some w.spec.toJson),
    ("status", w.status.map WorkStatus.toJson)]

end Hosting
