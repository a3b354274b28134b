import Hosting.SocketAddress
import Hosting.Text.Quoted

/-!
The settings of the controller, read from named variables.  A variable that is missing
or blank leaves the default; the checks run in a fixed order, and the first one that
fails is reported.
-/

namespace Hosting

structure Settings where
  /-- Passes that run at the same time. -/
  concurrency : Nat := 10
  leastBackoff : Nat := 5
  mostBackoff : Nat := 300
  /-- How long a deleting cluster may go unheard before its works are forced away. -/
  silenceTimeout : Option Nat := some 3600
  /-- How long a work may outlive the deletion of its cluster. -/
  postponeWindow : Nat := 600
  /-- How long to wait before looking again at a cluster that still has works. -/
  deletionRequeue : Nat := 2
  /-- How often an update of a cluster is tried again after a conflict. -/
  retries : Nat := 5
  /-- How long a change waits for others like it. -/
  debounce : Nat := 1
  probeAddress : SocketAddress := ⟨.quad 0 0 0 0, 8081⟩
  controller : String := "hosted-manifestwork-controller"
  deriving DecidableEq

/-- The first check that a set of variables fails. -/
inductive SettingsError where
  | invalidValue (name raw : String)
  | zero (name : String)
  | backoffBounds (least most : Nat)
  deriving DecidableEq, Repr

def SettingsError.message : SettingsError → String
  | .invalidValue name raw => name ++ " has invalid value " ++ Text.quoted raw
  | .zero name => name ++ " must be at least 1"
  | .backoffBounds least most =>
    "backoff bounds must satisfy 0 < min <= max, got min=" ++ Text.decimal least ++ " max=" ++
      Text.decimal most

namespace Settings

namespace Variable

def concurrency : String := "MAX_CONCURRENT_RECONCILES"

def leastBackoff : String := "BACKOFF_MIN_SECONDS"

def mostBackoff : String := "BACKOFF_MAX_SECONDS"

def silenceTimeout : String := "UNKNOWN_AVAILABILITY_FORCE_DELETE_SECONDS"

def postponeWindow : String := "MANIFEST_WORK_POSTPONE_DELETE_SECONDS"

def deletionRequeue : String := "DELETION_REQUEUE_SECONDS"

def retries : String := "STATUS_UPDATE_RETRIES"

def debounce : String := "RECONCILE_DEBOUNCE_SECONDS"

def probeAddress : String := "PROBE_ADDR"

def controller : String := "CONTROLLER_NAME"

end Variable

/-- The largest number of so many bits. -/
def bits (n : Nat) : Nat := Nat.pow 2 n - 1

/-- The value of a variable: the default when it is missing or blank, else what
`read?` makes of it without the blanks around it. -/
def value (env : String → Option String) (name : String) (default : α)
    (read? : List Char → Option α) : Except SettingsError α :=
  match env name with
  | none => .ok default
  | some raw =>
    let text := Text.trim raw.toList
    if text.isEmpty then .ok default
    else match read? text with
      | some x => .ok x
      | none => .error (.invalidValue name raw)

def number (env : String → Option String) (name : String) (default : Nat) (width : Nat) :
    Except SettingsError Nat :=
  value env name default (Text.natural? (bits width))

/-- A text of which anything is left without the blanks around it, as it was given. -/
def name? (env : String → Option String) (name : String) : Option String :=
  (env name).filter fun raw => !(Text.trim raw.toList).isEmpty

def check (holds : Bool) (e : SettingsError) : Except SettingsError Unit :=
  if holds then .ok () else .error e

/-- The settings that the variables give. -/
def ofEnv (env : String → Option String) : Except SettingsError Settings := do
  let d : Settings := {}
  let concurrency ← number env Variable.concurrency d.concurrency 16
  check (0 < concurrency) (.zero Variable.concurrency)
  let least ← number env Variable.leastBackoff d.leastBackoff 64
  let most ← number env Variable.mostBackoff d.mostBackoff 64
  check (0 < least && least ≤ most) (.backoffBounds least most)
  let timeout ← number env Variable.silenceTimeout (d.silenceTimeout.getD 0) 64
  let window ← number env Variable.postponeWindow d.postponeWindow 64
  let requeue ← number env Variable.deletionRequeue d.deletionRequeue 64
  check (0 < requeue) (.zero Variable.deletionRequeue)
  let retries ← number env Variable.retries d.retries 32
  let debounce ← number env Variable.debounce d.debounce 64
  let address ← value env Variable.probeAddress d.probeAddress SocketAddress.read?
  .ok {
    concurrency := concurrency
    leastBackoff := least
    mostBackoff := most
    silenceTimeout := if timeout = 0 then none else some timeout
    postponeWindow := window
    deletionRequeue := requeue
    retries := retries
    debounce := debounce
    probeAddress := address
    controller := (name? env Variable.controller).getD d.controller }

end Settings
end Hosting
