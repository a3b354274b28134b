import Hosting.Proofs.Reconcile

/-!
# Runs

A run is a sequence of passes over one cluster, each at its own time and with its own
settings, between which the hub changes as others want: they put objects there, remove them
and report on them, make requests of their own, and lay failures in wait.
-/

namespace Hosting

namespace Hub

/-- Something that happens to the hub other than through a pass. -/
inductive Change where
  | cluster (c : ManagedCluster)
  | work (w : ManifestWork)
  | secret (s : Secret)
  | addOn (a : AddOn)
  | addOnGone (k : ObjectKey)
  | report (k : ObjectKey) (s : WorkStatus)
  | failure (op : Operation) (text : String)
  | conflicts (n : Nat)
  /-- A request that someone else makes, such as the agent that releases a work. -/
  | request (now : Instant) (q : Request)

/-- What is put in place is called by its name. -/
def Change.isNamed : Change → Bool
  | .cluster c => c.metadata.IsNamed
  | .work w => w.metadata.IsNamed
  | .request _ q => q.isNamed
  | _ => true

def Change.apply : Change → Memory → Memory
  | .cluster c, m => m.putCluster c
  | .work w, m => m.putWork w
  | .secret s, m => m.putSecret s
  | .addOn a, m => m.putAddOn a
  | .addOnGone k, m => m.removeAddOn k
  | .report k s, m => m.reportWork k s
  | .failure op text, m => m.failNext op text
  | .conflicts n, m => m.conflictNext n
  | .request now q, m => (m.answer now q).2

namespace Memory

theorem filed_empty : Filed {} := by
  refine ⟨?_, ?_, ?_⟩ <;>
  · intro k v h
    cases h

/-- Whatever happens to the hub, objects stay filed under their own keys. -/
theorem Filed.apply {m : Memory} (h : m.Filed) (e : Change) : (e.apply m).Filed := by
  cases e with
  | cluster c => exact ⟨h.clusters.insert rfl, h.works, h.secrets⟩
  | work w => exact ⟨h.clusters, h.works.insert rfl, h.secrets⟩
  | secret s => exact ⟨h.clusters, h.works, h.secrets.insert rfl⟩
  | addOn a => exact ⟨h.clusters, h.works, h.secrets⟩
  | addOnGone k => exact ⟨h.clusters, h.works, h.secrets⟩
  | report k s =>
    show (m.reportWork k s).Filed
    unfold reportWork
    split
    · exact h
    · next w hw => exact ⟨h.clusters, h.works.insert (h.works k w hw), h.secrets⟩
  | failure op text => exact ⟨h.clusters, h.works, h.secrets⟩
  | conflicts n => exact ⟨h.clusters, h.works, h.secrets⟩
  | request now q => exact h.answer now q

theorem named_empty : Named {} where
  toFiled := filed_empty
  clusterNames _ _ h := nomatch h
  workNames _ _ h := nomatch h

theorem Named.apply {m : Memory} (h : m.Named) {e : Change} (he : e.isNamed = true) :
    (e.apply m).Named := by
  have hfiled : (e.apply m).Filed := h.toFiled.apply e
  cases e with
  | cluster c =>
    exact ⟨hfiled, Table.forall_insert h.clusterNames (of_decide_eq_true he), h.workNames⟩
  | work w =>
    exact ⟨hfiled, h.clusterNames, Table.forall_insert h.workNames (of_decide_eq_true he)⟩
  | report k s =>
    change (m.reportWork k s).Filed at hfiled
    show (m.reportWork k s).Named
    unfold reportWork at hfiled ⊢
    split
    · exact h
    · next w hw =>
      rw [hw] at hfiled
      exact ⟨hfiled, h.clusterNames, Table.forall_insert h.workNames (h.workNames k w hw)⟩
  | request now q => exact h.answer he now
  | _ => exact ⟨hfiled, h.clusterNames, h.workNames⟩

end Memory
end Hub

open Hub (Change Request Memory)

/-- One thing after the other: passes over the cluster, and what others do. -/
inductive Happening where
  | pass (ctx : Context)
  | change (e : Change)

/-- A request of a pass, with the hub as it is asked. -/
structure Issued where
  ctx : Context
  request : Request
  hub : Memory

namespace Run

variable {name : String}

/-- The requests of a pass in their order. -/
def issuedBy (ctx : Context) (name : String) (m : Memory) : List Issued :=
  ((reconcile ctx name).run.trace (Memory.answer ctx.now) m).map fun e => ⟨ctx, e.1, e.2⟩

def outcome (ctx : Context) (name : String) (m : Memory) : Except Failure Outcome :=
  (m.talk ctx.now (reconcile ctx name).run).1

def afterPass (ctx : Context) (name : String) (m : Memory) : Memory :=
  (m.talk ctx.now (reconcile ctx name).run).2

def after (name : String) : List Happening → Memory → Memory
  | [], m => m
  | .pass ctx :: rest, m => after name rest (afterPass ctx name m)
  | .change e :: rest, m => after name rest (e.apply m)

/-- All that the passes of a run ask of the hub. -/
def issued (name : String) : List Happening → Memory → List Issued
  | [], _ => []
  | .pass ctx :: rest, m => issuedBy ctx name m ++ issued name rest (afterPass ctx name m)
  | .change e :: rest, m => issued name rest (e.apply m)

/-- Each pass of the run begins in a state that fits. -/
def begins (fits : Context → Memory → Bool) (name : String) : List Happening → Memory → Bool
  | [], _ => true
  | .pass ctx :: rest, m => fits ctx m && begins fits name rest (afterPass ctx name m)
  | .change e :: rest, m => begins fits name rest (e.apply m)

/-- Others put no object in place that is not called by its name. -/
def isNamed (run : List Happening) : Bool :=
  run.all fun
    | .pass _ => true
    | .change e => e.isNamed

theorem passed {m : Memory} (hm : m.Named) (ctx : Context) (name : String) :
    Passed ctx name m (outcome ctx name m) (afterPass ctx name m) :=
  Dialogue.Meets.run (reconcile_passes hm)

theorem named_afterPass {m : Memory} (hm : m.Named) (ctx : Context) (name : String) :
    (afterPass ctx name m).Named :=
  (passed hm ctx name).named hm (hm.toFiled.talk ctx.now _)

theorem named_after (name : String) {m : Memory} (h : m.Named) {run : List Happening}
    (hrun : isNamed run = true) : (after name run m).Named := by
  induction run generalizing m with
  | nil => exact h
  | cons e rest ih =>
    rw [isNamed, List.all_cons, Bool.and_eq_true] at hrun
    cases e with
    | pass ctx => exact ih (named_afterPass h ctx name) hrun.2
    | change e => exact ih (h.apply hrun.1) hrun.2

/-- What is shown of the pass as a dialogue is shown of all that it asks, and of how it ends. -/
theorem pass_of_meets {ctx : Context} {m : Memory} {allowed : Request → Memory → Prop}
    {post : Except Failure Outcome → Memory → Prop}
    (h : Pass.Meets ctx.now allowed post (reconcile ctx name) m) :
    (∀ i ∈ issuedBy ctx name m, allowed i.request i.hub) ∧
      post (outcome ctx name m) (afterPass ctx name m) := by
  obtain ⟨htrace, hpost⟩ := Dialogue.meets_iff.mp h
  refine ⟨fun i hi => ?_, hpost⟩
  obtain ⟨e, he, rfl⟩ := List.mem_map.mp hi
  exact htrace e he

theorem outcome_of_toOption {ctx : Context} {m : Memory} {o : Outcome}
    (h : (outcome ctx name m).toOption = some o) : outcome ctx name m = .ok o := by
  revert h
  cases outcome ctx name m with
  | error f => intro h; cases h
  | ok o' => intro h; exact congrArg _ (Option.some.inj h)

/-- What each pass asks in its turn is asked all along the run. -/
theorem forall_issued {fits : Context → Memory → Bool} {allowed : Issued → Prop}
    (hpass : ∀ ctx m, m.Named → fits ctx m = true → ∀ i ∈ issuedBy ctx name m, allowed i)
    {run : List Happening} (hrun : isNamed run = true) {m : Memory} (hm : m.Named)
    (hfits : begins fits name run m = true) : ∀ i ∈ issued name run m, allowed i := by
  induction run generalizing m with
  | nil => intro i hi; cases hi
  | cons e rest ih =>
    rw [isNamed, List.all_cons, Bool.and_eq_true] at hrun
    cases e with
    | pass ctx =>
      rw [begins, Bool.and_eq_true] at hfits
      intro i hi
      rcases List.mem_append.mp hi with hi | hi
      · exact hpass ctx m hm hfits.1 i hi
      · exact ih hrun.2 (named_afterPass hm ctx name) hfits.2 i hi
    | change e => exact ih hrun.2 (hm.apply hrun.1) hfits

end Run

/-! ## A small hub -/

namespace Sample

def now : Instant := ⟨1717243200, 0⟩

def onePass : Happening := .pass { now := now }

def hosted (name hosting : String) : ManagedCluster where
  metadata := {
    name := some name
    annotations := some (.ofList [(Names.deployMode, "Hosted"), (Names.hostingCluster, hosting)]) }

def held (c : ManagedCluster) : ManagedCluster :=
  { c with metadata := { c.metadata with finalizers := some [Names.workFinalizer] } }

def deleting (c : ManagedCluster) : ManagedCluster :=
  { c with metadata := { c.metadata with deletionTimestamp := some now } }

def work (nspace name : String) : ManifestWork where
  metadata := { name := some name, nspace := some nspace, finalizers := some ["agent"] }

/-- A work with the label of the cluster. -/
def labelled (nspace name cluster : String) : ManifestWork where
  metadata := { HostedWork.metadata name nspace cluster with finalizers := some ["agent"] }

/-- What the import of `c` to a cluster `h` begins with.  The payload has no objects. -/
def setUp (c : ManagedCluster) : List Happening := [
  .change (.cluster { metadata := { name := some "h" } }),
  .change (.cluster c),
  .change (.secret {
    metadata := { name := some (Names.importSecret c.nameText), nspace := some c.nameText }
    data := some (.singleton Names.importPayload [0x23]) })]

def delete (nspace name : String) : Happening :=
  .change (.request now (.deleteWork ⟨nspace, name⟩))

/-- The agent is done with a work that is being deleted. -/
def release (nspace name : String) : Happening :=
  .change (.request now (.releaseWork ⟨nspace, name⟩))

end Sample
end Hosting
