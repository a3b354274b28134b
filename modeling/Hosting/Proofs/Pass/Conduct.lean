import Hosting.Proofs.Pass.Steps
import Hosting.Reconcile

/-!
# How a pass conducts itself

What a pass asks of the hub whatever the hub answers, so also when others change the hub
between any two of its requests: it puts the finalizer only on a cluster that it has just read
live, under the version that it has read, and it brings no work without the cluster's label.
-/

namespace Hosting
namespace Pass

open Hub (Request)

variable {α β : Type} {ctx : Context} {c : ManagedCluster} {name : String}
  {fits : Dialogue.History Request Request.Answer → Request → Prop}

/-- The finalizer is put on a cluster only as it was read just before, when it was live. -/
def Careful (h : Dialogue.History Request Request.Answer) : Request → Prop
  | .setFinalizers e => e.isHeld = true →
    ∃ n d, h.getLast? = some ⟨.getCluster n, .ok (some d)⟩ ∧ d.isDeleting = false ∧
      e.nameText = d.nameText ∧ e.metadata.resourceVersion = d.metadata.resourceVersion
  | _ => True

/-- Works are brought with the label of the cluster `name`. -/
def Labels (name : String) : Request → Prop
  | .createWork w | .replaceWork w => w.metadata.label? Names.hostedCluster = some name
  | _ => True

/-- Wherever it begins and whatever it is answered, all that the pass asks fits. -/
def Conducts (fits : Dialogue.History Request Request.Answer → Request → Prop) (p : Pass α) :
    Prop :=
  ∀ h, p.run.Obeys fits (fun _ _ => True) h

/-- Wherever it begins and whatever it is answered, the pass is careful and labels works. -/
def Behaves (name : String) (p : Pass α) : Prop :=
  Conducts (fun h q => Careful h q ∧ Labels name q) p

/-- The request writes no finalizer, brings no work and looks up no secret. -/
def IsPlain : Request → Prop
  | .setFinalizers _ | .createWork _ | .replaceWork _ | .getSecret _ => False
  | _ => True

/-- All steps fit that look up no secret, put the finalizer on with care and label works. -/
structure Admits (fits : Dialogue.History Request Request.Answer → Request → Prop)
    (name : String) : Prop where
  plain : ∀ h q, IsPlain q → fits h q
  finalizers : ∀ h e, Careful h (.setFinalizers e) → fits h (.setFinalizers e)
  created : ∀ h w, Labels name (.createWork w) → fits h (.createWork w)
  replaced : ∀ h w, Labels name (.replaceWork w) → fits h (.replaceWork w)

theorem admits_behaves (name : String) :
    Admits (fun h q => Careful h q ∧ Labels name q) name where
  plain h q hq := by cases q <;> first | exact ⟨trivial, trivial⟩ | exact absurd hq id
  finalizers _ _ hcareful := ⟨hcareful, trivial⟩
  created _ _ hlabel := ⟨trivial, hlabel⟩
  replaced _ _ hlabel := ⟨trivial, hlabel⟩

/-! ## Passes as dialogues -/

theorem conducts_pure (a : α) : Conducts fits (pure a : Pass α) := fun _ => trivial

theorem conducts_throw (f : Failure) : Conducts fits (throw f : Pass α) := fun _ => trivial

theorem conducts_bind {p : Pass α} {f : α → Pass β} (hp : Conducts fits p)
    (hf : ∀ a, Conducts fits (f a)) : Conducts fits (p >>= f) := by
  intro h
  rw [ExceptT.run_bind, Dialogue.obeys_bind]
  refine (hp h).imp (fun _ _ hq => hq) fun h' r _ => ?_
  cases r with
  | error e => exact trivial
  | ok a => exact hf a h'

theorem conducts_ask {q : Request} (hq : ∀ h, fits h q) : Conducts fits (ask q) :=
  fun h => Dialogue.obeys_map.mpr ⟨hq h, fun _ => trivial⟩

theorem conducts_attempt {p : Pass α} (hp : Conducts fits p) : Conducts fits (attempt p) :=
  fun h => Dialogue.obeys_map.mpr (hp h)

theorem conducts_forM {f : β → Pass Unit} (hf : ∀ x, Conducts fits (f x)) (xs : List β) :
    Conducts fits (xs.forM f) := by
  induction xs with
  | nil => exact conducts_pure ()
  | cons x xs ih => exact conducts_bind (hf x) fun _ => ih

/-! ## Steps -/

section

variable (hfits : Admits fits name)

include hfits

theorem conducts_plain {q : Request} (hq : IsPlain q) : Conducts fits (ask q) :=
  conducts_ask fun h => hfits.plain h q hq

theorem conducts_publish (c : ManagedCluster) (e : Hub.Event) : Conducts fits (publish c e) :=
  fun h => Dialogue.obeys_map.mpr ⟨hfits.plain h _ trivial, fun _ => trivial⟩

theorem conducts_listWorks (c : ManagedCluster) : Conducts fits (listWorks c) := by
  have hlist (nspace : String) (selector : Option String) :
      Conducts fits (ask (.listWorks nspace selector)) := conducts_plain hfits trivial
  unfold listWorks
  refine conducts_bind (hlist _ _) fun own => ?_
  split
  · exact conducts_pure _
  · exact conducts_bind (hlist _ _) fun hosted => conducts_pure _

theorem conducts_updateCluster {part : Hub.Part} {edit : ManagedCluster → Option ManagedCluster}
    (hedit : part = .finalizers → ∀ d e, edit d = some e → e.isHeld = true →
      d.isDeleting = false ∧ e.nameText = d.nameText ∧
        e.metadata.resourceVersion = d.metadata.resourceVersion) (n : String) (retries : Nat) :
    Conducts fits (ofTalk (.ok <$> Hub.updateCluster n part edit retries)) := by
  intro h
  have hnone : Hub.Unwritten h h := ⟨[], (List.append_nil h).symm, fun _ hs => nomatch hs⟩
  refine Dialogue.obeys_map.mpr
    ((Hub.updateCluster_obeys hnone retries).imp (fun h' q hq => ?_) fun _ _ _ => trivial)
  rcases hq.2 with rfl | ⟨d, e, hlast, he, rfl⟩
  · exact hfits.plain h' _ trivial
  · cases part with
    | status => exact hfits.plain h' _ trivial
    | finalizers =>
      exact hfits.finalizers h' e fun hheld => ⟨n, d, hlast, hedit rfl d e he hheld⟩

theorem conducts_setConditions (ctx : Context) (c : ManagedCluster) (new : List Condition) :
    Conducts fits (setConditions ctx c new) := by
  unfold setConditions
  split
  · exact conducts_pure ()
  refine conducts_bind (conducts_updateCluster hfits ?_ _ _) fun u => ?_
  · intro hpart
    cases hpart
  refine conducts_bind (fun _ => trivial) fun _ => ?_
  split
  · exact conducts_pure ()
  · exact conducts_forM (conducts_publish hfits c) _

theorem conducts_failWith (ctx : Context) (c : ManagedCluster) (new : Condition) (f : Failure) :
    Conducts fits (failWith ctx c new f : Pass α) := by
  unfold failWith
  refine conducts_bind (conducts_attempt (conducts_setConditions hfits _ _ _)) fun r => ?_
  cases r <;> exact conducts_throw _

theorem conducts_updateFinalizers {edit : ManagedCluster → Option ManagedCluster}
    (hedit : ∀ d e, edit d = some e → e.isHeld = true →
      d.isDeleting = false ∧ e.nameText = d.nameText ∧
        e.metadata.resourceVersion = d.metadata.resourceVersion) (ev : Hub.Event) :
    Conducts fits (updateFinalizers ctx c edit ev) := by
  unfold updateFinalizers
  refine conducts_bind (conducts_updateCluster hfits (fun _ => hedit) _ _) fun u => ?_
  refine conducts_bind (fun _ => trivial) fun b => ?_
  split
  · exact conducts_publish hfits c ev
  · exact conducts_pure ()

/-- The finalizer is put on no copy that shows the deletion, and it is not put on by taking
it off. -/
theorem conducts_syncFinalizer (ctx : Context) (c : ManagedCluster) (works : Nat) :
    Conducts fits (syncFinalizer ctx c works) := by
  unfold syncFinalizer
  dsimp only
  split
  · split
    · refine conducts_updateFinalizers hfits (fun d e he hheld => ?_) _
      have hoff : e.isHeld = false := by
        show Finalizers.holds e.metadata.finalizers = false
        rw [(removeFinalizer_eq_some he).2, Finalizers.holds_released]
      rw [hoff] at hheld
      cases hheld
    · exact conducts_pure ()
  · split
    · refine conducts_updateFinalizers hfits (fun d e he _ => ?_) _
      have hname := (addFinalizer_eq_some he).1
      rw [addFinalizer, Option.ite_none_left_eq_some, Option.map_eq_some_iff] at he
      obtain ⟨hlive, m', hm, rfl⟩ := he
      rw [Metadata.addFinalizer?, Option.ite_none_left_eq_some, Option.some.injEq] at hm
      exact ⟨Bool.eq_false_iff.mpr hlive, hname, hm.2 ▸ rfl⟩
    · exact conducts_pure ()

theorem conducts_applyWork {desired : ManifestWork}
    (hlabel : desired.metadata.label? Names.hostedCluster = some name) (c : ManagedCluster) :
    Conducts fits (applyWork c desired) := by
  unfold applyWork
  refine conducts_bind (conducts_plain hfits trivial) fun x => ?_
  split
  · refine conducts_bind (conducts_ask fun h => hfits.created h _ hlabel) fun created => ?_
    exact conducts_bind (conducts_publish hfits _ _) fun _ => conducts_pure _
  · next existing =>
    split
    · exact conducts_pure _
    refine conducts_bind (conducts_ask fun h => hfits.replaced h _ ?_) fun stored => ?_
    · show (existing.updatedTo desired).metadata.label? _ = _
      unfold Metadata.label? at hlabel ⊢
      rw [ManifestWork.labels_updatedTo]
      exact ManifestWork.covers_iff.mp (ManifestWork.covers_merged _ _) _ _ hlabel
    · exact conducts_bind (conducts_publish hfits _ _) fun _ => conducts_pure _

theorem conducts_consume (c : ManagedCluster) (s : Secret) : Conducts fits (consume c s) := by
  unfold consume
  split
  · exact conducts_pure ()
  · exact conducts_bind (conducts_plain hfits trivial) fun _ => conducts_publish hfits _ _

theorem conducts_deleteHosted (ws : List ManifestWork) : Conducts fits (deleteHosted ws) := by
  refine conducts_forM (fun w => ?_) ws
  split
  · exact conducts_pure ()
  · exact conducts_plain hfits trivial

theorem conducts_deleteByForce (ctx : Context) (c : ManagedCluster) (works : ClusterWorks) :
    Conducts fits (deleteByForce ctx c works) := by
  unfold deleteByForce
  refine conducts_bind (conducts_setConditions hfits _ _ _) fun _ => ?_
  refine conducts_bind (conducts_forM (fun w => ?_) _) fun _ => ?_
  · unfold forceWork
    refine conducts_bind (conducts_plain hfits trivial) fun _ => ?_
    refine conducts_bind (conducts_plain hfits trivial) fun x => ?_
    split
    · exact conducts_pure ()
    · split
      · exact conducts_pure ()
      · exact conducts_plain hfits trivial
  · exact conducts_bind (conducts_deleteHosted hfits _) fun _ => conducts_publish hfits _ _

theorem conducts_deleteInOrder (ctx : Context) (c : ManagedCluster) (works : ClusterWorks) :
    Conducts fits (deleteInOrder ctx c works) := by
  have hstage : Conducts fits (do
      if ← isClear c.anyName then deleteHosted (works.stage c.anyName)) := by
    refine conducts_bind ?_ fun clear => ?_
    · unfold isClear
      refine conducts_bind (conducts_plain hfits trivial) fun ws => ?_
      split
      · exact conducts_bind (conducts_plain hfits trivial) fun _ => conducts_pure _
      · exact conducts_pure _
    · split
      · exact conducts_deleteHosted hfits _
      · exact conducts_pure ()
  unfold deleteInOrder
  refine conducts_bind (conducts_setConditions hfits _ _ _) fun _ => ?_
  refine conducts_bind (conducts_forM (fun w => ?_) _) fun _ => ?_
  · exact conducts_plain hfits trivial
  dsimp only
  split
  · exact conducts_bind (conducts_publish hfits _ _) fun _ => hstage
  · exact hstage

theorem conducts_deletion (ctx : Context) (c : ManagedCluster) (works : ClusterWorks) :
    Conducts fits (deletion ctx c works) := by
  have hfinish : Conducts fits (do
      let remaining ← listWorks c
      syncFinalizer ctx c remaining.total
      return if remaining.isEmpty then Outcome.done else .again ctx.settings.deletionRequeue) :=
    conducts_bind (conducts_listWorks hfits c) fun _ =>
      conducts_bind (conducts_syncFinalizer hfits _ _ _) fun _ => conducts_pure _
  unfold deletion
  split
  · exact conducts_pure _
  split
  · exact conducts_bind (conducts_deleteByForce hfits _ _ _) fun _ => hfinish
  · exact conducts_bind (conducts_deleteInOrder hfits _ _ _) fun _ => hfinish

end

/-! ## The import of a cluster -/

theorem conducts_handOver (hfits : Admits fits c.anyName) (ctx : Context) (hosting : String)
    (ready : Bool) (s : Secret) : Conducts fits (handOver ctx c hosting ready s) := by
  unfold handOver
  split
  · exact conducts_failWith hfits _ _ _ _
  next desired hdesired =>
  refine conducts_bind (conducts_attempt
    (conducts_applyWork hfits (HostedWork.label?_kubeconfig hdesired) c)) fun r => ?_
  split
  · refine conducts_bind (conducts_attempt (conducts_setConditions hfits _ _ _)) fun recorded => ?_
    refine conducts_bind (conducts_attempt ?_) fun counted => conducts_throw _
    unfold countRetry
    exact conducts_bind (conducts_plain hfits trivial) fun _ => conducts_pure ()
  · exact conducts_bind (conducts_setConditions hfits _ _ _) fun _ => conducts_consume hfits c s

theorem conducts_bringAgent (hfits : Admits fits c.anyName)
    (hsecret : ∀ h k, fits h (.getSecret k)) (ctx : Context) (works : ClusterWorks)
    (hosting : String) (payload : Bytes) :
    Conducts fits (bringAgent ctx c works hosting payload) := by
  unfold bringAgent
  split
  · exact conducts_failWith hfits _ _ _ _
  next desired hdesired =>
  refine conducts_bind (conducts_attempt
    (conducts_applyWork hfits (HostedWork.label?_klusterlet hdesired) c)) fun r => ?_
  split
  · exact conducts_failWith hfits _ _ _ _
  next work =>
  refine conducts_bind (conducts_syncFinalizer hfits _ _ _) fun _ => ?_
  refine conducts_bind (conducts_ask fun h => hsecret h _) fun s => ?_
  split
  · exact conducts_setConditions hfits _ _ _
  · split
    · exact conducts_handOver hfits _ _ _ _
    · exact conducts_setConditions hfits _ _ _

theorem conducts_importCluster (hfits : Admits fits c.anyName)
    (hsecret : ∀ h k, fits h (.getSecret k)) (ctx : Context) (works : ClusterWorks) :
    Conducts fits (importCluster ctx c works) := by
  unfold importCluster
  dsimp only
  split
  · exact conducts_setConditions hfits _ _ _
  refine conducts_bind (conducts_plain hfits trivial) fun h => ?_
  split
  · exact conducts_setConditions hfits _ _ _
  refine conducts_bind (conducts_ask fun h => hsecret h _) fun s => ?_
  split
  · exact conducts_setConditions hfits _ _ _
  · split
    · exact conducts_setConditions hfits _ _ _
    · exact conducts_bringAgent hfits hsecret _ _ _ _

/-! ## The whole pass -/

/-- A pass that has read a cluster behaves as one over that cluster. -/
theorem behaves_reconcile (ctx : Context) (name : String) :
    ∃ next : Option ManagedCluster → Pass Outcome,
      reconcile ctx name = ask (.getCluster name) >>= next ∧ Behaves name (next none) ∧
        ∀ c, Behaves c.anyName (next (some c)) := by
  refine ⟨_, rfl, conducts_pure _, fun c => ?_⟩
  have hfits := admits_behaves c.anyName
  dsimp only
  split
  · refine conducts_bind (conducts_listWorks hfits c) fun works => ?_
    refine conducts_bind (conducts_syncFinalizer hfits _ _ _) fun _ => ?_
    split
    · exact conducts_deletion hfits _ _ _
    · exact conducts_bind (conducts_importCluster hfits (fun _ _ => ⟨trivial, trivial⟩) _ _)
        fun _ => conducts_pure _
  · exact conducts_pure _

end Pass
end Hosting
