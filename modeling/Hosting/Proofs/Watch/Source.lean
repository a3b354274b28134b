import Hosting.Proofs.Attempts
import Hosting.Proofs.FinalizerSync
import Hosting.Watch.Source

/-!
# Whose pass sees to a change

An object that changes is taken back to a cluster, and a pass over this cluster has to be one
that looks at the object.  The names by which a pass asks for works and secrets are put together
from the cluster's name; here they are taken apart again.  `belongs_as_read` says that the two fit.
-/

namespace Hosting

theorem Metadata.spaceText_eq_iff {m : Metadata} {nspace : String} (h : nspace ≠ "") :
    m.spaceText = nspace ↔ m.nspace = some nspace := by
  unfold Metadata.spaceText
  cases m.nspace with
  | none => simp [Ne.symm h]
  | some v => simp

namespace Watch

open Attempts (asked asked_attempt asked_ask asked_bind_error asked_bind_ok)
open FinalizerSync (named_ready ready)
open Gates (Equipped applyWork_ok syncFinalizer_ok)
open Hub (Memory Request)
open ImportState (demand_of_payload host? host?_eq_some_iff payloadKey payload_of_demand)
open Pass

variable {α β : Type} {c d : ManagedCluster} {name hosting suffix : String} {w : ManifestWork}
  {m : Memory} {t : Instant} {ctx : Context} {p : Pass α} {f : α → Pass β}
  {keys : List ObjectKey}

/-! ## Works -/

theorem named?_eq_some_iff {work : String} :
    named? work suffix = some name ↔ name ≠ "" ∧ work = name ++ "-" ++ suffix := by
  unfold named?
  rw [Option.filter_eq_some_iff, Option.map_eq_some_iff, and_comm, bne_iff_ne]
  refine and_congr_right fun _ => ?_
  constructor
  · rintro ⟨cs, hcs, rfl⟩
    rw [Text.dropTrailing?_eq_some_iff] at hcs
    rw [← String.toList_inj, hcs]
    simp
  · rintro rfl
    exact ⟨name.toList, Text.dropTrailing?_eq_some_iff.mpr (by simp), String.ofList_toList⟩

theorem named?_eq_none {work : String} (h : ∀ name, name ≠ "" → work ≠ name ++ "-" ++ suffix) :
    named? work suffix = none := by
  rw [Option.eq_none_iff_forall_ne_some]
  intro name hname
  obtain ⟨hne, hwork⟩ := named?_eq_some_iff.mp hname
  exact h name hne hwork

/-- The work has the name of one of the hosted works of the cluster `name`. -/
def IsNamed (w : ManifestWork) (name : String) : Prop :=
  name ≠ "" ∧ (w.anyName = Names.klusterletWork name ∨ w.anyName = Names.kubeconfigWork name)

/-- By its name or by its label, the work is one of the cluster `name`. -/
def Designates (w : ManifestWork) (name : String) : Prop :=
  IsNamed w name ∨ w.metadata.label? Names.hostedCluster = some name

theorem workCluster?_of_isNamed (h : IsNamed w name) : workCluster? w = some name := by
  obtain ⟨hne, hname | hname⟩ := h
  · have hagent : named? w.anyName Names.klusterletWorkSuffix = some name :=
      named?_eq_some_iff.mpr ⟨hne, hname⟩
    rw [workCluster?, hagent, Option.some_or]
  · have hagent : named? w.anyName Names.klusterletWorkSuffix = none :=
      named?_eq_none fun other _ hother =>
        Names.klusterletWork_ne_kubeconfigWork other name (hother.symm.trans hname)
    have hcredentials : named? w.anyName Names.kubeconfigWorkSuffix = some name :=
      named?_eq_some_iff.mpr ⟨hne, hname⟩
    rw [workCluster?, hagent, hcredentials, Option.none_or, Option.some_or]

theorem workCluster?_of_unnamed (h : ∀ name, ¬IsNamed w name) :
    workCluster? w = (w.metadata.label? Names.hostedCluster).or w.metadata.nspace := by
  have hagent : named? w.anyName Names.klusterletWorkSuffix = none :=
    named?_eq_none fun other hne hother => h other ⟨hne, Or.inl hother⟩
  have hcredentials : named? w.anyName Names.kubeconfigWorkSuffix = none :=
    named?_eq_none fun other hne hother => h other ⟨hne, Or.inr hother⟩
  rw [workCluster?, hagent, hcredentials, Option.none_or, Option.none_or]

/-- A listing that comes off is the one of the state that it is made in. -/
theorem worksOf_of_listed {ws : ClusterWorks} (hnamed : c.metadata.IsNamed)
    (h : (m.talk t (listWorks c).run).1 = .ok ws) :
    ws = m.worksOf c := by
  have hlist : Meets t (fun _ _ => True) (fun r _ => ∀ ws, r = .ok ws → ws = m.worksOf c)
      (listWorks c) m := by
    refine listWorks_meets (fun _ _ _ => trivial) hnamed (fun _ _ _ _ ws hws => ?_)
      fun ws hws => ?_
    · cases hws
    · cases hws
      rfl
  exact Dialogue.Meets.run hlist ws h

/-- A work of the listing leads back to the cluster unless it is said to be another one's. -/
theorem workCluster?_of_listed (hm : m.Filed) (hne : c.nameText ≠ "")
    (hw : w ∈ (m.worksOf c).own ++ (m.worksOf c).hosted)
    (honly : ∀ other, Designates w other → other = c.nameText) :
    workCluster? w = some c.nameText := by
  by_cases hnamed : ∃ other, IsNamed w other
  · obtain ⟨other, hother⟩ := hnamed
    rw [workCluster?_of_isNamed hother, honly other (Or.inl hother)]
  rw [workCluster?_of_unnamed fun other hother => hnamed ⟨other, hother⟩]
  cases hlabel : w.metadata.label? Names.hostedCluster with
  | some v => rw [honly v (Or.inr hlabel), Option.some_or]
  | none =>
    rw [Option.none_or]
    rcases List.mem_append.mp hw with hown | hhosted
    · have hkey := (nspace_of_mem_own hm hown).2
      exact (Metadata.spaceText_eq_iff hne).mp (congrArg ObjectKey.nspace hkey)
    · obtain ⟨k, -, -, hselects⟩ := Hub.Memory.mem_hosted_iff_selects.mp hhosted
      obtain ⟨v, hv⟩ := label?_of_selects hselects
      cases hlabel.symm.trans hv

/-! ## Secrets -/

/-- The secrets that a pass over the cluster `name` goes by, in the order of their use. -/
def secretKeys (name : String) : List ObjectKey :=
  [⟨name, Names.importSecret name⟩, ⟨name, Names.autoImportSecret⟩]

theorem importSecret_cluster?_iff {s : Secret} (hne : name ≠ "") (hs : s.metadata.IsNamed) :
    (Source.importSecret s).cluster? = some name ↔
      s.key = ⟨name, Names.importSecret name⟩ := by
  unfold Source.cluster? Secret.key Metadata.key
  rw [Option.filter_eq_some_iff, ObjectKey.mk.injEq, beq_iff_eq, Metadata.spaceText_eq_iff hne,
    show s.metadata.anyName = s.metadata.nameText from hs]

theorem autoImportSecret_cluster?_iff {s : Secret} (hne : name ≠ "") (hs : s.metadata.IsNamed) :
    (Source.autoImportSecret s).cluster? = some name ↔
      s.key = ⟨name, Names.autoImportSecret⟩ := by
  unfold Source.cluster? Secret.key Metadata.key
  dsimp only
  rw [Option.ite_none_right_eq_some, ObjectKey.mk.injEq, Metadata.spaceText_eq_iff hne, and_comm,
    show s.metadata.anyName = s.metadata.nameText from hs]

/-! ## What a pass looks up -/

def lookup? : Request × Memory → Option ObjectKey
  | (.getSecret k, _) => some k
  | _ => none

/-- The keys of the secrets that the pass looks up, in their order. -/
def lookups (t : Instant) (p : Pass α) (m : Memory) : List ObjectKey :=
  (asked t p m).filterMap lookup?

/-- No secret is looked up. -/
def Blind (_ : Dialogue.History Request Request.Answer) (q : Request) : Prop :=
  ∀ k, q ≠ .getSecret k

theorem admits_blind (name : String) : Admits Blind name where
  plain h q hq k hk := by
    subst hk
    exact hq
  finalizers _ _ _ _ hk := nomatch hk
  created _ _ _ _ hk := nomatch hk
  replaced _ _ _ _ hk := nomatch hk

theorem lookups_of_blind (h : Conducts Blind p) (t : Instant) (m : Memory) :
    lookups t p m = [] := by
  refine List.filterMap_eq_nil_iff.mpr fun ⟨q, m'⟩ hx => ?_
  have hq : ∀ k, q ≠ .getSecret k := (h []).trace m _ hx
  cases q with
  | getSecret k => exact absurd rfl (hq k)
  | _ => rfl

theorem lookups_bind_ok {a : α} (h : Conducts Blind p) (hp : (m.talk t p.run).1 = .ok a)
    (f : α → Pass β) : lookups t (p >>= f) m = lookups t (f a) (m.talk t p.run).2 := by
  have hnone := lookups_of_blind h t m
  unfold lookups at hnone ⊢
  rw [asked_bind_ok hp, List.filterMap_append, hnone, List.nil_append]

theorem lookups_bind_error {e : Failure} (h : Conducts Blind p)
    (hp : (m.talk t p.run).1 = .error e) (f : α → Pass β) : lookups t (p >>= f) m = [] := by
  have hnone := lookups_of_blind h t m
  unfold lookups at hnone ⊢
  rw [asked_bind_error hp, hnone]

theorem lookups_bind_prefix (h : Conducts Blind p)
    (hf : ∀ a m', lookups t (f a) m' <+: keys) : lookups t (p >>= f) m <+: keys := by
  cases hp : (m.talk t p.run).1 with
  | ok a =>
    rw [lookups_bind_ok h hp]
    exact hf a _
  | error e =>
    rw [lookups_bind_error h hp]
    exact List.nil_prefix

theorem lookups_getCluster (n : String) (f : Option ManagedCluster → Pass β) :
    lookups t (ask (.getCluster n) >>= f) m = lookups t (f (m.clusters.get? n)) m := by
  have hread : m.talk t (ask (.getCluster n)).run = (.ok (m.clusters.get? n), m) := rfl
  have hplain : Conducts Blind (ask (.getCluster n)) :=
    conducts_plain (admits_blind n) (by exact trivial)
  rw [lookups_bind_ok hplain (congrArg Prod.fst hread), hread]

theorem lookups_getSecret (k : ObjectKey) (f : Option Secret → Pass β) :
    lookups t (ask (.getSecret k) >>= f) m = k :: lookups t (f (m.secrets.get? k)) m := by
  have hread : m.talk t (ask (.getSecret k)).run = (.ok (m.secrets.get? k), m) := rfl
  unfold lookups
  rw [asked_bind_ok (congrArg Prod.fst hread), hread, asked_ask]
  rfl

theorem lookups_bind_blind (h : ∀ a, Conducts Blind (f a)) :
    lookups t (p >>= f) m = lookups t p m := by
  cases hp : (m.talk t p.run).1 with
  | ok a =>
    have hnone := lookups_of_blind (h a) t (m.talk t p.run).2
    unfold lookups at hnone ⊢
    rw [asked_bind_ok hp, List.filterMap_append, hnone, List.append_nil]
  | error e =>
    unfold lookups
    rw [asked_bind_error hp]

theorem lookups_getSecret_blind {k : ObjectKey} {f : Option Secret → Pass β}
    (h : ∀ s, Conducts Blind (f s)) : lookups t (ask (.getSecret k) >>= f) m = [k] := by
  rw [lookups_getSecret, lookups_of_blind (h _)]

theorem prefix_of_blind (h : Conducts Blind p) : lookups t p m <+: keys := by
  rw [lookups_of_blind h]
  exact List.nil_prefix

/-! ## Passes -/

/-- The agent's work is brought and the finalizer put on, and then the auto-import secret is looked
up; when one of the two fails, it is not. -/
theorem bringAgent_lookups {works : ClusterWorks} {payload : Bytes} {desired : ManifestWork}
    (hbuild : HostedWork.klusterlet c.anyName hosting payload = .ok desired) :
    lookups t (bringAgent ctx c works hosting payload) m =
        [⟨c.anyName, Names.autoImportSecret⟩] ∨
      lookups t (bringAgent ctx c works hosting payload) m = [] ∧
        ((∃ e, (m.talk t (applyWork c desired).run).1 = .error e) ∨
          ∃ e, ((m.talk t (applyWork c desired).run).2.talk t
            (syncFinalizer ctx c 1).run).1 = .error e) := by
  have hblind := admits_blind c.anyName
  have hattempt := talk_attempt (t := t) (applyWork c desired) m
  unfold bringAgent
  rw [hbuild]
  dsimp only
  rw [lookups_bind_ok (conducts_attempt
    (conducts_applyWork hblind (HostedWork.label?_klusterlet hbuild) c))
    (congrArg Prod.fst hattempt), hattempt]
  cases (m.talk t (applyWork c desired).run).1 with
  | error e =>
    exact Or.inr ⟨lookups_of_blind (conducts_failWith hblind _ _ _ _) t _, Or.inl ⟨e, rfl⟩⟩
  | ok work =>
    have hfinalizer := conducts_syncFinalizer hblind ctx c 1
    dsimp only
    cases hsync : ((m.talk t (applyWork c desired).run).2.talk t (syncFinalizer ctx c 1).run).1 with
    | error e => exact Or.inr ⟨lookups_bind_error hfinalizer hsync _, Or.inr ⟨e, rfl⟩⟩
    | ok u =>
      refine Or.inl ?_
      rw [lookups_bind_ok hfinalizer hsync]
      refine lookups_getSecret_blind fun s => ?_
      split
      · exact conducts_setConditions hblind _ _ _
      · split
        · exact conducts_handOver hblind _ _ _ _
        · exact conducts_setConditions hblind _ _ _

theorem bringAgent_prefix {works : ClusterWorks} {payload : Bytes} :
    lookups t (bringAgent ctx c works hosting payload) m <+:
      [⟨c.anyName, Names.autoImportSecret⟩] := by
  cases hbuild : HostedWork.klusterlet c.anyName hosting payload with
  | error e =>
    unfold bringAgent
    rw [hbuild]
    exact prefix_of_blind (conducts_failWith (admits_blind c.anyName) _ _ _ _)
  | ok desired =>
    have hlookups : lookups t (bringAgent ctx c works hosting payload) m = _ ∨ _ ∧ _ :=
      bringAgent_lookups hbuild
    rcases hlookups with h | ⟨h, -⟩
    · exact h ▸ List.prefix_rfl
    · exact h ▸ List.nil_prefix

/-- With all there that the agent takes, both secrets are looked up. -/
theorem importCluster_lookups {works : ClusterWorks} {agent : ManifestWork} (hm : m.Filed)
    (hq : m.Quiet) (hc : c.metadata.IsNamed) (hd : m.clusters.get? c.nameText = some d)
    (hbare : d.bare = c.bare) (hequipped : Equipped c m hosting agent) :
    lookups t (importCluster ctx c works) m = secretKeys c.nameText := by
  have hblind := admits_blind c.anyName
  obtain ⟨payload, hdemand, hbuild⟩ := hequipped
  obtain ⟨hhost, s, hs, hpayload⟩ := payload_of_demand hdemand
  obtain ⟨hhosting, hproblem⟩ := host?_eq_some_iff.mp hhost
  unfold importCluster
  dsimp only
  rw [hhosting]
  dsimp only
  rw [lookups_getCluster, hproblem]
  dsimp only
  rw [ManagedCluster.anyName_eq hc, lookups_getSecret]
  refine congrArg _ ?_
  rw [show m.secrets.get? ⟨c.nameText, Names.importSecret c.nameText⟩ = some s from hs]
  dsimp only
  rw [hpayload]
  dsimp only
  obtain ⟨work, happly⟩ := applyWork_ok hm hq (t := t) hd
    ((ManagedCluster.hosting?_of_bare hbare).trans hhosting)
    (HostedWork.isOwn_of_klusterlet hbuild).named (HostedWork.key_klusterlet hbuild)
  obtain ⟨u, hsync⟩ : ∃ u, ((m.talk t (applyWork c agent).run).2.talk t
      (syncFinalizer ctx c 1).run).1 = .ok u :=
    syncFinalizer_ok (hm.talk t _) (hq.talk t _) hc 1
  rw [← ManagedCluster.anyName_eq hc] at hbuild ⊢
  refine (bringAgent_lookups hbuild).resolve_right ?_
  rintro ⟨-, ⟨e, he⟩ | ⟨e, he⟩⟩
  · cases happly.symm.trans he
  · cases hsync.symm.trans he

theorem importCluster_prefix {works : ClusterWorks} :
    lookups t (importCluster ctx c works) m <+: secretKeys c.anyName := by
  have hblind := admits_blind c.anyName
  unfold importCluster
  dsimp only
  split
  · exact prefix_of_blind (conducts_setConditions hblind _ _ _)
  rw [lookups_getCluster]
  split
  · exact prefix_of_blind (conducts_setConditions hblind _ _ _)
  rw [lookups_getSecret]
  refine List.cons_prefix_cons.mpr ⟨rfl, ?_⟩
  split
  · exact prefix_of_blind (conducts_setConditions hblind _ _ _)
  · split
    · exact prefix_of_blind (conducts_setConditions hblind _ _ _)
    · exact bringAgent_prefix

/-- A cluster that is filed under a name that is not empty is called by it. -/
theorem anyName_of_stored (hne : name ≠ "") (hm : m.Filed)
    (hc : m.clusters.get? name = some c) : c.anyName = name := by
  obtain rfl : c.nameText = name := hm.clusters name c hc
  exact ManagedCluster.anyName_eq (Metadata.isNamed_of_nameText_ne hne)

/-- Whatever state the hub is in, a pass looks up no other secrets than the two of its cluster. -/
theorem reconcile_prefix (hne : name ≠ "") (hm : m.Filed) :
    lookups t (reconcile ctx name) m <+: secretKeys name := by
  unfold reconcile
  rw [lookups_getCluster]
  split
  · exact prefix_of_blind (conducts_pure _)
  next c hc =>
  have hname : c.anyName = name := anyName_of_stored hne hm hc
  have hblind := admits_blind c.anyName
  split
  · refine lookups_bind_prefix (conducts_listWorks hblind c) fun works m₁ => ?_
    refine lookups_bind_prefix (conducts_syncFinalizer hblind _ _ _) fun _ m₂ => ?_
    split
    · exact prefix_of_blind (conducts_deletion hblind _ _ _)
    · rw [lookups_bind_blind fun _ => conducts_pure _, ← hname]
      exact importCluster_prefix
  · exact prefix_of_blind (conducts_pure _)

/-- In a hub that refuses nothing, both are looked up when all is there to bring the agent. -/
theorem reconcile_lookups {agent : ManifestWork} (hm : m.Named) (hq : m.Quiet)
    (hc : m.clusters.get? name = some c) (hhosted : c.isHosted = true)
    (hlive : c.isDeleting = false) (hequipped : Equipped c m hosting agent) :
    lookups t (reconcile ctx name) m = secretKeys name := by
  have hname : c.nameText = name := hm.clusters name c hc
  have hnamed : c.metadata.IsNamed := hm.clusterNames name c hc
  have hstored : m.clusters.get? c.nameText = some c := hname.symm ▸ hc
  have hblind := admits_blind c.anyName
  have hlist := talk_listWorks hq hnamed t
  obtain ⟨⟨⟩, hsync⟩ : ∃ u,
      (m.talk t (syncFinalizer ctx c (m.worksOf c).total).run).1 = .ok u :=
    syncFinalizer_ok hm.toFiled hq hnamed _
  have hafter : Meets t (fun _ _ => True) (fun r m₁ => r = .ok () →
      m₁.demand c = m.demand c ∧ ∃ d, m₁.clusters.get? c.nameText = some d ∧ d.bare = c.bare)
      (syncFinalizer ctx c (m.worksOf c).total) m := by
    refine syncFinalizer_live_meets (fun _ _ _ => trivial) hnamed hstored rfl hlive
      (fun _ _ _ hr => nomatch hr) fun d m₁ hwithin hd hsynced _ => ?_
    exact ⟨Hub.Memory.demand_of_cluster hwithin hstored hd hsynced.bare, d, hd, hsynced.bare⟩
  obtain ⟨hdemand, d, hd, hbare⟩ := Dialogue.Meets.run hafter hsync
  unfold reconcile
  rw [lookups_getCluster, hc]
  dsimp only
  rw [if_pos hhosted, lookups_bind_ok (conducts_listWorks hblind c) (congrArg Prod.fst hlist),
    hlist, lookups_bind_ok (conducts_syncFinalizer hblind _ _ _) hsync, hlive,
    if_neg Bool.false_ne_true, lookups_bind_blind fun _ => conducts_pure _, ← hname]
  obtain ⟨payload, hagent, hbuild⟩ := hequipped
  exact importCluster_lookups (hm.toFiled.talk t _) (hq.talk t _) hnamed hd hbare
    ⟨payload, hdemand.trans hagent, hbuild⟩

section Sample

open Sample

/-- The payload of the sample has a comment and no object, which makes a work for any cluster. -/
theorem klusterlet_of_comment (cluster hosting : String) :
    ∃ agent, HostedWork.klusterlet cluster hosting [0x23] = .ok agent := by
  have hreadable : (Payload.decodeAll [0x23]).toBool = true := by decide +kernel
  unfold HostedWork.klusterlet
  cases hdecode : Payload.decodeAll [0x23] with
  | error r =>
    rw [hdecode] at hreadable
    cases hreadable
  | ok objects => exact ⟨_, rfl⟩

theorem ready_equipped (name : String) : ∃ c agent,
    (ready (hosted name "h")).clusters.get? name = some c ∧ c.isHosted = true ∧
      c.isDeleting = false ∧ Equipped c (ready (hosted name "h")) "h" agent := by
  obtain ⟨c, hc, hhosted, hlive, hhosting⟩ : ∃ c,
      (ready (hosted name "h")).clusters.get? name = some c ∧ c.isHosted = true ∧
        c.isDeleting = false ∧ c.hosting? = some "h" :=
    ⟨_, Table.get?_insert_self _ _ _, rfl, rfl, rfl⟩
  obtain ⟨s, hs, hpayload⟩ : ∃ s, (ready (hosted name "h")).secrets.get?
      ⟨name, Names.importSecret name⟩ = some s ∧ s.payload? = some [0x23] :=
    ⟨_, Table.get?_insert_self _ _ _, rfl⟩
  have hnamed : (ready (hosted name "h")).Named := named_ready rfl
  have hname : c.nameText = name := hnamed.clusters name c hc
  have hsecret : (ready (hosted name "h")).secrets.get? (payloadKey c) = some s := by
    rw [payloadKey, hname]
    exact hs
  have hhost : host? c (ready (hosted name "h")) = some "h" := by
    refine host?_eq_some_iff.mpr ⟨hhosting, ?_⟩
    -- a cluster of the name "h" is asked to host itself
    by_cases hself : name = "h"
    · subst hself
      rw [hc]
      simp [hostingProblem?, hlive]
    · have hother : (ready (hosted name "h")).clusters.get? "h" = _ :=
        Table.get?_insert_of_ne _ (Ne.symm hself) _
      rw [hother]
      rfl
  obtain ⟨agent, hbuild⟩ := klusterlet_of_comment c.nameText "h"
  exact ⟨c, agent, hc, hhosted, hlive, [0x23], demand_of_payload hhost hsecret hpayload, hbuild⟩

end Sample

/-- The secret of this key is the `i`-th that some pass over the cluster `name` looks up. -/
def Reads (name : String) (i : Nat) (k : ObjectKey) : Prop :=
  ∃ ctx m, m.Filed ∧ (lookups ctx.now (reconcile ctx name) m)[i]? = some k

theorem reads_iff (hne : name ≠ "") {i : Nat} {k : ObjectKey} :
    Reads name i k ↔ (secretKeys name)[i]? = some k := by
  constructor
  · rintro ⟨ctx, m, hm, hread⟩
    obtain ⟨rest, hrest⟩ : lookups ctx.now (reconcile ctx name) m <+: secretKeys name :=
      reconcile_prefix hne hm
    rw [← hrest]
    exact List.getElem?_append_left (List.getElem?_eq_some_iff.mp hread).1 ▸ hread
  · intro hk
    obtain ⟨c, agent, hc, hhosted, hlive, hequipped⟩ := ready_equipped name
    have hnamed : (ready (Sample.hosted name "h")).Named := named_ready rfl
    have hquiet : (ready (Sample.hosted name "h")).Quiet := ⟨fun _ => rfl, rfl⟩
    have hlookups : lookups Sample.now (reconcile { now := Sample.now } name)
        (ready (Sample.hosted name "h")) = secretKeys name :=
      reconcile_lookups hnamed hquiet hc hhosted hlive hequipped
    exact ⟨{ now := Sample.now }, _, hnamed.toFiled, hlookups ▸ hk⟩

/-! ## Where changes are taken -/

/-- Objects are taken back to the cluster `name` as passes over it read them. -/
structure Agrees (name : String) : Prop where
  named : ∀ w : ManifestWork, w.anyName = Names.klusterletWork name ∨
    w.anyName = Names.kubeconfigWork name → (Source.work w).cluster? = some name
  unshared : ∀ other, other ≠ name → Names.klusterletWork other ≠ Names.klusterletWork name ∧
    Names.kubeconfigWork other ≠ Names.kubeconfigWork name
  apart : ∀ other, Names.klusterletWork other ≠ Names.kubeconfigWork name
  unnamed : ∀ w, (∀ other, ¬IsNamed w other) → (Source.work w).cluster? =
    (w.metadata.label? Names.hostedCluster).or w.metadata.nspace
  listed : ∀ (t : Instant) (m : Memory) (c : ManagedCluster) (ws : ClusterWorks), m.Filed →
    c.nameText = name → (m.talk t (listWorks c).run).1 = .ok ws → ∀ w ∈ ws.own ++ ws.hosted,
      (∀ other, Designates w other → other = name) → (Source.work w).cluster? = some name
  read : ∀ ctx m, m.Filed → lookups ctx.now (reconcile ctx name) m <+: secretKeys name
  payload : ∀ s : Secret, s.metadata.IsNamed →
    ((Source.importSecret s).cluster? = some name ↔ Reads name 0 s.key)
  access : ∀ s : Secret, s.metadata.IsNamed →
    ((Source.autoImportSecret s).cluster? = some name ↔ Reads name 1 s.key)

/-- A cluster's name leads to its works and its secrets, and these lead back to it, also when the
name ends as those of hosted works do. -/
theorem belongs_as_read (hne : name ≠ "") : Agrees name where
  named w hname := workCluster?_of_isNamed ⟨hne, hname⟩
  unshared other hother := ⟨fun h => hother (Names.klusterletWork_inj h),
    fun h => hother (Names.kubeconfigWork_inj h)⟩
  apart other := Names.klusterletWork_ne_kubeconfigWork other name
  unnamed w hunnamed := workCluster?_of_unnamed hunnamed
  listed t m c ws hm hname hlist w hw honly := by
    subst hname
    rw [worksOf_of_listed (Metadata.isNamed_of_nameText_ne hne) hlist] at hw
    exact workCluster?_of_listed hm hne hw honly
  read ctx m hm := reconcile_prefix hne hm
  payload s hs := by
    rw [importSecret_cluster?_iff hne hs, reads_iff hne, eq_comm]
    exact Option.some_inj.symm
  access s hs := by
    rw [autoImportSecret_cluster?_iff hne hs, reads_iff hne, eq_comm]
    exact Option.some_inj.symm

section Sample

open Sample

/-- The hub after the first pass, which has brought the agent's work. -/
def begun : Memory := Run.afterPass { now := now } "c" (ready (hosted "c" "h"))

theorem belongs_after_first_pass :
    "c" ≠ "" ∧ begun.Filed ∧ ∃ ws w, (begun.talk now (listWorks (hosted "c" "h")).run).1 = .ok ws ∧
      w ∈ ws.own ++ ws.hosted ∧ w.anyName = Names.klusterletWork "c" ∧
        (Source.work w).cluster? = some "c" ∧
        lookups now (reconcile { now := now } "c") begun <+: secretKeys "c" := by
  have hne : "c" ≠ "" := by decide
  have hnamed : (ready (hosted "c" "h")).Named := named_ready rfl
  have hfiled : begun.Filed := hnamed.toFiled.talk _ _
  have hagrees : Agrees "c" := belongs_as_read hne
  have hseen : (begun.talk now (listWorks (hosted "c" "h")).run).1.toOption.any (fun ws =>
      (ws.own ++ ws.hosted).any fun w => w.anyName == Names.klusterletWork "c" &&
        w.metadata.label? Names.hostedCluster == some "c") = true := by decide +kernel
  obtain ⟨ws, hws, hany⟩ := (Option.any_eq_true _ _).mp hseen
  obtain ⟨w, hw, hlooks⟩ := List.any_eq_true.mp hany
  obtain ⟨hname, hlabel⟩ := Bool.and_eq_true_iff.mp hlooks
  have hname : w.anyName = Names.klusterletWork "c" := beq_iff_eq.mp hname
  have hlabel : w.metadata.label? Names.hostedCluster = some "c" := beq_iff_eq.mp hlabel
  have hlist : (begun.talk now (listWorks (hosted "c" "h")).run).1 = .ok ws := by
    cases hr : (begun.talk now (listWorks (hosted "c" "h")).run).1 with
    | error e =>
      rw [hr] at hws
      cases hws
    | ok _ =>
      rw [hr] at hws
      exact congrArg Except.ok (Option.some.inj hws)
  refine ⟨hne, hfiled, ws, w, hlist, hw, hname, ?_, hagrees.read { now := now } begun hfiled⟩
  refine hagrees.listed now begun (hosted "c" "h") ws hfiled rfl hlist w hw fun other hother => ?_
  rcases hother with ⟨-, hother | hother⟩ | hother
  · exact (Names.klusterletWork_inj (hname.symm.trans hother)).symm
  · exact absurd (hname.symm.trans hother) (Names.klusterletWork_ne_kubeconfigWork "c" other)
  · exact Option.some_inj.mp (hother.symm.trans hlabel)

end Sample

end Watch
end Hosting
