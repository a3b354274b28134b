import Hosting.Proofs.Gates
import Hosting.Proofs.Pass.Conduct
import Hosting.Proofs.Text.Numeral

/-!
# Failed attempts are told and counted

The kubeconfig is brought to the hosting cluster as a work.  When the hub refuses that work, a pass
still has two things to do: to tell of it in the cluster's status, and to count the attempt in the
auto-import secret.  Neither stands in the way of the other, and what fails is told in the end
(`attempts_counted`).  The count goes through a text; over many passes it is their number, as
long as that is a number that the text can be read back as.
-/

namespace Hosting

/-! ## The count of a secret -/

namespace Secret

variable {s s' s'' : Secret} {n n' : Nat}

/-- The secret but for its annotations and its version. -/
def uncounted (s : Secret) : Secret :=
  { s with metadata := { s.metadata with annotations := none, resourceVersion := none } }

/-- All that has changed from `s` to `s'` are the version and the annotation that counts failed
attempts, which now tells the number `n`. -/
structure CountsTo (s : Secret) (n : Nat) (s' : Secret) : Prop where
  rest : s'.uncounted = s.uncounted
  annotations : ∀ a, a ≠ Names.autoImportRetry →
    s'.metadata.annotation? a = s.metadata.annotation? a
  count : s'.metadata.annotation? Names.autoImportRetry = some (Text.decimal n)

theorem CountsTo.trans (h : CountsTo s n s') (h' : CountsTo s' n' s'') : CountsTo s n' s'' where
  rest := h'.rest.trans h.rest
  annotations a ha := (h'.annotations a ha).trans (h.annotations a ha)
  count := h'.count

theorem CountsTo.retries (h : CountsTo s n s') (hn : n ≤ maxRetries) : s'.retries = n := by
  unfold Secret.retries
  rw [h.count, Option.bind_some, Text.natural?_decimal hn, Option.getD_some]

theorem countsTo_retried (s : Secret) (version : Nat) :
    CountsTo s (min (2 ^ 32 - 1) (s.retries + 1))
      { s.retried.1 with metadata := Hub.Memory.stamped s.retried.1.metadata version } where
  rest := rfl
  annotations a ha := by
    show (((s.metadata.annotations.getD .empty).insert Names.autoImportRetry _).get? a) = _
    rw [Table.get?_insert_of_ne _ ha]
    unfold Metadata.annotation?
    cases s.metadata.annotations <;> rfl
  count := by
    rw [Nat.min_comm]
    exact Table.get?_insert_self _ _ _

end Secret

namespace Attempts

open Hub (Error Lax Memory Request)
open Hub.Memory (Alike Within)
open ImportState (Before)
open Pass

variable {α β : Type} {t : Instant} {ctx : Context} {name : String} {c d : ManagedCluster}
  {s : Secret} {m m₁ m₂ : Memory} {p : Pass α} {f : α → Pass β}

/-! ## What a pass asks -/

/-- The requests of the pass, each with the hub as it is asked. -/
def asked (t : Instant) (p : Pass α) (m : Memory) : List (Request × Memory) :=
  p.run.trace (Memory.answer t) m

theorem asked_bind_ok {a : α} (h : (m.talk t p.run).1 = .ok a) (f : α → Pass β) :
    asked t (p >>= f) m = asked t p m ++ asked t (f a) (m.talk t p.run).2 := by
  have h : (Dialogue.run (Memory.answer t) p.run m).1 = .ok a := h
  unfold asked
  rw [ExceptT.run_bind, Dialogue.trace_bind, h]
  rfl

theorem asked_bind_error {e : Failure} (h : (m.talk t p.run).1 = .error e) (f : α → Pass β) :
    asked t (p >>= f) m = asked t p m := by
  have h : (Dialogue.run (Memory.answer t) p.run m).1 = .error e := h
  unfold asked
  rw [ExceptT.run_bind, Dialogue.trace_bind, h]
  exact List.append_nil _

theorem asked_attempt (p : Pass α) (m : Memory) : asked t (attempt p) m = asked t p m :=
  Dialogue.trace_map p.run _ m

theorem asked_ask (q : Request) (m : Memory) : asked t (ask q) m = [(q, m)] := rfl

/-! ## What is refused -/

/-- The hub refuses the work with the kubeconfig of the cluster `name`, for the reason `e`. -/
def Refuses (name : String) (e : Error) : Request × Memory → Prop
  | (.createWork w, m) => w.key.name = Names.kubeconfigWork name ∧ (m.createWork w).1 = .error e
  | (.replaceWork w, m) => w.key.name = Names.kubeconfigWork name ∧ (m.replaceWork w).1 = .error e
  | _ => False

/-- Nothing that the pass asks is refused so. -/
def Calm (name : String) (t : Instant) (p : Pass α) (m : Memory) : Prop :=
  ∀ x ∈ asked t p m, ∀ e, ¬Refuses name e x

theorem lax_calm : Lax fun q m => ∀ e, ¬Refuses name e (q, m) := by
  intro q m hq e
  cases q <;> first | exact id | exact absurd trivial hq

/-- A pass that labels what it brings with any text whatever brings nothing. -/
theorem calm_of_behaves (h : ∀ label, Behaves label p) (name : String) (t : Instant) (m : Memory) :
    Calm name t p m := by
  rintro ⟨q, m'⟩ hx e hrefuses
  have hlabel (label : String) : Labels label q :=
    ((h label []).imp (fun _ _ hq => hq.2) fun _ _ hend => hend).trace m _ hx
  have hnone (w : ManifestWork) (hw : ∀ l, w.metadata.label? Names.hostedCluster = some l) :
      False :=
    absurd ((hw "").symm.trans (hw "c")) (by decide)
  cases q with
  | createWork w => exact hnone w hlabel
  | replaceWork w => exact hnone w hlabel
  | _ => exact hrefuses

/-- The pass is held to its end, or up to where the work with the kubeconfig is refused. -/
def Tries (name : String) (t : Instant) (p : Pass ManifestWork) (m : Memory) : Prop :=
  (∃ w, (m.talk t p.run).1 = .ok w) ∧ Calm name t p m ∨
    ∃ before x e, asked t p m = before ++ [x] ∧ Refuses name e x ∧
      m.talk t p.run = (.error (.hub e), (x.2.answer t x.1).2) ∧ Alike m (x.2.answer t x.1).2

theorem tries_call {p : Pass ManifestWork} {q : Request} {r : Except Error ManifestWork × Memory}
    {did : ManifestWork → Memory → Prop} (hp : m.talk t p.run = (r.1.mapError .hub, r.2))
    (hasked : asked t p m = [(q, m)]) (hrefuses : ∀ e, Refuses name e (q, m) ↔ r.1 = .error e)
    (hafter : (m.answer t q).2 = r.2) (hgives : Hub.Memory.Gives m did r) (ev : Hub.Event) :
    Tries name t (p >>= fun w => publish c ev >>= fun _ => pure w) m := by
  obtain ⟨e | w, m'⟩ := r
  · refine Or.inr ⟨[], (q, m), e, ?_, (hrefuses e).mpr rfl, ?_, ?_⟩
    · rw [asked_bind_error (congrArg Prod.fst hp), hasked]
      rfl
    · rw [talk_bind_error (congrArg Prod.fst hp), hp, hafter]
    · rw [hafter]
      exact hgives
  · refine Or.inl ⟨⟨w, ?_⟩, ?_⟩
    · rw [talk_bind_ok (congrArg Prod.fst hp), hp]
      rfl
    · intro x hx e
      rw [asked_bind_ok (congrArg Prod.fst hp), hasked] at hx
      rcases List.mem_append.mp hx with hx | hx
      · rw [List.mem_singleton.mp hx, hrefuses]
        exact nofun
      · rw [List.mem_singleton.mp hx]
        exact id

theorem applyWork_tries {desired : ManifestWork} (hnamed : desired.metadata.IsNamed)
    (hname : desired.key.name = Names.kubeconfigWork name)
    (hkey : ∀ w, m.works.get? desired.key = some w → w.key = desired.key) (c : ManagedCluster) :
    Tries name t (applyWork c desired) m := by
  have hlook := talk_getWork m t desired.key
  have hgo {f : Option ManifestWork → Pass ManifestWork}
      (h : Tries name t (f (m.works.get? desired.key)) m) :
      Tries name t (ask (.getWork desired.key) >>= f) m := by
    unfold Tries Calm at h ⊢
    rw [talk_bind_ok (congrArg Prod.fst hlook), asked_bind_ok (congrArg Prod.fst hlook), hlook,
      asked_ask]
    rcases h with ⟨hw, hcalm⟩ | ⟨before, x, e, hasked, hrest⟩
    · refine Or.inl ⟨hw, fun x hx => ?_⟩
      rcases List.mem_cons.mp hx with rfl | hx
      · exact fun _ => id
      · exact hcalm x hx
    · exact Or.inr ⟨_ :: before, x, e, congrArg (_ :: ·) hasked, hrest⟩
  unfold applyWork
  rw [ManifestWork.anyKey_eq hnamed]
  refine hgo ?_
  cases hw : m.works.get? desired.key with
  | none =>
    exact tries_call (talk_ask m t (.createWork desired)) rfl
      (fun _ => and_iff_right hname) rfl (Hub.Memory.createWork_gives desired) _
  | some old =>
    dsimp only
    split
    · exact Or.inl ⟨⟨old, rfl⟩, fun x hx => nomatch hx⟩
    · have hold : (old.updatedTo desired).key.name = Names.kubeconfigWork name :=
        (congrArg ObjectKey.name (hkey old hw)).trans hname
      exact tries_call (talk_ask m t (.replaceWork (old.updatedTo desired))) rfl
        (fun _ => and_iff_right hold) rfl (Hub.Memory.replaceWork_gives _) _

/-! ## What follows a refusal -/

/-- The pass tells of the refusal in the status of the cluster. -/
def telling (ctx : Context) (c : ManagedCluster) (e : Error) : Pass Unit :=
  setConditions ctx c [Progress.notHandedOver ctx.now
    ("Apply external managed kubeconfig to the hosting cluster failed, error: " ++
      (Failure.hub e).message)]

/-- How telling of the refusal ends from `m`. -/
def told (ctx : Context) (c : ManagedCluster) (e : Error) (m : Memory) :
    Except Failure Unit × Memory :=
  m.talk ctx.now (telling ctx c e).run

/-- How the attempt is counted after it was told of, whether or not that has failed. -/
def counted (ctx : Context) (c : ManagedCluster) (s : Secret) (e : Error) (m : Memory) :
    Except Error Secret × Memory :=
  (told ctx c e m).2.replaceSecret s.retried.1

/-- The refusal alone, or together with what has failed after it, in its order. -/
def combined (e : Error) : Except Failure Unit → Except Error Secret → Failure
  | .ok _, .ok _ => .hub e
  | .error f, .ok _ => .several [.hub e, f]
  | .ok _, .error g => .several [.hub e, .hub g]
  | .error f, .error g => .several [.hub e, f, .hub g]

/-- From the state `m`, that of the hub after the refusal, the pass has asked `after`, and has
come to the end `r` and to the state `m'`: it has told of the refusal and has counted it. -/
structure Accounts (ctx : Context) (c : ManagedCluster) (s : Secret) (e : Error) (m : Memory)
    (after : List (Request × Memory)) (r : Except Failure α) (m' : Memory) : Prop where
  asks : after = asked ctx.now (telling ctx c e) m ++
    [(.replaceSecret s.retried.1, (told ctx c e m).2)]
  fails : r = .error (combined e (told ctx c e m).1 (counted ctx c s e m).1)
  hub : m' = (counted ctx c s e m).2
  stays : ∀ g, (counted ctx c s e m).1 = .error g → m'.secrets.get? (autoImportKey c) = some s
  counts : ∀ s', (counted ctx c s e m).1 = .ok s' →
    m'.secrets.get? (autoImportKey c) = some s' ∧
      s.CountsTo (min (2 ^ 32 - 1) (s.retries + 1)) s'

/-- The part of a pass that tells of the refusal and counts it. -/
def accounting (ctx : Context) (c : ManagedCluster) (s : Secret) (f : Failure) : Pass Unit := do
  let recorded ← attempt (setConditions ctx c [Progress.notHandedOver ctx.now
    ("Apply external managed kubeconfig to the hosting cluster failed, error: " ++ f.message)])
  let counted ← attempt (countRetry s)
  throw (f.withMore ([recorded, counted].filterMap fun
    | .ok _ => none
    | .error g => some g))

theorem talk_countRetry (s : Secret) (m : Memory) : m.talk t (countRetry s).run =
    (((m.replaceSecret s.retried.1).1.mapError .hub).map fun _ => (),
      (m.replaceSecret s.retried.1).2) := by
  have hask : m.talk t (ask (.replaceSecret s.retried.1)).run = _ := talk_ask m t _
  have hanswer : m.answer t (.replaceSecret s.retried.1) = m.replaceSecret s.retried.1 := rfl
  rw [hanswer] at hask
  unfold countRetry
  cases hr : (m.replaceSecret s.retried.1).1 with
  | error e =>
    rw [hr] at hask
    rw [talk_bind_error (congrArg Prod.fst hask), hask]
    rfl
  | ok s' =>
    rw [hr] at hask
    rw [talk_bind_ok (congrArg Prod.fst hask), hask]
    rfl

theorem asked_countRetry (s : Secret) (m : Memory) :
    asked t (countRetry s) m = [(.replaceSecret s.retried.1, m)] := by
  have hask : asked t (ask (.replaceSecret s.retried.1)) m = _ := asked_ask _ m
  unfold countRetry
  cases hr : (m.talk t (ask (.replaceSecret s.retried.1)).run).1 with
  | error e => rw [asked_bind_error hr, hask]
  | ok s' =>
    rw [asked_bind_ok hr, hask]
    rfl

section Accounting

variable (ctx : Context) (c : ManagedCluster) (s : Secret) (e : Error) (m : Memory)

theorem talk_telling :
    m.talk ctx.now (attempt (telling ctx c e)).run = (.ok (told ctx c e m).1, (told ctx c e m).2) :=
  talk_attempt (telling ctx c e) m

theorem talk_counting : (told ctx c e m).2.talk ctx.now (attempt (countRetry s)).run =
    (.ok (((counted ctx c s e m).1.mapError .hub).map fun _ => ()), (counted ctx c s e m).2) := by
  rw [talk_attempt, talk_countRetry]
  rfl

theorem talk_accounting : m.talk ctx.now (accounting ctx c s (.hub e)).run =
    (.error (combined e (told ctx c e m).1 (counted ctx c s e m).1),
      (counted ctx c s e m).2) := by
  refine (talk_bind_ok (congrArg Prod.fst (talk_telling ctx c e m)) _).trans ?_
  rw [talk_telling]
  refine (talk_bind_ok (congrArg Prod.fst (talk_counting ctx c s e m)) _).trans ?_
  rw [talk_counting]
  refine Prod.ext (congrArg Except.error ?_) rfl
  cases (told ctx c e m).1 <;> cases (counted ctx c s e m).1 <;> rfl

theorem asked_accounting : asked ctx.now (accounting ctx c s (.hub e)) m =
    asked ctx.now (telling ctx c e) m ++
      [(.replaceSecret s.retried.1, (told ctx c e m).2)] := by
  refine (asked_bind_ok (congrArg Prod.fst (talk_telling ctx c e m)) _).trans ?_
  rw [talk_telling]
  refine congrArg₂ _ (asked_attempt _ m) ?_
  refine (asked_bind_ok (congrArg Prod.fst (talk_counting ctx c s e m)) _).trans ?_
  rw [asked_attempt, asked_countRetry]
  rfl

end Accounting

/-- The secret is where it was when it is written, as telling of the refusal leaves it alone. -/
theorem secrets_told (h : Before c m d m₁) (e : Error) :
    (told ctx c e m₁).2.secrets = m₁.secrets := by
  have hkept : Meets ctx.now (fun _ _ => True) (fun _ m' => Gates.Kept m₁ m')
      (telling ctx c e) m₁ := Gates.setConditions_kept (fun _ _ _ => trivial) h _
  exact hkept.run.2

theorem accounts {r : Except Failure α} {m' : Memory} {after : List (Request × Memory)} {e : Error}
    (hs : m₁.secrets.get? (autoImportKey c) = some s) (hkey : s.key = autoImportKey c)
    (h : Before c m d m₁) (hafter : after = asked ctx.now (accounting ctx c s (.hub e)) m₁)
    (hr : r = .error (combined e (told ctx c e m₁).1 (counted ctx c s e m₁).1))
    (hm' : m' = (counted ctx c s e m₁).2) : Accounts ctx c s e m₁ after r m' := by
  have htold : (told ctx c e m₁).2.secrets.get? (autoImportKey c) = some s := by
    rw [secrets_told h e, hs]
  have hgives : Hub.Memory.Gives (told ctx c e m₁).2 _ (counted ctx c s e m₁) :=
    Hub.Memory.replaceSecret_gives s.retried.1
  rw [Secret.key_retried, hkey] at hgives
  subst hm'
  refine ⟨hafter.trans (asked_accounting ctx c s e m₁), hr, rfl, ?_, ?_⟩
  · revert hgives
    obtain ⟨g | s', m'⟩ := counted ctx c s e m₁
    · exact fun halike _ _ => (halike.secrets ▸ htold :)
    · exact fun _ _ hg => nomatch hg
  · revert hgives
    obtain ⟨g | s', m'⟩ := counted ctx c s e m₁
    · exact fun _ _ hs' => nomatch hs'
    · rintro ⟨rfl, -, hstored⟩ s'' hs''
      cases hs''
      exact ⟨hstored, Secret.countsTo_retried s _⟩

/-! ## Up to the refusal -/

/-- The pass begins in `m₁` as part of one that has begun in `m`.  It meets with no refusal of the
work with the kubeconfig, or goes on from it to account for it. -/
def Ends (ctx : Context) (name : String) (m : Memory) (p : Pass α) (m₁ : Memory) : Prop :=
  Calm name ctx.now p m₁ ∨ ∃ c s e before x after, m.clusters.get? name = some c ∧
    m.secrets.get? ⟨name, Names.autoImportSecret⟩ = some s ∧
    asked ctx.now p m₁ = before ++ x :: after ∧ Refuses name e x ∧
    Accounts ctx c s e (x.2.answer ctx.now x.1).2 after (m₁.talk ctx.now p.run).1
      (m₁.talk ctx.now p.run).2

theorem ends_of_behaves (h : ∀ label, Behaves label p) : Ends ctx name m p m₁ :=
  Or.inl (calm_of_behaves h name ctx.now m₁)

theorem ends_bind (hm₁ : m₁.Filed)
    (hp : Meets ctx.now (fun q m' => ∀ e, ¬Refuses name e (q, m'))
      (fun r m' => m'.Filed → ∀ a, r = .ok a → Ends ctx name m (f a) m') p m₁) :
    Ends ctx name m (p >>= f) m₁ := by
  obtain ⟨hcalm, hnext⟩ := Dialogue.meets_iff.mp hp
  have hcalm : Calm name ctx.now p m₁ := hcalm
  have hnext : ∀ a, (m₁.talk ctx.now p.run).1 = .ok a →
      Ends ctx name m (f a) (m₁.talk ctx.now p.run).2 := hnext (hm₁.talk ctx.now _)
  cases hr : (m₁.talk ctx.now p.run).1 with
  | error g =>
    refine Or.inl fun x hx => ?_
    rw [asked_bind_error hr] at hx
    exact hcalm x hx
  | ok a =>
    unfold Ends Calm
    rw [asked_bind_ok hr, talk_bind_ok hr]
    rcases hnext a hr with hrest | ⟨c, s, e, before, x, after, hc, hs, hasked, hx⟩
    · exact Or.inl fun x hx => (List.mem_append.mp hx).elim (hcalm x) (hrest x)
    · refine Or.inr ⟨c, s, e, asked ctx.now p m₁ ++ before, x, after, hc, hs, ?_, hx⟩
      rw [hasked, List.append_assoc]

/-- What is given in the end does not matter. -/
theorem Ends.map (h : Ends ctx name m p m₁) (g : α → β) :
    Ends ctx name m (p >>= fun a => pure (g a)) m₁ := by
  have hasked : asked ctx.now (p >>= fun a => pure (g a)) m₁ = asked ctx.now p m₁ := by
    cases hr : (m₁.talk ctx.now p.run).1 with
    | error e => exact asked_bind_error hr _
    | ok a => exact (asked_bind_ok hr _).trans (List.append_nil _)
  unfold Ends Calm
  rw [hasked]
  rcases h with hcalm | ⟨c, s, e, before, x, after, hc, hs, hasked, hx, haccounts⟩
  · exact Or.inl hcalm
  · rw [talk_bind_error haccounts.fails]
    exact Or.inr ⟨c, s, e, before, x, after, hc, hs, hasked, hx, haccounts.asks, rfl,
      haccounts.hub, haccounts.stays, haccounts.counts⟩

theorem handOver_ends {hosting : String} (hname : c.nameText = name)
    (hc : m.clusters.get? name = some c)
    (hs : m.secrets.get? ⟨name, Names.autoImportSecret⟩ = some s)
    (hkey : s.key = ⟨name, Names.autoImportSecret⟩) (h : Before c m d m₁) (hm₁ : m₁.Filed)
    (ready : Bool) : Ends ctx name m (handOver ctx c hosting ready s) m₁ := by
  subst hname
  unfold handOver
  split
  · exact ends_of_behaves fun label => conducts_failWith (admits_behaves _) _ _ _ _
  next desired hbuild =>
  rw [ManagedCluster.anyName_eq h.named] at hbuild
  have hdesired : desired.key.name = Names.kubeconfigWork c.nameText :=
    congrArg ObjectKey.name (HostedWork.key_kubeconfig hbuild)
  have htries : Tries c.nameText ctx.now (applyWork c desired) m₁ :=
    applyWork_tries (HostedWork.isOwn_of_kubeconfig hbuild).named hdesired (hm₁.works _) c
  have hattempt := talk_attempt (t := ctx.now) (applyWork c desired) m₁
  unfold Ends Calm
  rw [asked_bind_ok (congrArg Prod.fst hattempt), talk_bind_ok (congrArg Prod.fst hattempt),
    asked_attempt, hattempt]
  rcases htries with ⟨⟨w, hw⟩, hcalm⟩ | ⟨before, x, e, hasked, hrefuses, htalk, halike⟩
  · rw [hw]
    refine Or.inl fun x hx => (List.mem_append.mp hx).elim (hcalm x) fun hx => ?_
    refine calm_of_behaves (fun label => ?_) _ _ _ x hx
    exact conducts_bind (conducts_setConditions (admits_behaves _) _ _ _) fun _ =>
      conducts_consume (admits_behaves _) c s
  · rw [htalk, hasked]
    refine Or.inr ⟨c, s, e, before, x, _, hc, hs, List.append_assoc _ _ _, hrefuses, ?_⟩
    have hstored := (h.alike halike).secret.trans hs
    have haccounting := talk_accounting ctx c s e (x.2.answer ctx.now x.1).2
    exact accounts hstored hkey (h.alike halike) rfl (congrArg Prod.fst haccounting)
      (congrArg Prod.snd haccounting)

theorem bringAgent_ends {works : ClusterWorks} {hosting : String} {payload : Bytes}
    (hm : m.Filed) (hname : c.nameText = name) (hc : m.clusters.get? name = some c)
    (hlive : c.isDeleting = false) (h : Before c m d m₁) (hm₁ : m₁.Filed) :
    Ends ctx name m (bringAgent ctx c works hosting payload) m₁ := by
  unfold bringAgent
  split
  · exact ends_of_behaves fun label => conducts_failWith (admits_behaves _) _ _ _ _
  next agent hbuild =>
  have hagent : agent.key.name ≠ Names.kubeconfigWork name := by
    rw [HostedWork.key_klusterlet hbuild]
    exact Names.klusterletWork_ne_kubeconfigWork _ _
  have hnamed : agent.metadata.IsNamed := (HostedWork.isOwn_of_klusterlet hbuild).named
  refine ends_bind hm₁ (meets_attempt.mpr (applyWork_meets lax_calm hnamed (fun w hw => ?_)
    (hm₁.works _) (fun f m₂ _ => ?_) fun w m₂ hwithin _ _ => ?_))
  · -- this is the agent's work, not the one with the kubeconfig
    rw [← hw] at hagent
    exact ⟨fun e hrefuses => hagent hrefuses.1, fun e hrefuses => hagent hrefuses.1⟩
  · rintro - r ⟨rfl⟩
    exact ends_of_behaves fun label => conducts_failWith (admits_behaves _) _ _ _ _
  rintro hm₂ r ⟨rfl⟩
  have h₂ : Before c m d m₂ := h.within hwithin id id
  refine ends_bind hm₂ (syncFinalizer_live_meets lax_calm h.named h₂.stored h₂.bare hlive
    (fun _ _ _ _ _ hr => nomatch hr) fun d' m₃ hwithin₃ hd' hsync => ?_)
  rintro hm₃ r ⟨rfl⟩
  have h₃ : Before c m d' m₃ := h₂.synced hwithin₃ hd' hsync
  refine ends_bind hm₃ (getSecret_meets lax_calm.reads rfl ?_)
  rintro - r ⟨rfl⟩
  split
  · exact ends_of_behaves fun label => conducts_setConditions (admits_behaves _) _ _ _
  next s hs =>
  split
  · subst hname
    rw [ManagedCluster.anyName_eq h.named] at hs
    have hs₀ := h₃.secret.symm.trans hs
    exact handOver_ends rfl hc hs₀ (hm.secrets _ s hs₀) h₃ hm₃ _
  · exact ends_of_behaves fun label => conducts_setConditions (admits_behaves _) _ _ _

theorem importCluster_ends {works : ClusterWorks} (hm : m.Filed) (hname : c.nameText = name)
    (hc : m.clusters.get? name = some c) (hlive : c.isDeleting = false) (h : Before c m d m₁)
    (hm₁ : m₁.Filed) : Ends ctx name m (importCluster ctx c works) m₁ := by
  unfold importCluster
  dsimp only
  split
  · exact ends_of_behaves fun label => conducts_setConditions (admits_behaves _) _ _ _
  refine ends_bind hm₁ (getCluster_meets lax_calm.reads rfl ?_)
  rintro - r ⟨rfl⟩
  split
  · exact ends_of_behaves fun label => conducts_setConditions (admits_behaves _) _ _ _
  refine ends_bind hm₁ (getSecret_meets lax_calm.reads rfl ?_)
  rintro - r ⟨rfl⟩
  split
  · exact ends_of_behaves fun label => conducts_setConditions (admits_behaves _) _ _ _
  split
  · exact ends_of_behaves fun label => conducts_setConditions (admits_behaves _) _ _ _
  · exact bringAgent_ends hm hname hc hlive h hm₁

theorem reconcile_ends (ctx : Context) (name : String) (hm : m.Named) :
    Ends ctx name m (reconcile ctx name) m := by
  unfold reconcile
  refine ends_bind hm.toFiled (getCluster_meets lax_calm.reads rfl ?_)
  rintro - r ⟨rfl⟩
  cases hc : m.clusters.get? name with
  | none => exact ends_of_behaves fun label => conducts_pure _
  | some c =>
    have hname : c.nameText = name := hm.clusters name c hc
    have hstored : m.clusters.get? c.nameText = some c := hname.symm ▸ hc
    have hnamed : c.metadata.IsNamed := hm.clusterNames name c hc
    have h : Before c m c m := ⟨hnamed, hstored, rfl, rfl, rfl⟩
    dsimp only
    split
    · refine ends_bind hm.toFiled
        (listWorks_meets lax_calm.reads hnamed (fun _ _ _ _ _ _ hr => nomatch hr) ?_)
      rintro - r ⟨rfl⟩
      cases hdeleting : c.isDeleting with
      | true =>
        simp only [if_true]
        exact ends_of_behaves fun label =>
          conducts_bind (conducts_syncFinalizer (admits_behaves _) _ _ _) fun _ =>
            conducts_deletion (admits_behaves _) _ _ _
      | false =>
        simp only [Bool.false_eq_true, if_false]
        refine ends_bind hm.toFiled (syncFinalizer_live_meets lax_calm hnamed hstored rfl hdeleting
          (fun _ _ _ _ _ hr => nomatch hr) fun d m₁ hwithin hd hsync => ?_)
        rintro hm₁ r ⟨rfl⟩
        exact (importCluster_ends hm.toFiled hname hc hdeleting (h.synced hwithin hd hsync)
          hm₁).map _
    · exact ends_of_behaves fun label => conducts_pure _

/-! ## Whole passes -/

/-- The hub refuses the work with the kubeconfig, for whatever reason. -/
def refuses (name : String) : Request × Memory → Bool
  | (.createWork w, m) =>
    w.key.name == Names.kubeconfigWork name && !(m.createWork w).1.toBool
  | (.replaceWork w, m) =>
    w.key.name == Names.kubeconfigWork name && !(m.replaceWork w).1.toBool
  | _ => false

/-- The pass comes to the work with the kubeconfig, and it is refused. -/
def refused (ctx : Context) (name : String) (m : Memory) : Bool :=
  (asked ctx.now (reconcile ctx name) m).any (refuses name)

theorem exists_refuses {x : Request × Memory} (h : refuses name x = true) :
    ∃ e, Refuses name e x := by
  have herror {r : Except Error ManifestWork} (hr : (!r.toBool) = true) : ∃ e, r = .error e := by
    cases r with
    | error e => exact ⟨e, rfl⟩
    | ok w => cases hr
  obtain ⟨q, m⟩ := x
  cases q with
  | createWork w =>
    obtain ⟨hname, hr⟩ := Bool.and_eq_true_iff.mp h
    obtain ⟨e, he⟩ := herror hr
    exact ⟨e, beq_iff_eq.mp hname, he⟩
  | replaceWork w =>
    obtain ⟨hname, hr⟩ := Bool.and_eq_true_iff.mp h
    obtain ⟨e, he⟩ := herror hr
    exact ⟨e, beq_iff_eq.mp hname, he⟩
  | _ => cases h

/-- A work with the kubeconfig is refused in the pass, and what comes then accounts for it. -/
def Accounted (ctx : Context) (name : String) (m : Memory) : Prop :=
  ∃ c s e before x after, m.clusters.get? name = some c ∧
    m.secrets.get? ⟨name, Names.autoImportSecret⟩ = some s ∧
    asked ctx.now (reconcile ctx name) m = before ++ x :: after ∧ Refuses name e x ∧
    Accounts ctx c s e (x.2.answer ctx.now x.1).2 after (Run.outcome ctx name m)
      (Run.afterPass ctx name m)

theorem accounted_of_refused (hm : m.Named) (h : refused ctx name m = true) :
    Accounted ctx name m := by
  refine (reconcile_ends ctx name hm).resolve_left fun hcalm => ?_
  obtain ⟨x, hx, hrefuses⟩ := List.any_eq_true.mp h
  obtain ⟨e, he⟩ := exists_refuses hrefuses
  exact hcalm x hx e he

/-! ## Pass after pass -/

/-- If this is a write of a secret, the hub takes it. -/
def takes : Request × Memory → Bool
  | (.replaceSecret s, m) => (m.replaceSecret s).1.toBool
  | _ => true

/-- In every pass of the run the work with the kubeconfig is refused, and the write of the secret
is taken; nobody else touches the secret. -/
def fails (name : String) : List Happening → Memory → Bool
  | [], _ => true
  | .pass ctx :: rest, m =>
    refused ctx name m && (asked ctx.now (reconcile ctx name) m).all takes &&
      fails name rest (Run.afterPass ctx name m)
  | .change e :: rest, m =>
    decide ((e.apply m).secrets.get? ⟨name, Names.autoImportSecret⟩ =
      m.secrets.get? ⟨name, Names.autoImportSecret⟩) && fails name rest (e.apply m)

def passes : List Happening → Nat
  | [] => 0
  | .pass _ :: rest => passes rest + 1
  | .change _ :: rest => passes rest

/-- A pass of which the write of the secret is taken counts one more attempt. -/
theorem counted_pass (hm : m.Named)
    (hs : m.secrets.get? ⟨name, Names.autoImportSecret⟩ = some s)
    (h : refused ctx name m = true)
    (htakes : (asked ctx.now (reconcile ctx name) m).all takes = true) :
    ∃ s', (Run.afterPass ctx name m).secrets.get? ⟨name, Names.autoImportSecret⟩ = some s' ∧
      s.CountsTo (min (2 ^ 32 - 1) (s.retries + 1)) s' := by
  obtain ⟨c, s₀, e, before, x, after, hc, hs₀, hasked, -, haccounts⟩ := accounted_of_refused hm h
  rw [hs, Option.some.injEq] at hs₀
  subst hs₀
  have hname : c.nameText = name := hm.clusters name c hc
  generalize (x.2.answer ctx.now x.1).2 = m₁ at haccounts
  have hmem : (Request.replaceSecret s.retried.1, (told ctx c e m₁).2) ∈
      asked ctx.now (reconcile ctx name) m := by
    rw [hasked, haccounts.asks]
    simp
  have htaken : (counted ctx c s e m₁).1.toBool = true := List.all_eq_true.mp htakes _ hmem
  subst hname
  cases hr : (counted ctx c s e m₁).1 with
  | error g =>
    rw [hr] at htaken
    cases htaken
  | ok s' => exact ⟨s', haccounts.counts s' hr⟩

theorem counted_run (hm : m.Named) {run : List Happening} (hrun : Run.isNamed run = true)
    (hs : m.secrets.get? ⟨name, Names.autoImportSecret⟩ = some s)
    (h : fails name run m = true) :
    ∃ s', (Run.after name run m).secrets.get? ⟨name, Names.autoImportSecret⟩ = some s' ∧
      (passes run = 0 → s' = s) ∧
      (0 < passes run → s.CountsTo (min (2 ^ 32 - 1) (s.retries + passes run)) s') := by
  induction run generalizing m s with
  | nil => exact ⟨s, hs, fun _ => rfl, fun hpos => absurd hpos (Nat.lt_irrefl 0)⟩
  | cons x rest ih =>
    rw [Run.isNamed, List.all_cons, Bool.and_eq_true] at hrun
    cases x with
    | change e =>
      rw [fails, Bool.and_eq_true, decide_eq_true_eq] at h
      exact ih (hm.apply hrun.1) hrun.2 (h.1.trans hs) h.2
    | pass ctx =>
      rw [fails, Bool.and_eq_true, Bool.and_eq_true] at h
      obtain ⟨⟨hrefused, htakes⟩, hrest⟩ := h
      obtain ⟨s₁, hs₁, hone⟩ := counted_pass hm hs hrefused htakes
      obtain ⟨s', hs', hnone, hmany⟩ := ih (Run.named_afterPass hm ctx name) hrun.2 hs₁ hrest
      refine ⟨s', hs', fun hzero => absurd hzero (Nat.succ_ne_zero _), fun _ => ?_⟩
      rcases Nat.eq_zero_or_pos (passes rest) with hzero | hpos
      · rw [hnone hzero, passes, hzero]
        exact hone
      · -- the next pass reads the number that this one has written
        have hread : s₁.retries = min (2 ^ 32 - 1) (s.retries + 1) :=
          hone.retries (Nat.min_le_left _ _)
        have hsum : min (2 ^ 32 - 1) (s₁.retries + passes rest) =
            min (2 ^ 32 - 1) (s.retries + passes (.pass ctx :: rest)) := by
          rw [hread, passes]
          omega
        exact hsum ▸ hone.trans (hmany hpos)

/-- When the hub refuses the work with the kubeconfig, the pass tells of it and counts it,
whatever becomes of either.  After several passes with such a refusal whose writes of the secret
are taken, their number has been added to the count. -/
theorem attempts_counted (name : String) (hm : m.Named) :
    (∀ ctx, refused ctx name m = true → Accounted ctx name m) ∧
      ∀ run s, Run.isNamed run = true → m.secrets.get? ⟨name, Names.autoImportSecret⟩ = some s →
        fails name run m = true → 0 < passes run →
          ∃ s', (Run.after name run m).secrets.get? ⟨name, Names.autoImportSecret⟩ = some s' ∧
            s.CountsTo (min (2 ^ 32 - 1) (s.retries + passes run)) s' := by
  refine ⟨fun ctx h => accounted_of_refused hm h, fun run s hrun hs h hpos => ?_⟩
  obtain ⟨s', hs', -, hmany⟩ := counted_run hm hrun hs h
  exact ⟨s', hs', hmany hpos⟩

section Sample

open Sample

/-- The agent's work is reported as available, and there is a kubeconfig to hand over. -/
def ready : Memory :=
  Run.after "c" (setUp (hosted "c" "h") ++ [
    .change (.secret {
      metadata := { name := some Names.autoImportSecret, nspace := some "c" }
      data := some (.singleton Names.kubeconfig [0x6B, 0x63]) }),
    onePass,
    .change (.report ⟨"h", "c-hosted-klusterlet"⟩
      { conditions := [⟨Names.workAvailable, .true, "", "", none⟩] })]) {}

/-- Twice a work is to be refused, the first time together with the status of the cluster. -/
def twice : List Happening := [
  .change (.failure .createWork "no room"), .change (.failure .setStatus "no luck"), onePass,
  .change (.failure .createWork "no room"), onePass]

theorem two_attempts_counted : ∃ s s',
    ready.secrets.get? ⟨"c", Names.autoImportSecret⟩ = some s ∧ s.retries = 0 ∧
      (Run.after "c" twice ready).secrets.get? ⟨"c", Names.autoImportSecret⟩ = some s' ∧
        s.CountsTo 2 s' := by
  have hready : (ready.secrets.get? ⟨"c", Names.autoImportSecret⟩).map Secret.retries = some 0 ∧
      fails "c" twice ready = true := by decide +kernel
  obtain ⟨s, hs, hnone⟩ := Option.map_eq_some_iff.mp hready.1
  have hnamed : ready.Named := Run.named_after _ Hub.Memory.named_empty (by decide +kernel)
  obtain ⟨s', hs', hcount⟩ := (attempts_counted "c" hnamed).2 twice s (by decide) hs hready.2
    (by decide)
  rw [hnone] at hcount
  exact ⟨s, s', hs, hnone, hs', hcount⟩

end Sample

end Attempts
end Hosting
