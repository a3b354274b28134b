import Hosting.Proofs.Run

/-!
# Deadlines

The clock decides whether the works of a deleting cluster are forced away, and whether a work
may still outlive it.  Both decisions count from the second in which the deletion was asked for
(`Instant.Reached`), so that each of them turns once, at its deadline, and stays (`Timely`).  A pass
leaves alone all that they read of the cluster (`Tended.terms_eq`); along a run with a forward clock
no pass takes back what an earlier one decided (`decisions_last`).
-/

namespace Hosting

namespace Duration

/-- Without a fraction of a second. -/
def IsWhole (d : Duration) : Prop := d.nanos % 1000000000 = 0

theorem isWhole_ofSeconds (n : Nat) : (ofSeconds n).IsWhole := Nat.mul_mod_left n 1000000000

end Duration

namespace Instant

variable {t t' u : Instant} {d : Duration}

/-- What a clock can show: a time in a second, or in the leap second after it. -/
def IsReading (t : Instant) : Prop := t.nano < 2 * nanosPerSecond

instance (t : Instant) : Decidable t.IsReading := inferInstanceAs (Decidable (_ < _))

instance : LE Instant :=
  ⟨fun t t' => t.second < t'.second ∨ t.second = t'.second ∧ t.nano ≤ t'.nano⟩

theorem le_iff : t ≤ t' ↔ t.second < t'.second ∨ t.second = t'.second ∧ t.nano ≤ t'.nano := Iff.rfl

instance (t t' : Instant) : Decidable (t ≤ t') := decidable_of_iff _ le_iff.symm

/-- The instant that comes so long after the whole second of `u`. -/
def deadline (u : Instant) (d : Duration) : Instant :=
  ⟨u.second + (d.nanos / 1000000000 : Nat), d.nanos % 1000000000⟩

/-- The nanosecond that the clock `t` has come to in the count from `u`.  A leap second is counted
as the one after it, unless it is at an earlier time of day than `u`. -/
def nanoFrom (t u : Instant) : Int :=
  t.second * 1000000000 +
    if t.isLeap && t.secondOfDay < u.secondOfDay then (t.nano : Int) - 1000000000 else t.nano

/-- The clock `t` has come so far after the whole second of `u`. -/
def Reached (t u : Instant) (d : Duration) : Prop :=
  u.second * 1000000000 + d.nanos ≤ t.nanoFrom u

/-- For a clock that shows no leap second, a deadline is reached from its instant on. -/
theorem reached_iff_le (ht : t.IsPlain) : t.Reached u d ↔ u.deadline d ≤ t := by
  have hleap : t.isLeap = false := decide_eq_false (Nat.not_le.mpr ht)
  have hnano : t.nano < 1000000000 := ht
  rw [Reached, nanoFrom, hleap, le_iff]
  simp only [deadline, Bool.false_and, Bool.false_eq_true, if_false]
  omega

theorem le_trans (h : u ≤ t) (h' : t ≤ t') : u ≤ t' := by
  rw [le_iff] at h h' ⊢
  omega

/-- The second that the clock `t` has come to in the count from `u`. -/
def secondFrom (t u : Instant) : Int :=
  if t.isLeap && u.secondOfDay ≤ t.secondOfDay then t.second + 1 else t.second

/-- Whole seconds are counted by the second alone. -/
theorem reached_iff_second (ht : t.IsReading) (hd : d.IsWhole) :
    t.Reached u d ↔ u.second + (d.nanos / 1000000000 : Nat) ≤ t.secondFrom u := by
  have hnano : t.nano < 2 * 1000000000 := ht
  have hwhole : d.nanos % 1000000000 = 0 := hd
  unfold Reached nanoFrom secondFrom
  cases hleap : t.isLeap with
  | true =>
    have hlong : 1000000000 ≤ t.nano := of_decide_eq_true hleap
    simp only [Bool.true_and, decide_eq_true_eq]
    split <;> split <;> omega
  | false =>
    have hshort : ¬1000000000 ≤ t.nano := of_decide_eq_false hleap
    simp only [Bool.false_and, Bool.false_eq_true, if_false]
    omega

theorem secondFrom_mono (h : t ≤ t') (u : Instant) : t.secondFrom u ≤ t'.secondFrom u := by
  have hle := le_iff.mp h
  unfold secondFrom
  split
  · next hcount =>
    obtain ⟨hleap, hday⟩ := Bool.and_eq_true_iff.mp hcount
    rcases hle with hlt | ⟨heq, hnano⟩
    · split <;> omega
    · have hleap' : t'.isLeap = true :=
        decide_eq_true (Nat.le_trans (of_decide_eq_true hleap) hnano)
      have hday' : t'.secondOfDay = t.secondOfDay := by rw [secondOfDay, secondOfDay, heq]
      rw [hleap', hday', Bool.true_and, if_pos hday]
      omega
  · split <;> omega

end Instant

namespace Duration

variable {t t' : Instant} {timeout : Option Nat}

/-- Between the two clocks the count of such a time does not go back.  In a leap second it may, by
a fraction of a second at its begin or its end, which a number of whole seconds does not see. -/
def GoesOn (d : Duration) (t t' : Instant) : Prop := d.IsWhole ∨ t.IsPlain ∧ t'.IsPlain

theorem goesOn_of_seconds : ∀ d ∈ (timeout : Option Duration), d.GoesOn t t' := by
  intro d hd
  cases timeout with
  | none => cases hd
  | some n =>
    obtain rfl : Duration.ofSeconds n = d := Option.some.inj hd
    exact .inl (isWhole_ofSeconds n)

end Duration

namespace Instant

variable {t t' u : Instant} {d : Duration}

theorem Reached.mono (h : t.Reached u d) (ht : t.IsReading) (ht' : t'.IsReading) (hle : t ≤ t')
    (hd : d.GoesOn t t') : t'.Reached u d := by
  rcases hd with hwhole | ⟨hplain, hplain'⟩
  · rw [reached_iff_second ht hwhole] at h
    rw [reached_iff_second ht' hwhole]
    exact Int.le_trans h (secondFrom_mono hle u)
  · rw [reached_iff_le hplain] at h
    rw [reached_iff_le hplain']
    exact le_trans h hle

/-- The time since a whole second is what is counted from it. -/
theorem nanos_le_since_iff : (d.nanos : Int) ≤ t.since ⟨u.second, 0⟩ ↔ t.Reached u d := by
  have hplain : (⟨u.second, 0⟩ : Instant).isLeap = false := rfl
  have hday : (⟨u.second, 0⟩ : Instant).secondOfDay = u.secondOfDay := rfl
  unfold Reached since nanoFrom
  rw [hplain, hday]
  simp only [Bool.false_eq_true, if_false]
  cases t.isLeap with
  | true =>
    simp only [Bool.true_and, decide_eq_true_eq, if_true]
    split
    · rw [if_neg (by omega)]
      omega
    · split <;> omega
  | false =>
    simp only [Bool.false_and, Bool.false_eq_true, if_false]
    split <;> omega

/-- A plain instant in a year of four digits is told by its second. -/
theorem wholeSecond?_of_isPlain (hu : u.IsPlain) (h : 0 ≤ u.date.year ∧ u.date.year ≤ 9999) :
    u.wholeSecond? = some ⟨u.second, 0⟩ := by
  have hleap : u.isLeap = false := decide_eq_false (Nat.not_le.mpr hu)
  simp [wholeSecond?, h, truncated, hleap]

end Instant

namespace Conditions

/-- The first entries of some types say nothing of another one. -/
theorem find?_besides {type : String} {types : List String} (h : type ∉ types) (cs : Conditions) :
    find? (besides types cs) type = find? cs type := by
  induction cs generalizing types with
  | nil => rfl
  | cons x xs ih =>
    rw [besides, find?_cons]
    by_cases hx : x.type ∈ types
    · have hne : x.type ≠ type := fun he => h (he ▸ hx)
      rw [if_pos hx, if_neg hne]
      exact ih fun hmem => h (List.mem_of_mem_erase hmem)
    · rw [if_neg hx, find?_cons]
      by_cases he : x.type = type
      · rw [if_pos he, if_pos he]
      · rw [if_neg he, if_neg he]
        exact ih h

end Conditions

namespace ManagedCluster

variable {c d : ManagedCluster} {t t' : Instant} {o : Metadata} {timeout : Option Duration}
  {window : Duration}

/-- The deletion of the cluster, if any, was asked for outside of leap seconds and in a year of
four digits. -/
def Dated (c : ManagedCluster) : Prop :=
  ∀ u, c.metadata.deletionTimestamp = some u → u.IsPlain ∧ 0 ≤ u.date.year ∧ u.date.year ≤ 9999

theorem Dated.deletedAt?_eq (h : c.Dated) :
    c.deletedAt? = c.metadata.deletionTimestamp.map fun u => ⟨u.second, 0⟩ := by
  unfold deletedAt?
  cases hu : c.metadata.deletionTimestamp with
  | none => rfl
  | some u => exact Instant.wholeSecond?_of_isPlain (h u hu).1 (h u hu).2

/-- The cluster has been deleting for so long. -/
def DeletingFor (c : ManagedCluster) (t : Instant) (n : Duration) : Prop :=
  ∃ u, c.metadata.deletionTimestamp = some u ∧ t.Reached u n

theorem DeletingFor.mono {n : Duration} (h : c.DeletingFor t n) (ht : t.IsReading)
    (ht' : t'.IsReading) (hle : t ≤ t') (hn : n.GoesOn t t') : c.DeletingFor t' n :=
  h.imp fun _ hu => ⟨hu.1, hu.2.mono ht ht' hle hn⟩

/-- Without being reported available for too long, or unavailable. -/
theorem needsForce_iff (h : c.Dated) :
    c.needsForce t timeout = true ↔ c.isUnavailable = true ∨
      ∃ n, timeout = some n ∧ c.conditions.has Names.clusterAvailable .true = false ∧
        c.DeletingFor t n := by
  unfold needsForce DeletingFor
  rw [h.deletedAt?_eq]
  cases c.isUnavailable with
  | true => simp
  | false =>
    cases timeout with
    | none => simp
    | some n =>
      cases c.conditions.has Names.clusterAvailable .true with
      | true => simp
      | false =>
        cases c.metadata.deletionTimestamp with
        | none => simp
        | some u =>
          simp [← Instant.nanos_le_since_iff]
          omega

theorem postpones_iff (h : c.Dated) :
    c.postpones o t window = true ↔ (o.annotation? Names.postponeDeletion).isSome = true ∧
      c.isDeleting = true ∧ ¬c.DeletingFor t window := by
  unfold postpones DeletingFor isDeleting Metadata.isDeleting
  rw [h.deletedAt?_eq]
  cases o.annotation? Names.postponeDeletion with
  | none => simp
  | some _ =>
    cases c.metadata.deletionTimestamp with
    | none => simp
    | some u =>
      simp [← Instant.nanos_le_since_iff]
      omega

/-- A clock that has not come to the second of the deletion settles nothing. -/
theorem not_deletingFor_of_behind (h : ¬c.DeletingFor t 0) (n : Duration) :
    ¬c.DeletingFor t n := by
  rintro ⟨u, hu, hreached⟩
  refine h ⟨u, hu, Int.le_trans (Int.add_le_add_left ?_ _) hreached⟩
  exact Int.natCast_nonneg n.nanos

/-- How the decisions about the deletion of `c` turn with the clock. -/
structure Timely (c : ManagedCluster) : Prop where
  /-- What is to be forced stays to be forced. -/
  forced : ∀ timeout t t', t.IsReading → t'.IsReading → t ≤ t' →
    (∀ n ∈ timeout, n.GoesOn t t') → c.needsForce t timeout = true → c.needsForce t' timeout = true
  /-- What is not postponed any more stays due. -/
  due : ∀ o window t t', t.IsReading → t'.IsReading → t ≤ t' → window.GoesOn t t' →
    c.postpones o t window = false → c.postpones o t' window = false
  /-- Force is needed when the cluster is out of reach, and from the timeout on. -/
  forced_iff : ∀ timeout t, c.needsForce t timeout = true ↔
    c.isUnavailable = true ∨ ∃ n, timeout = some n ∧
      c.conditions.has Names.clusterAvailable .true = false ∧ c.DeletingFor t n
  /-- A work that asks for it is postponed until the end of the window. -/
  postponed_iff : ∀ o window t, c.postpones o t window = true ↔
    (o.annotation? Names.postponeDeletion).isSome = true ∧ c.isDeleting = true ∧
      ¬c.DeletingFor t window
  /-- Such a time is over from the instant on that comes so long after the whole second. -/
  instant : ∀ u t n, c.metadata.deletionTimestamp = some u → t.IsPlain →
    (c.DeletingFor t n ↔ u.deadline n ≤ t)
  /-- A clock behind the deletion has it neither timed out nor due. -/
  behind : ∀ t, ¬c.DeletingFor t 0 →
    (∀ timeout, c.needsForce t timeout = c.isUnavailable) ∧
    ∀ o window, c.postpones o t window =
      ((o.annotation? Names.postponeDeletion).isSome && c.isDeleting)
  /-- Within reach, only a deletion that may time out is forced. -/
  reason : ∀ timeout t, c.needsForce t timeout = true → c.isUnavailable = false →
    c.isDeleting = true ∧ timeout.isSome = true ∧
      c.conditions.has Names.clusterAvailable .true = false

theorem isDeleting_of_needsForce (h : c.needsForce t timeout = true)
    (hreach : c.isUnavailable = false) : c.isDeleting = true ∧ timeout.isSome = true ∧
      c.conditions.has Names.clusterAvailable .true = false := by
  unfold needsForce deletedAt? at h
  rw [hreach] at h
  cases timeout with
  | none => cases h
  | some n =>
    unfold isDeleting Metadata.isDeleting
    cases hdel : c.metadata.deletionTimestamp with
    | none => simp [hdel] at h
    | some u =>
      cases hup : c.conditions.has Names.clusterAvailable .true with
      | true => simp [hup] at h
      | false => exact ⟨rfl, rfl, rfl⟩

theorem timely (h : c.Dated) : c.Timely where
  forced timeout t t' ht ht' hle hgoes := by
    rw [needsForce_iff h, needsForce_iff h]
    exact Or.imp_right fun ⟨n, hn, hup, hfor⟩ => ⟨n, hn, hup, hfor.mono ht ht' hle (hgoes n hn)⟩
  due o window t t' ht ht' hle hgoes := by
    rw [← Bool.not_eq_true, ← Bool.not_eq_true, postpones_iff h, postpones_iff h]
    exact fun hdue hpostponed => hdue ⟨hpostponed.1, hpostponed.2.1,
      fun hfor => hpostponed.2.2 (hfor.mono ht ht' hle hgoes)⟩
  forced_iff _ _ := needsForce_iff h
  postponed_iff _ _ _ := postpones_iff h
  instant u t n hu ht := by
    simp [DeletingFor, hu, Instant.reached_iff_le ht]
  behind t hbehind := by
    have hnever := not_deletingFor_of_behind hbehind
    constructor
    · intro timeout
      rw [Bool.eq_iff_iff, needsForce_iff h]
      simp [hnever]
    · intro o window
      rw [Bool.eq_iff_iff, postpones_iff h]
      simp [hnever]
  reason _ _ := isDeleting_of_needsForce

/-! ## What the decisions read -/

/-- What of a cluster the decisions about its deletion go by. -/
def terms (c : ManagedCluster) : Option Instant × Option Condition :=
  (c.metadata.deletionTimestamp, c.conditions.find? Names.clusterAvailable)

theorem Tended.terms_eq (h : c.Tended d) : d.terms = c.terms := by
  have hdeleted : d.metadata.deletionTimestamp = c.metadata.deletionTimestamp := by
    show d.bare.metadata.deletionTimestamp = c.bare.metadata.deletionTimestamp
    rw [h.bare]
  have hother : Names.clusterAvailable ∉ progressTypes := by decide
  unfold terms
  rw [hdeleted, ← Conditions.find?_besides hother d.conditions,
    ← Conditions.find?_besides hother c.conditions, h.conditions]

theorem needsForce_of_terms (h : d.terms = c.terms) (t : Instant) (timeout : Option Duration) :
    d.needsForce t timeout = c.needsForce t timeout := by
  obtain ⟨hdeleted, havailable⟩ := Prod.mk.inj h
  unfold needsForce isUnavailable deletedAt? Conditions.has
  rw [hdeleted, havailable]

theorem postpones_of_terms (h : d.terms = c.terms) (o : Metadata) (t : Instant)
    (window : Duration) :
    d.postpones o t window = c.postpones o t window := by
  unfold postpones deletedAt?
  rw [(Prod.mk.inj h).1]

end ManagedCluster

open Hub (Memory)
open Pass

namespace Pass

/-- A deletion on the path that asks for no consent of the agent. -/
def forcedDeletion (ctx : Context) (c : ManagedCluster) (works : ClusterWorks) : Pass Outcome := do
  if works.isEmpty then return .done
  deleteByForce ctx c works
  let remaining ← listWorks c
  syncFinalizer ctx c remaining.total
  return if remaining.isEmpty then .done else .again ctx.settings.deletionRequeue

theorem deletion_of_needsForce {ctx : Context} {c : ManagedCluster}
    (h : c.needsForce ctx.now ctx.settings.silenceTimeout = true) (works : ClusterWorks) :
    deletion ctx c works = forcedDeletion ctx c works := by
  unfold deletion forcedDeletion
  rw [if_pos h]

end Pass

/-! ## Along a run -/

namespace Run

/-- A pass, and the state in which it begins. -/
structure Begun where
  ctx : Context
  hub : Memory

variable {name : String} {run : List Happening} {m m' m'' : Memory} {p q : Begun} {ps : List Begun}
  {timeout : Option Nat} {window : Nat}

def begun (name : String) : List Happening → Memory → List Begun
  | [], _ => []
  | .pass ctx :: rest, m => ⟨ctx, m⟩ :: begun name rest (afterPass ctx name m)
  | .change e :: rest, m => begun name rest (e.apply m)

/-- The cluster is as before in what the decisions about its deletion go by, or gone. -/
def Unchanged (name : String) (m m' : Memory) : Prop :=
  ∀ d, m'.clusters.get? name = some d → ∃ c, m.clusters.get? name = some c ∧ d.terms = c.terms

theorem Unchanged.trans (h : Unchanged name m m') (h' : Unchanged name m' m'') :
    Unchanged name m m'' := by
  intro e he
  obtain ⟨d, hd, hterms'⟩ := h' e he
  obtain ⟨c, hc, hterms⟩ := h d hd
  exact ⟨c, hc, hterms'.trans hterms⟩

/-- A pass takes care of the cluster without a word about its reach or its deletion. -/
theorem unchanged_afterPass (hm : m.Named) (ctx : Context) :
    Unchanged name m (afterPass ctx name m) := by
  intro d hd
  obtain ⟨c, hc, htended⟩ := (passed hm ctx name).tended_of_stored hd
  exact ⟨c, hc, htended.terms_eq⟩

/-- Nobody else changes the cluster in what the decisions about its deletion go by. -/
def Steady (name : String) : List Happening → Memory → Prop
  | [], _ => True
  | .pass ctx :: rest, m => Steady name rest (afterPass ctx name m)
  | .change e :: rest, m => Unchanged name m (e.apply m) ∧ Steady name rest (e.apply m)

/-- Whatever a steady run comes to, a pass begins with the cluster unchanged. -/
theorem unchanged_of_mem_begun (hm : m.Named) (hrun : isNamed run = true)
    (h : Steady name run m) (hp : p ∈ begun name run m) :
    p.hub.Named ∧ Unchanged name m p.hub := by
  induction run generalizing m with
  | nil => cases hp
  | cons e rest ih =>
    rw [isNamed, List.all_cons, Bool.and_eq_true] at hrun
    cases e with
    | pass ctx =>
      rcases List.mem_cons.mp hp with rfl | hp
      · exact ⟨hm, fun d hd => ⟨d, hd, rfl⟩⟩
      · obtain ⟨hnamed, hunchanged⟩ := ih (named_afterPass hm ctx name) hrun.2 h hp
        exact ⟨hnamed, (unchanged_afterPass hm ctx).trans hunchanged⟩
    | change e =>
      obtain ⟨hnamed, hunchanged⟩ := ih (hm.apply hrun.1) hrun.2 h.2 hp
      exact ⟨hnamed, h.1.trans hunchanged⟩

/-- The passes have the same timeout and window, and a clock that does not go back. -/
structure Forward (timeout : Option Nat) (window : Nat) (ps : List Begun) : Prop where
  timeout : ∀ p ∈ ps, p.ctx.settings.silenceTimeout = timeout
  window : ∀ p ∈ ps, p.ctx.settings.postponeWindow = window
  reading : ∀ p ∈ ps, p.ctx.now.IsReading
  clock : ps.Pairwise (·.ctx.now ≤ ·.ctx.now)

theorem Forward.tail (h : Forward timeout window (p :: ps)) :
    Forward timeout window ps where
  timeout q hq := h.timeout q (List.mem_cons_of_mem p hq)
  window q hq := h.window q (List.mem_cons_of_mem p hq)
  reading q hq := h.reading q (List.mem_cons_of_mem p hq)
  clock := (List.pairwise_cons.mp h.clock).2

def Dated (name : String) (m : Memory) : Prop := ∀ c, m.clusters.get? name = some c → c.Dated

theorem Dated.of_unchanged (h : Dated name m) (hunchanged : Unchanged name m m') :
    Dated name m' := by
  intro d hd
  obtain ⟨c, hc, hterms⟩ := hunchanged d hd
  intro u hu
  exact h c hc u ((Prod.mk.inj hterms).1 ▸ hu)

/-- What the pass `p` has decided about the deletion of the cluster `name` the pass `q` does not
take back. -/
def Lasts (name : String) (p q : Begun) : Prop :=
  ∀ c d, p.hub.clusters.get? name = some c → q.hub.clusters.get? name = some d →
    (c.needsForce p.ctx.now p.ctx.settings.silenceTimeout = true →
      d.needsForce q.ctx.now q.ctx.settings.silenceTimeout = true ∧
        ∀ works, deletion q.ctx d works = forcedDeletion q.ctx d works) ∧
    ∀ w, isDue p.ctx c w = true → isDue q.ctx d w = true

theorem lasts_of_unchanged (h : Forward timeout window (p :: ps)) (hq : q ∈ ps)
    (hp : p.hub.Named) (hnamed : q.hub.Named) (hunchanged : Unchanged name p.hub q.hub)
    (hdated : Dated name p.hub) : Lasts name p q := by
  intro c d hc hd
  obtain ⟨c', hc', hterms⟩ := hunchanged d hd
  rw [hc, Option.some.injEq] at hc'
  subst hc'
  have htimely := ManagedCluster.timely (hdated c hc)
  have hfirst : p ∈ p :: ps := List.mem_cons_self
  have hlast : q ∈ p :: ps := List.mem_cons_of_mem p hq
  have hreading := h.reading p hfirst
  have hreading' := h.reading q hlast
  have hclock : p.ctx.now ≤ q.ctx.now := (List.pairwise_cons.mp h.clock).1 q hq
  constructor
  · intro hforced
    have hlater : d.needsForce q.ctx.now q.ctx.settings.silenceTimeout = true := by
      rw [ManagedCluster.needsForce_of_terms hterms, h.timeout q hlast]
      rw [h.timeout p hfirst] at hforced
      exact htimely.forced _ _ _ hreading hreading' hclock Duration.goesOn_of_seconds hforced
    exact ⟨hlater, deletion_of_needsForce hlater⟩
  · intro w hdue
    have hname : d.anyName = c.anyName :=
      (hnamed.anyName_eq hd).trans (hp.anyName_eq hc).symm
    simp only [isDue, Bool.and_eq_true, Bool.not_eq_true'] at hdue ⊢
    rw [hname, ManagedCluster.postpones_of_terms hterms, h.window q hlast]
    rw [h.window p hfirst] at hdue
    exact ⟨hdue.1, htimely.due _ _ _ _ hreading hreading' hclock
      (.inl (Duration.isWhole_ofSeconds window)) hdue.2⟩

theorem lasts (hm : m.Named) (hrun : isNamed run = true) (hdated : Dated name m)
    (hsteady : Steady name run m) (hforward : Forward timeout window (begun name run m)) :
    (begun name run m).Pairwise (Lasts name) := by
  induction run generalizing m with
  | nil => exact List.Pairwise.nil
  | cons e rest ih =>
    rw [isNamed, List.all_cons, Bool.and_eq_true] at hrun
    cases e with
    | pass ctx =>
      have hafter : (afterPass ctx name m).Named := named_afterPass hm ctx name
      have hunchanged : Unchanged name m (afterPass ctx name m) := unchanged_afterPass hm ctx
      refine List.Pairwise.cons (fun q hq => ?_)
        (ih hafter hrun.2 (hdated.of_unchanged hunchanged) hsteady hforward.tail)
      obtain ⟨hnamed, hunchanged'⟩ := unchanged_of_mem_begun hafter hrun.2 hsteady hq
      exact lasts_of_unchanged hforward hq hm hnamed (hunchanged.trans hunchanged') hdated
    | change e =>
      exact ih (hm.apply hrun.1) hrun.2 (hdated.of_unchanged hsteady.1) hsteady.2 hforward

open Sample in
/-- A work of a deleting cluster that somebody else holds too. -/
def heldTwice : Memory :=
  after "c" (setUp { deleting (hosted "c" "h") with
      metadata := { (deleting (hosted "c" "h")).metadata with
        finalizers := some [Names.workFinalizer, "another"] } } ++
    [.change (.work (work "c" "w"))]) {}

/-- Passes at some seconds after the deletion, the second one as another work comes. -/
def passesAt (a b c : Nat) : List Happening := [
  .pass { now := Sample.now.deadline a },
  .change (.work (Sample.work "c" "late")),
  .pass { now := Sample.now.deadline b },
  .pass { now := Sample.now.deadline c }]

end Run
end Hosting
