import Hosting.Proofs.Dialogue
import Hosting.Proofs.Hub.Answer

/-!
# Updates that are tried again

`updateCluster_meets` tells all the ends that an update can come to, however often it is
tried: a refusal, a cluster that needs no edit, or the edit of the cluster as it is stored.
`updateCluster_obeys` says what an update does whatever the hub answers: it writes nothing but
the edit of the copy that it has read just before, and nothing more once it has written.
`updateCluster_course` has all that is said on the way, attempt by attempt.
-/

namespace Hosting
namespace Hub

/-- The request removes a work, or what holds it. -/
def Request.IsRemoval : Request → Prop
  | .deleteWork _ | .releaseWork _ => True
  | _ => False

/-- All but removals are admitted. -/
def Lenient (allowed : Request → Memory → Prop) : Prop := ∀ q m, ¬q.IsRemoval → allowed q m

/-- The request may change a work. -/
def Request.IsWorkChange : Request → Prop
  | .createWork _ | .replaceWork _ | .deleteWork _ | .releaseWork _ => True
  | _ => False

/-- All that changes no work is admitted. -/
def Lax (allowed : Request → Memory → Prop) : Prop := ∀ q m, ¬q.IsWorkChange → allowed q m

/-- The request only looks something up. -/
def Request.IsRead : Request → Prop
  | .getCluster _ | .listWorks _ _ | .getWork _ | .getSecret _ | .listAddOns _ => True
  | _ => False

/-- All look-ups are admitted. -/
def Open (allowed : Request → Memory → Prop) : Prop := ∀ q m, q.IsRead → allowed q m

variable {t : Instant} {allowed : Request → Memory → Prop} {m : Memory}

theorem Lax.reads (hl : Lax allowed) : Open allowed := by
  intro q m hq
  refine hl q m fun hchange => ?_
  cases q <;> first | exact hq | exact hchange

theorem Lenient.lax (hl : Lenient allowed) : Lax allowed := by
  intro q m hq
  refine hl q m fun hremoval => hq ?_
  cases q <;> first | exact hremoval | exact trivial

theorem Lenient.reads (hl : Lenient allowed) : Open allowed := hl.lax.reads

theorem Lenient.puts (hl : Lenient allowed) (m : Memory) (w : ManifestWork) :
    allowed (.createWork w) m ∧ allowed (.replaceWork w) m := ⟨hl _ _ id, hl _ _ id⟩

open Memory

theorem ask_meets {q : Request} {did : q.Value → Memory → Prop} {post : q.Answer → Memory → Prop}
    (h : Gives m did (m.answer t q)) (ha : allowed q m)
    (herr : ∀ e m', Alike m m' → post (.error e) m') (hok : ∀ a m', did a m' → post (.ok a) m') :
    (ask q).Meets (Memory.answer t) allowed post m := by
  refine ⟨ha, ?_⟩
  revert h
  generalize m.answer t q = r
  obtain ⟨r | a, m'⟩ := r
  · exact herr r m'
  · exact hok a m'

variable {name : String} {part : Part} {edit : ManagedCluster → Option ManagedCluster}
  {d : ManagedCluster}

theorem write_meets (hl : Lax allowed) {e : ManagedCluster}
    (hd : m.clusters.get? e.nameText = some d) {post : Except Error ManagedCluster → Memory → Prop}
    (herr : ∀ f m', Alike m m' → post (.error f) m')
    (hok : ∀ u m', Updated part e.nameText d e m m' → post (.ok u) m') :
    (part.write e).Meets (Memory.answer t) allowed post m := by
  have h := write_gives (m := m) t part e
  have hok' : ∀ (u : ManagedCluster) m', (∃ d, m.clusters.get? e.nameText = some d ∧
      Updated part e.nameText d e m m') → post (.ok u) m' := by
    rintro u m' ⟨d', hd', hu⟩
    rw [hd, Option.some.injEq] at hd'
    subst hd'
    exact hok u m' hu
  cases part with
  | status => exact ask_meets h (hl _ _ id) herr hok'
  | finalizers => exact ask_meets h (hl _ _ id) herr hok'

theorem tryUpdate_meets (hl : Lax allowed) (hd : m.clusters.get? name = some d)
    (hname : ∀ e, edit d = some e → e.nameText = name) {post : Update × Bool → Memory → Prop}
    (herr : ∀ e m' late, Alike m m' → post (⟨.error e, [d]⟩, late) m')
    (hsame : edit d = none → post (⟨.ok false, [d]⟩, false) m)
    (hdone : ∀ e m', edit d = some e → Updated part name d e m m' →
      post (⟨.ok true, [d]⟩, false) m') :
    (tryUpdate name part edit).Meets (Memory.answer t) allowed post m := by
  have hans : Memory.answer t (.getCluster name) m = (.ok (some d), m) := by
    rw [← hd]
    rfl
  unfold tryUpdate ask
  rw [Dialogue.meets_bind, Dialogue.meets_question, hans]
  refine ⟨hl _ _ id, ?_⟩
  dsimp only
  cases he : edit d with
  | none => exact hsame he
  | some e =>
    dsimp only
    rw [Dialogue.meets_bind]
    have hn : e.nameText = name := hname e he
    subst hn
    refine write_meets hl hd (fun f m' hs => ?_) (fun u m' hu => ?_)
    · exact herr f m' _ hs
    · exact hdone e m' he hu

/-- All the ends of an update: it is refused, or finds nothing to do, or does what it was
to do to the cluster as it is stored. -/
theorem updateCluster_meets (hl : Lax allowed) (hd : m.clusters.get? name = some d)
    (hname : ∀ e, edit d = some e → e.nameText = name) {post : Update → Memory → Prop}
    (herr : ∀ e seen m', Alike m m' → post ⟨.error e, seen⟩ m')
    (hsame : edit d = none → ∀ seen m', seen.getLast? = some d → Alike m m' →
      post ⟨.ok false, seen⟩ m')
    (hdone : ∀ e, edit d = some e → ∀ seen m', seen.getLast? = some d →
      Updated part name d e m m' → post ⟨.ok true, seen⟩ m') (retries : Nat) :
    (updateCluster name part edit retries).Meets (Memory.answer t) allowed post m := by
  induction retries generalizing m post with
  | zero =>
    unfold updateCluster
    rw [Dialogue.meets_map]
    exact tryUpdate_meets hl hd hname (fun e m' _ hs => herr e _ m' hs)
      (fun he => hsame he [d] m rfl (Alike.refl m)) fun e m' he hu => hdone e he [d] m' rfl hu
  | succ n ih =>
    unfold updateCluster
    rw [Dialogue.meets_bind]
    refine tryUpdate_meets hl hd hname (fun e m₁ late hs => ?_) (fun he => ?_) fun e m' he hu => ?_
    · cases late with
      | false => exact herr e _ m₁ hs
      | true =>
        -- refused as a conflict: all is as before, and the next attempt reads the same cluster
        dsimp only
        rw [if_pos rfl, Dialogue.meets_bind]
        have hlast (seen : List ManagedCluster) (h : seen.getLast? = some d) :
            ([d] ++ seen).getLast? = some d := by
          rw [List.getLast?_append, h]
          rfl
        refine ih (hs.clusters ▸ hd) (fun f seen m' hs' => ?_) (fun hf seen m' hseen hs' => ?_)
          fun f hf seen m' hseen hu => ?_
        · exact herr f _ m' (hs.trans hs')
        · exact hsame hf _ m' (hlast seen hseen) (hs.trans hs')
        · exact hdone f hf _ m' (hlast seen hseen) (hu.of_alike hs)
    · exact hsame he [d] m rfl (Alike.refl m)
    · exact hdone e he [d] m' rfl hu

/-! ## Whatever the hub answers -/

/-- A cluster was written. -/
def wrote : (q : Request) × q.Answer → Bool
  | ⟨.setFinalizers _, .ok _⟩ | ⟨.setStatus _, .ok _⟩ => true
  | _ => false

variable {h₀ h : Dialogue.History Request Request.Answer}

/-- Since `h₀` no cluster was written. -/
def Unwritten (h₀ h : Dialogue.History Request Request.Answer) : Prop :=
  ∃ h', h = h₀ ++ h' ∧ ∀ s ∈ h', wrote s = false

/-- An update reads the cluster, or writes the edit of the copy that it has just read. -/
def Attempts (name : String) (part : Part) (edit : ManagedCluster → Option ManagedCluster)
    (h₀ h : Dialogue.History Request Request.Answer) (q : Request) : Prop :=
  Unwritten h₀ h ∧ (q = .getCluster name ∨
    ∃ d e, h.getLast? = some ⟨.getCluster name, .ok (some d)⟩ ∧ edit d = some e ∧
      q = part.request e)

/-- The end of an update tells whether it has written; when it says that it had nothing to
write, it has just seen that. -/
def Concludes (name : String) (edit : ManagedCluster → Option ManagedCluster)
    (h₀ h : Dialogue.History Request Request.Answer) (u : Update) : Prop :=
  match u.written with
  | .ok true => ∃ h' s, Unwritten h₀ h' ∧ wrote s = true ∧ h = h' ++ [s]
  | .ok false => Unwritten h₀ h ∧ ∃ x, h.getLast? = some ⟨.getCluster name, .ok x⟩ ∧
      ∀ d, x = some d → edit d = none
  | .error _ => Unwritten h₀ h

theorem Unwritten.snoc {s : (q : Request) × q.Answer} (hh : Unwritten h₀ h)
    (hs : wrote s = false) : Unwritten h₀ (h ++ [s]) := by
  obtain ⟨h', rfl, hnone⟩ := hh
  refine ⟨h' ++ [s], List.append_assoc _ _ _, fun x hx => ?_⟩
  rcases List.mem_append.mp hx with hx | hx
  · exact hnone x hx
  · rw [List.mem_singleton.mp hx, hs]

theorem tryUpdate_obeys (hh : Unwritten h₀ h) :
    (tryUpdate name part edit).Obeys (Attempts name part edit h₀)
      (fun h' r => Concludes name edit h₀ h' r.1 ∧ (r.2 = true → Unwritten h₀ h')) h := by
  unfold tryUpdate ask
  rw [Dialogue.obeys_bind, Dialogue.obeys_question]
  refine ⟨⟨hh, Or.inl rfl⟩, fun a => ?_⟩
  rcases a with f | c
  · exact ⟨hh.snoc rfl, fun _ => hh.snoc rfl⟩
  have hread : Unwritten h₀ (h ++ [⟨.getCluster name, .ok c⟩]) := hh.snoc rfl
  cases c with
  | none =>
    refine ⟨⟨hread, none, List.getLast?_concat, fun d hd => ?_⟩, fun _ => hread⟩
    cases hd
  | some d =>
    dsimp only
    cases he : edit d with
    | none =>
      refine ⟨⟨hread, some d, List.getLast?_concat, fun d' hd' => ?_⟩, fun _ => hread⟩
      rw [← Option.some.inj hd', he]
    | some e =>
      have hfits : Attempts name part edit h₀ (h ++ [⟨.getCluster name, .ok (some d)⟩])
          (part.request e) := ⟨hread, Or.inr ⟨d, e, List.getLast?_concat, he, rfl⟩⟩
      cases part with
      | status =>
        rw [Dialogue.obeys_bind]
        refine Dialogue.obeys_question.mpr ⟨hfits, fun a => ?_⟩
        rcases a with f | u
        · exact ⟨hread.snoc rfl, fun _ => hread.snoc rfl⟩
        · exact ⟨⟨_, _, hread, rfl, rfl⟩, fun hlate => nomatch hlate⟩
      | finalizers =>
        rw [Dialogue.obeys_bind]
        refine Dialogue.obeys_question.mpr ⟨hfits, fun a => ?_⟩
        rcases a with f | u
        · exact ⟨hread.snoc rfl, fun _ => hread.snoc rfl⟩
        · exact ⟨⟨_, _, hread, rfl, rfl⟩, fun hlate => nomatch hlate⟩

/-- However often it is tried, an update writes at most once. -/
theorem updateCluster_obeys (hh : Unwritten h₀ h) (retries : Nat) :
    (updateCluster name part edit retries).Obeys (Attempts name part edit h₀)
      (Concludes name edit h₀) h := by
  induction retries generalizing h with
  | zero =>
    unfold updateCluster
    rw [Dialogue.obeys_map]
    exact (tryUpdate_obeys hh).imp (fun _ _ hq => hq) fun h' r hr => hr.1
  | succ n ih =>
    unfold updateCluster
    rw [Dialogue.obeys_bind]
    refine (tryUpdate_obeys hh).imp (fun _ _ hq => hq) ?_
    rintro h' ⟨first, late⟩ ⟨hends, hlate⟩
    cases late with
    | false => exact hends
    | true =>
      dsimp only
      rw [if_pos rfl, Dialogue.obeys_bind]
      exact (ih (hlate rfl)).imp (fun _ _ hq => hq) fun h'' u hu => hu

/-! ## The course of an update -/

/-- The write of the part, with its answer. -/
def Part.said (p : Part) (c : ManagedCluster) (a : Except Error ManagedCluster) :
    (q : Request) × q.Answer :=
  match p with
  | .status => ⟨.setStatus c, a⟩
  | .finalizers => ⟨.setFinalizers c, a⟩

/-- All that is said in an update that may be tried again so many times, and how it ends. -/
inductive Course (name : String) (part : Part) (edit : ManagedCluster → Option ManagedCluster) :
    Nat → Dialogue.History Request Request.Answer → Update → Prop where
  | unread {n : Nat} {f : Error} :
    Course name part edit n [⟨.getCluster name, .error f⟩] ⟨.error f, []⟩
  | gone {n : Nat} : Course name part edit n [⟨.getCluster name, .ok none⟩] ⟨.ok false, []⟩
  | unchanged {n : Nat} {d : ManagedCluster} (he : edit d = none) :
    Course name part edit n [⟨.getCluster name, .ok (some d)⟩] ⟨.ok false, [d]⟩
  | stored {n : Nat} {d e u : ManagedCluster} (he : edit d = some e) :
    Course name part edit n [⟨.getCluster name, .ok (some d)⟩, part.said e (.ok u)] ⟨.ok true, [d]⟩
  | refused {n : Nat} {d e : ManagedCluster} {f : Error} (he : edit d = some e)
      (hlast : n = 0 ∨ f.isConflict = false) :
    Course name part edit n [⟨.getCluster name, .ok (some d)⟩, part.said e (.error f)]
      ⟨.error f, [d]⟩
  | again {n : Nat} {d e : ManagedCluster} {f : Error}
      {h : Dialogue.History Request Request.Answer} {u : Update} (he : edit d = some e)
      (hlate : f.isConflict = true) (rest : Course name part edit n h u) :
    Course name part edit (n + 1)
      (⟨.getCluster name, .ok (some d)⟩ :: part.said e (.error f) :: h) ⟨u.written, d :: u.seen⟩

variable {σ : Type}

open Dialogue (run transcript)

/-- One attempt ends the update, unless it comes too late. -/
theorem tryUpdate_course (answer : (q : Request) → σ → q.Answer × σ) (s : σ) :
    ((run answer (tryUpdate name part edit) s).1.2 = false ∧
      ∀ n, Course name part edit n (transcript answer (tryUpdate name part edit) s)
        (run answer (tryUpdate name part edit) s).1.1) ∨
    ∃ d e f, edit d = some e ∧ f.isConflict = true ∧
      (run answer (tryUpdate name part edit) s).1 = (⟨.error f, [d]⟩, true) ∧
      transcript answer (tryUpdate name part edit) s =
        [⟨.getCluster name, .ok (some d)⟩, part.said e (.error f)] := by
  unfold tryUpdate ask
  rw [Dialogue.run_bind, Dialogue.transcript_bind, Dialogue.run_question,
    Dialogue.transcript_question]
  generalize answer (.getCluster name) s = read
  obtain ⟨f | _ | d, s'⟩ := read
  · exact Or.inl ⟨rfl, fun _ => .unread⟩
  · exact Or.inl ⟨rfl, fun _ => .gone⟩
  dsimp only
  cases he : edit d with
  | none => exact Or.inl ⟨rfl, fun _ => .unchanged he⟩
  | some e =>
    dsimp only
    rw [Dialogue.run_bind, Dialogue.transcript_bind]
    obtain ⟨a, s'', hrun, hsaid⟩ : ∃ a s'', run answer (part.write e) s' = (a, s'') ∧
        transcript answer (part.write e) s' = [part.said e a] := by
      cases part <;> exact ⟨_, _, rfl, rfl⟩
    rw [hrun, hsaid]
    cases a with
    | ok u => exact Or.inl ⟨rfl, fun _ => .stored he⟩
    | error f =>
      cases hlate : f.isConflict with
      | false => exact Or.inl ⟨hlate, fun _ => .refused he (.inr hlate)⟩
      | true =>
        refine Or.inr ⟨d, e, f, he, hlate, ?_, rfl⟩
        exact congrArg (Prod.mk (Update.mk (.error f) [d])) hlate

theorem updateCluster_course (answer : (q : Request) → σ → q.Answer × σ) (s : σ)
    (retries : Nat) :
    Course name part edit retries (transcript answer (updateCluster name part edit retries) s)
      (run answer (updateCluster name part edit retries) s).1 := by
  induction retries generalizing s with
  | zero =>
    unfold updateCluster
    rw [Dialogue.transcript_map, map_eq_pure_bind, Dialogue.run_bind]
    obtain ⟨-, hends⟩ | ⟨d, e, f, he, -, hrun, hsaid⟩ :=
      tryUpdate_course answer s
    · exact hends 0
    · rw [hrun, hsaid]
      exact .refused he (.inl rfl)
  | succ n ih =>
    unfold updateCluster
    rw [Dialogue.run_bind, Dialogue.transcript_bind]
    obtain ⟨hlate, hends⟩ | ⟨d, e, f, he, hlate, hrun, hsaid⟩ :=
      tryUpdate_course answer s
    · revert hlate hends
      generalize run answer (tryUpdate name part edit) s = r
      obtain ⟨⟨first, late⟩, s'⟩ := r
      rintro rfl hends
      dsimp only
      rw [if_neg Bool.false_ne_true, Dialogue.transcript_pure, List.append_nil]
      exact hends (n + 1)
    · generalize (run answer (tryUpdate name part edit) s).2 = s' at *
      rw [hrun, hsaid]
      dsimp only
      rw [if_pos rfl, Dialogue.run_bind, Dialogue.transcript_bind, Dialogue.transcript_pure,
        List.append_nil]
      exact .again he hlate (ih s')

end Hub
end Hosting
