import Hosting.Dialogue

/-!
# What is said in a dialogue

`Meets` speaks of a dialogue with one server: each question is asked in a state that admits
it, and the end is as wanted.  It goes through a sequence of dialogues one after the other
(`meets_bind`), and it says the same as the record of all questions and the outcome
(`meets_iff`).
-/

namespace Hosting
namespace Dialogue

variable {Q : Type} {A : Q → Type} {α β σ : Type} {answer : (q : Q) → σ → A q × σ}
  {allowed allowed' : Q → σ → Prop}

/-- Held with the server, the dialogue asks each question in a state that admits it, and
ends in a value and a state that fit `post`. -/
def Meets (answer : (q : Q) → σ → A q × σ) (allowed : Q → σ → Prop) (post : α → σ → Prop) :
    Dialogue Q A α → σ → Prop
  | .done a, s => post a s
  | .ask q next, s =>
    allowed q s ∧ Meets answer allowed post (next (answer q s).1) (answer q s).2

/-- The questions in their order, each with the state in which it is asked. -/
def trace (answer : (q : Q) → σ → A q × σ) : Dialogue Q A α → σ → List (Q × σ)
  | .done _, _ => []
  | .ask q next, s => (q, s) :: trace answer (next (answer q s).1) (answer q s).2

theorem meets_iff {post : α → σ → Prop} {d : Dialogue Q A α} {s : σ} :
    Meets answer allowed post d s ↔
      (∀ e ∈ trace answer d s, allowed e.1 e.2) ∧
        post (run answer d s).1 (run answer d s).2 := by
  induction d generalizing s with
  | done a => simp [Meets, trace, run]
  | ask q next ih => simp [Meets, trace, run, ih, and_assoc]

theorem trace_bind (d : Dialogue Q A α) (f : α → Dialogue Q A β) (s : σ) :
    trace answer (d >>= f) s =
      trace answer d s ++ trace answer (f (run answer d s).1) (run answer d s).2 := by
  induction d generalizing s with
  | done a => rfl
  | ask q next ih => exact congrArg (_ :: ·) (ih (answer q s).1 (answer q s).2)

theorem trace_map (d : Dialogue Q A α) (f : α → β) (s : σ) :
    trace answer (f <$> d) s = trace answer d s := by
  rw [map_eq_pure_bind, trace_bind]
  exact List.append_nil _

theorem Meets.run {post : α → σ → Prop} {d : Dialogue Q A α} {s : σ}
    (h : Meets answer allowed post d s) : post (d.run answer s).1 (d.run answer s).2 :=
  (meets_iff.mp h).2

@[simp] theorem meets_question {q : Q} {post : A q → σ → Prop} {s : σ} :
    Meets answer allowed post (question q) s ↔
      allowed q s ∧ post (answer q s).1 (answer q s).2 := Iff.rfl

@[simp] theorem meets_bind {post : β → σ → Prop} {d : Dialogue Q A α} {f : α → Dialogue Q A β}
    {s : σ} :
    Meets answer allowed post (d >>= f) s ↔
      Meets answer allowed (fun a s' => Meets answer allowed post (f a) s') d s := by
  induction d generalizing s with
  | done a => exact Iff.rfl
  | ask q next ih => exact and_congr_right fun _ => ih _

@[simp] theorem meets_map {post : β → σ → Prop} {d : Dialogue Q A α} {f : α → β} {s : σ} :
    Meets answer allowed post (f <$> d) s ↔
      Meets answer allowed (fun a s' => post (f a) s') d s := by
  rw [map_eq_pure_bind, meets_bind]
  exact Iff.rfl

theorem Meets.imp {post post' : α → σ → Prop} {d : Dialogue Q A α} {s : σ}
    (h : Meets answer allowed post d s) (hq : ∀ q s, allowed q s → allowed' q s)
    (hp : ∀ a s, post a s → post' a s) : Meets answer allowed' post' d s := by
  induction d generalizing s with
  | done a => exact hp a s h
  | ask q next ih => exact ⟨hq q s h.1, ih _ h.2⟩

/-- What the server keeps at each question that is admitted, it keeps all along. -/
theorem Meets.keeps {post : α → σ → Prop} {d : Dialogue Q A α} {s : σ} {inv : σ → Prop}
    (h : Meets answer allowed post d s)
    (hstep : ∀ q s, allowed q s → inv s → inv (answer q s).2) (hs : inv s) :
    Meets answer allowed (fun a s' => inv s' ∧ post a s') d s := by
  induction d generalizing s with
  | done a => exact ⟨hs, h⟩
  | ask q next ih => exact ⟨h.1, ih _ h.2 (hstep q s h.1 hs)⟩

/-! ## Whatever the answers -/

/-- What has been said: the questions in their order, each with its answer. -/
abbrev History (Q : Type) (A : Q → Type) : Type := List ((q : Q) × A q)

/-- Whatever it is answered, the dialogue goes on from what has been said with questions that
fit, and ends in a value that fits. -/
def Obeys (fits : History Q A → Q → Prop) (ends : History Q A → α → Prop) :
    Dialogue Q A α → History Q A → Prop
  | .done a, h => ends h a
  | .ask q next, h => fits h q ∧ ∀ a, Obeys fits ends (next a) (h ++ [⟨q, a⟩])

variable {fits : History Q A → Q → Prop} {h : History Q A}

@[simp] theorem obeys_question {q : Q} {ends : History Q A → A q → Prop} :
    Obeys fits ends (question q) h ↔ fits h q ∧ ∀ a, ends (h ++ [⟨q, a⟩]) a := Iff.rfl

@[simp] theorem obeys_bind {ends : History Q A → β → Prop} {d : Dialogue Q A α}
    {f : α → Dialogue Q A β} :
    Obeys fits ends (d >>= f) h ↔ Obeys fits (fun h' a => Obeys fits ends (f a) h') d h := by
  induction d generalizing h with
  | done a => exact Iff.rfl
  | ask q next ih => exact and_congr_right fun _ => forall_congr' fun a => ih a

@[simp] theorem obeys_map {ends : History Q A → β → Prop} {d : Dialogue Q A α} {f : α → β} :
    Obeys fits ends (f <$> d) h ↔ Obeys fits (fun h' a => ends h' (f a)) d h := by
  rw [map_eq_pure_bind, obeys_bind]
  exact Iff.rfl

theorem Obeys.imp {fits' : History Q A → Q → Prop} {ends ends' : History Q A → α → Prop}
    {d : Dialogue Q A α} (hd : Obeys fits ends d h) (hf : ∀ h' q, fits h' q → fits' h' q)
    (he : ∀ h' a, ends h' a → ends' h' a) : Obeys fits' ends' d h := by
  induction d generalizing h with
  | done a => exact he h a hd
  | ask q next ih => exact ⟨hf h q hd.1, fun a => ih a (hd.2 a)⟩

theorem Obeys.trace {fits : Q → Prop} {ends : History Q A → α → Prop} {d : Dialogue Q A α}
    (hd : Obeys (fun _ q => fits q) ends d h) (s : σ) :
    ∀ e ∈ Dialogue.trace answer d s, fits e.1 := by
  induction d generalizing h s with
  | done a =>
    intro e he
    cases he
  | ask q next ih =>
    intro e he
    rcases List.mem_cons.mp he with rfl | he
    · exact hd.1
    · exact ih _ (hd.2 _) _ e he

/-- What the server keeps at each question that fits, it keeps all along the dialogue. -/
theorem Obeys.keeps {fits : Q → Prop} {ends : History Q A → α → Prop} {d : Dialogue Q A α}
    {inv : σ → Prop} {s : σ} (hd : Obeys (fun _ q => fits q) ends d h)
    (hstep : ∀ q s, fits q → inv s → inv (answer q s).2) (hs : inv s) :
    inv (d.run answer s).2 := by
  induction d generalizing h s with
  | done a => exact hs
  | ask q next ih => exact ih _ (hd.2 _) (hstep q s hd.1 hs)

/-! ## What was said -/

/-- What has been said when the dialogue is over that was held with the server. -/
def transcript (answer : (q : Q) → σ → A q × σ) : Dialogue Q A α → σ → History Q A
  | .done _, _ => []
  | .ask q next, s =>
    ⟨q, (answer q s).1⟩ :: transcript answer (next (answer q s).1) (answer q s).2

@[simp] theorem transcript_pure (a : α) (s : σ) :
    transcript answer (pure a : Dialogue Q A α) s = [] := rfl

@[simp] theorem transcript_question (q : Q) (s : σ) :
    transcript answer (question q) s = [⟨q, (answer q s).1⟩] := rfl

theorem transcript_bind (d : Dialogue Q A α) (f : α → Dialogue Q A β) (s : σ) :
    transcript answer (d >>= f) s =
      transcript answer d s ++ transcript answer (f (run answer d s).1) (run answer d s).2 := by
  induction d generalizing s with
  | done a => rfl
  | ask q next ih => exact congrArg (_ :: ·) (ih (answer q s).1 (answer q s).2)

theorem transcript_map (d : Dialogue Q A α) (f : α → β) (s : σ) :
    transcript answer (f <$> d) s = transcript answer d s := by
  rw [map_eq_pure_bind, transcript_bind]
  exact List.append_nil _

end Dialogue
end Hosting
