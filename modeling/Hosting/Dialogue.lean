/-!
Programs that talk to a server.  A dialogue is what such a program does, whatever the
server: `run` holds it with one that answers out of a state of its own.  Running two
dialogues in sequence is running the first and then the second (`run_bind`).
-/

namespace Hosting

/-- Either done, or asking a question and going on with the answer. -/
inductive Dialogue (Q : Type) (A : Q → Type) (α : Type) where
  | done (a : α)
  | ask (q : Q) (next : A q → Dialogue Q A α)

namespace Dialogue

variable {Q : Type} {A : Q → Type} {α β γ σ : Type}

def bind : Dialogue Q A α → (α → Dialogue Q A β) → Dialogue Q A β
  | .done a, f => f a
  | .ask q next, f => .ask q fun x => bind (next x) f

instance : Monad (Dialogue Q A) where
  pure := .done
  bind := bind

/-- Ask a single question. -/
def question (q : Q) : Dialogue Q A (A q) := .ask q .done

/-- Hold the dialogue with a server that answers out of its state. -/
def run (answer : (q : Q) → σ → A q × σ) : Dialogue Q A α → σ → α × σ
  | .done a, s => (a, s)
  | .ask q next, s => run answer (next (answer q s).1) (answer q s).2

theorem bind_done (d : Dialogue Q A α) : d.bind .done = d := by
  induction d with
  | done a => rfl
  | ask q next ih => exact congrArg (ask q) (funext ih)

theorem bind_assoc (d : Dialogue Q A α) (f : α → Dialogue Q A β) (g : β → Dialogue Q A γ) :
    (d.bind f).bind g = d.bind fun a => (f a).bind g := by
  induction d with
  | done a => rfl
  | ask q next ih => exact congrArg (ask q) (funext ih)

instance : LawfulMonad (Dialogue Q A) :=
  LawfulMonad.mk' _ bind_done (fun _ _ => rfl) bind_assoc

@[simp] theorem run_pure (answer : (q : Q) → σ → A q × σ) (a : α) (s : σ) :
    run answer (pure a) s = (a, s) := rfl

@[simp] theorem run_question (answer : (q : Q) → σ → A q × σ) (q : Q) (s : σ) :
    run answer (question q) s = answer q s := rfl

theorem run_bind (answer : (q : Q) → σ → A q × σ) (d : Dialogue Q A α)
    (f : α → Dialogue Q A β) (s : σ) :
    run answer (d >>= f) s = run answer (f (run answer d s).1) (run answer d s).2 := by
  induction d generalizing s with
  | done a => rfl
  | ask q next ih => exact ih (answer q s).1 (answer q s).2

end Dialogue
end Hosting
