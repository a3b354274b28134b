import Hosting.Probe
import Mathlib.Data.List.TakeWhile

/-!
# What the probes say

A probe is answered by the path of its target alone, whatever query follows it (`reply_append`).
The controller is said to be alive at all times, and to be ready exactly when it is (`answers`);
with `HEAD` the same is told as with `GET`, but for the body (`reply_head`).
-/

namespace Hosting
namespace Probe

section

variable {p q : String} (hp : ∀ c ∈ p.toList, (c != '?' && c != '#') = true)

include hp

theorem path_of_plain : path p = p := by
  rw [path, List.takeWhile_eq_self_iff.mpr hp, String.ofList_toList]

/-- What follows the path of a target, from a `?` or a `#` on, does not belong to it. -/
theorem path_append (hq : q.toList.head? = some '?' ∨ q.toList.head? = some '#') :
    path (p ++ q) = p := by
  have hstop : (q.toList.takeWhile fun c => c != '?' && c != '#') = [] := by
    cases hcs : q.toList with
    | nil => rfl
    | cons c cs =>
      rw [hcs] at hq
      refine List.takeWhile_cons_of_neg ?_
      rcases hq with hq | hq <;> simp [Option.some.inj hq]
  unfold path
  rw [String.toList_append, List.takeWhile_append_of_pos hp, hstop, List.append_nil,
    String.ofList_toList]

theorem reply_append (hq : q.toList.head? = some '?' ∨ q.toList.head? = some '#') (ready : Bool)
    (method : String) : reply ready method (p ++ q) = reply ready method p := by
  unfold reply
  rw [path_append hp hq, path_of_plain hp]

end

/-- What the answer to a probe tells. -/
structure Answers (ready : Bool) (method target : String) (r : Reply) : Prop where
  known : r.status ∈ [200, 404, 405, 503]
  /-- Nothing else is served. -/
  missing : r.status = 404 ↔ path target ≠ "/healthz" ∧ path target ≠ "/readyz"
  /-- Probes are only read. -/
  refused : r.status = 405 ↔ (path target = "/healthz" ∨ path target = "/readyz") ∧
    method ≠ "GET" ∧ method ≠ "HEAD"
  /-- All is well: it is alive, or it is ready as well. -/
  well : r.status = 200 ↔ (method = "GET" ∨ method = "HEAD") ∧
    (path target = "/healthz" ∨ path target = "/readyz" ∧ ready = true)
  /-- It is not ready. -/
  busy : r.status = 503 ↔ (method = "GET" ∨ method = "HEAD") ∧
    path target = "/readyz" ∧ ready = false
  body : r.body ≠ "" → method = "GET"

theorem answers (ready : Bool) (method target : String) :
    Answers ready method target (reply ready method target) := by
  unfold reply state?
  by_cases halive : path target = "/healthz"
  · by_cases hget : method = "GET"
    · constructor <;> simp [halive, hget]
    · by_cases hhead : method = "HEAD"
      · constructor <;> simp [halive, hhead]
      · constructor <;> simp [halive, hget, hhead]
  · by_cases hready : path target = "/readyz"
    · by_cases hget : method = "GET"
      · cases ready <;> constructor <;> simp [hready, hget]
      · by_cases hhead : method = "HEAD"
        · cases ready <;> constructor <;> simp [hready, hhead]
        · constructor <;> simp [hready, hget, hhead]
    · constructor <;> simp [halive, hready]

theorem reply_head (ready : Bool) (target : String) :
    reply ready "HEAD" target = { reply ready "GET" target with body := "" } := by
  unfold reply
  cases state? ready (path target) <;> rfl

end Probe
end Hosting
