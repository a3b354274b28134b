import Hosting.Table

/-!
Keys that wait for their pass.  A key waits until it was left alone for a while, so that
requests which follow each other quickly are one; a pass that is still far off gives way
to a request for an earlier one.
-/

namespace Hosting
namespace Watch

structure Queue where
  /-- How long a key waits after it was asked for, in milliseconds. -/
  debounce : Nat
  /-- When the wait of each key is over. -/
  waiting : Table String Nat := .empty

namespace Queue

/-- Ask for a key at a time.  A key whose wait is over before that time is left as it is,
any other waits anew from that time on. -/
def request (q : Queue) (key : String) (t : Nat) : Queue :=
  if (q.waiting.get? key).any (· < t) then q
  else { q with waiting := q.waiting.insert key (t + q.debounce) }

def remove (q : Queue) (key : String) : Queue := { q with waiting := q.waiting.erase key }

/-- Of two keys with their times, the one whose time comes first. -/
def sooner (a b : String × Nat) : String × Nat := if b.2 < a.2 then b else a

/-- The key whose wait ends first, with the time of that. -/
def first? (q : Queue) : Option (String × Nat) :=
  match q.waiting.entries with
  | [] => none
  | e :: es => some (es.foldl sooner e)

/-- A key that does not wait, or whose wait would go on, waits from the request on. -/
theorem waiting_request_self {q : Queue} {key : String} {t : Nat}
    (h : (q.waiting.get? key).any (· < t) = false) :
    (q.request key t).waiting.get? key = some (t + q.debounce) := by
  simp [request, h]

theorem waiting_request_of_ne (q : Queue) {key other : String} (h : other ≠ key) (t : Nat) :
    (q.request key t).waiting.get? other = q.waiting.get? other := by
  unfold request
  split
  · rfl
  · exact Table.get?_insert_of_ne _ h _

@[simp] theorem waiting_remove_self (q : Queue) (key : String) :
    (q.remove key).waiting.get? key = none :=
  Table.get?_erase_self _ _

theorem waiting_remove_of_ne (q : Queue) {key other : String} (h : other ≠ key) :
    (q.remove key).waiting.get? other = q.waiting.get? other :=
  Table.get?_erase_of_ne _ h

end Queue
end Watch
end Hosting
