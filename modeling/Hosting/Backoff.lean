import Hosting.Table

/-!
Delays between attempts that fail.  Each is the sum of the two before it, up to a
most; every key has its own sequence, which starts over when its history is forgotten.
What is done for one key leaves the delays of all others as they are.
-/

namespace Hosting

/-- A sequence of delays in seconds: the next one, and the one before it. -/
structure Backoff where
  most : Nat
  previous : Nat
  current : Nat
  deriving DecidableEq, Repr

namespace Backoff

def start (least most : Nat) : Backoff := ⟨most, 0, least⟩

/-- The largest number of seconds that can be counted; a sum beyond it is that number. -/
def limit : Nat := Nat.pow 2 64 - 1

def advance (b : Backoff) : Backoff :=
  { b with previous := b.current, current := min (min (b.previous + b.current) limit) b.most }

end Backoff

/-- The delays of many keys.  A key without a history starts at `least`. -/
structure Backoffs where
  least : Nat
  most : Nat
  histories : Table String Backoff := .empty

namespace Backoffs

def history (t : Backoffs) (key : String) : Backoff :=
  (t.histories.get? key).getD (Backoff.start t.least t.most)

/-- The next delay of `key`, and what is remembered after it. -/
def next (t : Backoffs) (key : String) : Nat × Backoffs :=
  ((t.history key).current,
    { t with histories := t.histories.insert key (t.history key).advance })

def forget (t : Backoffs) (key : String) : Backoffs :=
  { t with histories := t.histories.erase key }

@[simp] theorem history_next_self (t : Backoffs) (key : String) :
    (t.next key).2.history key = (t.history key).advance := by
  simp [next, history]

theorem history_next_of_ne (t : Backoffs) {key other : String} (h : other ≠ key) :
    (t.next key).2.history other = t.history other := by
  simp [next, history, Table.get?_insert_of_ne _ h]

@[simp] theorem history_forget_self (t : Backoffs) (key : String) :
    (t.forget key).history key = Backoff.start t.least t.most := by
  simp [forget, history]

theorem history_forget_of_ne (t : Backoffs) {key other : String} (h : other ≠ key) :
    (t.forget key).history other = t.history other := by
  simp [forget, history, Table.get?_erase_of_ne _ h]

end Backoffs
end Hosting
