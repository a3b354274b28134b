import Hosting.Proofs.Settings
import Hosting.Watch.Loop
import Mathlib.Data.Nat.Fib.Basic

/-!
# Delays in closed form

The delay after `n` failures in a row is the `n`-th Fibonacci number of times the least delay, or
the most if that is less.  The sums that are kept on the way are themselves cut off, at the most
and at what can be counted, and this changes no delay.  How long a key waits is decided by what
was done for it since it was last forgotten, and in the watching loop by its own failed passes since
its last good one (`delays_in_closed_form`).
-/

namespace Hosting

/-! ## One sequence -/

namespace Backoff

variable {least most : Nat} {b : Backoff}

/-- The delay after so many failures in a row. -/
def delay (least most failures : Nat) : Nat := min most (least * Nat.fib failures)

/-- The sequence that starts at `least` after `n` delays of it were given out. -/
structure After (least most n : Nat) (b : Backoff) : Prop where
  cap : b.most = most
  previous : b.previous = delay least most n
  current : b.current = delay least most (n + 1)

theorem after_start (h : least ≤ most) : After least most 0 (start least most) := by
  refine ⟨rfl, ?_, ?_⟩
  · show 0 = min most (least * Nat.fib 0)
    rw [Nat.fib_zero, Nat.mul_zero, Nat.min_zero]
  · show least = min most (least * Nat.fib 1)
    rw [Nat.fib_one, Nat.mul_one, Nat.min_eq_right h]

/-- The sum of two delays that are cut off is cut off where the sum of the full ones is. -/
theorem After.advance {n : Nat} (h : After least most n b) (hlimit : most ≤ limit) :
    After least most (n + 1) b.advance := by
  have hsum : least * Nat.fib (n + 2) = least * Nat.fib n + least * Nat.fib (n + 1) := by
    rw [Nat.fib_add_two, Nat.mul_add]
  refine ⟨h.cap, h.current, ?_⟩
  show min (min (b.previous + b.current) limit) b.most = _
  rw [h.cap, h.previous, h.current]
  unfold delay
  rw [hsum]
  omega

theorem least_le_delay (h : least ≤ most) {n : Nat} (hn : 0 < n) : least ≤ delay least most n := by
  have hfib : 1 ≤ Nat.fib n := Nat.fib_pos.mpr hn
  exact Nat.le_min.mpr ⟨h, Nat.le_mul_of_pos_right least hfib⟩

theorem delay_le_most (least most n : Nat) : delay least most n ≤ most := Nat.min_le_left _ _

theorem delay_mono (least most : Nat) {m n : Nat} (h : m ≤ n) :
    delay least most m ≤ delay least most n := by
  have hfib : least * Nat.fib m ≤ least * Nat.fib n := Nat.mul_le_mul_left least (Nat.fib_mono h)
  unfold delay
  omega

end Backoff

/-! ## Many keys -/

namespace Backoffs

/-- What is done for a key: its next delay is given out, or it is forgotten. -/
inductive Step where
  | next (key : String)
  | forget (key : String)
  deriving DecidableEq, Repr

namespace Step

def key : Step → String
  | .next k => k
  | .forget k => k

def isNext : Step → Bool
  | .next _ => true
  | .forget _ => false

def apply (t : Backoffs) : Step → Backoffs
  | .next k => (t.next k).2
  | .forget k => t.forget k

end Step

/-- The delays after steps for any keys. -/
def after (t : Backoffs) (steps : List Step) : Backoffs := steps.foldl Step.apply t

/-- How many delays were given out for a key since it was last forgotten. -/
def streak (key : String) (steps : List Step) : Nat :=
  ((steps.filter (·.key == key)).reverse.takeWhile Step.isNext).length

variable {t : Backoffs} {key other : String} {steps more : List Step}

theorem streak_concat (key : String) (steps : List Step) (s : Step) :
    streak key (steps ++ [s]) =
      if s.key = key then (if s.isNext then streak key steps + 1 else 0) else streak key steps := by
  unfold streak
  rw [List.filter_append, List.filter_singleton]
  by_cases h : s.key = key
  · have hkey : (s.key == key) = true := beq_iff_eq.mpr h
    rw [if_pos h, hkey, cond_true, List.reverse_append, List.reverse_singleton,
      List.singleton_append, List.takeWhile_cons]
    cases s.isNext <;> rfl
  · have hkey : (s.key == key) = false := beq_eq_false_iff_ne.mpr h
    rw [if_neg h, hkey, cond_false, List.append_nil]

theorem streak_filter (key : String) (steps : List Step) :
    streak key (steps.filter (·.key == key)) = streak key steps := by
  unfold streak
  rw [List.filter_filter]
  simp only [Bool.and_self]

/-- What is done without forgetting a key only adds to its delays. -/
theorem streak_le_append (h : .forget key ∉ more) (steps : List Step) :
    streak key steps ≤ streak key (steps ++ more) := by
  induction more using List.reverseRecOn with
  | nil => rw [List.append_nil]
  | append_singleton more s ih =>
    rw [List.mem_append, List.mem_singleton, not_or] at h
    rw [← List.append_assoc, streak_concat]
    have hle := ih h.1
    cases s with
    | next k =>
      show _ ≤ if k = key then streak key (steps ++ more) + 1 else streak key (steps ++ more)
      split <;> omega
    | forget k =>
      have hk : k ≠ key := fun hk => h.2 (hk ▸ rfl)
      show _ ≤ if k = key then 0 else streak key (steps ++ more)
      rw [if_neg hk]
      exact hle

/-- Each key is where its own delays have brought it. -/
structure Stands (least most : Nat) (steps : List Step) (t : Backoffs) : Prop where
  floor : t.least = least
  cap : t.most = most
  history : ∀ key, Backoff.After least most (streak key steps) (t.history key)

variable {least most : Nat}

theorem Stands.apply (h : Stands least most steps t) (hbounds : least ≤ most)
    (hlimit : most ≤ Backoff.limit) (s : Step) : Stands least most (steps ++ [s]) (s.apply t) := by
  cases s with
  | next k =>
    refine ⟨h.floor, h.cap, fun key => ?_⟩
    rw [streak_concat]
    by_cases hk : k = key
    · subst hk
      show Backoff.After _ _ (if k = k then _ else _) ((t.next k).2.history k)
      rw [if_pos rfl, history_next_self]
      exact (h.history k).advance hlimit
    · show Backoff.After _ _ (if k = key then _ else _) ((t.next k).2.history key)
      rw [if_neg hk, history_next_of_ne t (Ne.symm hk)]
      exact h.history key
  | forget k =>
    refine ⟨h.floor, h.cap, fun key => ?_⟩
    rw [streak_concat]
    by_cases hk : k = key
    · subst hk
      show Backoff.After _ _ (if k = k then _ else _) ((t.forget k).history k)
      rw [if_pos rfl, history_forget_self, h.floor, h.cap]
      exact Backoff.after_start hbounds
    · show Backoff.After _ _ (if k = key then _ else _) ((t.forget k).history key)
      rw [if_neg hk, history_forget_of_ne t (Ne.symm hk)]
      exact h.history key

theorem after_concat (t : Backoffs) (steps : List Step) (s : Step) :
    t.after (steps ++ [s]) = s.apply (t.after steps) := List.foldl_append

/-- The delays of keys none of which has a history. -/
def fresh (least most : Nat) : Backoffs := { least := least, most := most }

theorem stands_fresh (h : least ≤ most) : Stands least most [] (fresh least most) :=
  ⟨rfl, rfl, fun _ => Backoff.after_start h⟩

theorem stands_after (hbounds : least ≤ most) (hlimit : most ≤ Backoff.limit) (steps : List Step) :
    Stands least most steps ((fresh least most).after steps) := by
  induction steps using List.reverseRecOn with
  | nil => exact stands_fresh hbounds
  | append_singleton steps s ih =>
    rw [after_concat]
    exact ih.apply hbounds hlimit s

/-- The delay that a key gets after the steps. -/
def given (t : Backoffs) (steps : List Step) (key : String) : Nat := ((t.after steps).next key).1

/-- What holds of the delays that are given out one after another, to any keys. -/
structure Regular (least most : Nat) (t : Backoffs) : Prop where
  closed : ∀ steps key, t.given steps key =
    min most (least * Nat.fib (streak key steps + 1))
  within : ∀ steps key, least ≤ t.given steps key ∧ t.given steps key ≤ most
  mono : ∀ steps key more, .forget key ∉ more →
    t.given steps key ≤ t.given (steps ++ .next key :: more) key
  stays : ∀ steps key more, .forget key ∉ more → t.given steps key = most →
    t.given (steps ++ .next key :: more) key = most
  own : ∀ steps key, t.given steps key = t.given (steps.filter (·.key == key)) key

theorem regular_of_closed (hbounds : least ≤ most)
    (h : ∀ steps key, t.given steps key = Backoff.delay least most (streak key steps + 1)) :
    Regular least most t := by
  have hle : ∀ steps key more, .forget key ∉ more →
      t.given steps key ≤ t.given (steps ++ .next key :: more) key := by
    intro steps key more hmore
    have hmem : Step.forget key ∉ .next key :: more := by
      rw [List.mem_cons, not_or]
      exact ⟨Step.noConfusion, hmore⟩
    rw [h, h]
    exact Backoff.delay_mono least most (Nat.succ_le_succ (streak_le_append hmem steps))
  have hmost : ∀ steps key, t.given steps key ≤ most := by
    intro steps key
    rw [h]
    exact Backoff.delay_le_most least most _
  refine ⟨h, fun steps key => ⟨?_, hmost steps key⟩, hle, ?_, ?_⟩
  · rw [h]
    exact Backoff.least_le_delay hbounds (Nat.succ_pos _)
  · intro steps key more hmore hreached
    exact Nat.le_antisymm (hmost _ key) (hreached ▸ hle steps key more hmore)
  · intro steps key
    rw [h, h, streak_filter]

theorem regular_fresh (hbounds : least ≤ most) (hlimit : most ≤ Backoff.limit) :
    Regular least most (fresh least most) :=
  regular_of_closed hbounds fun steps key =>
    ((stands_after hbounds hlimit steps).history key).current

end Backoffs

/-! ## The watching loop -/

namespace Watch

open Backoffs

/-- A key whose pass is over is asked for again, at the time `t`: its wait is over when it is left
alone for a while from then on, whatever it was before.  The other keys wait as before. -/
structure Queue.ComesBack (q : Queue) (key : String) (t : Nat) (q' : Queue) : Prop where
  asked : q' = (q.remove key).request key t
  waits : q'.waiting.get? key = some (t + q.debounce)
  others : ∀ other, other ≠ key → q'.waiting.get? other = q.waiting.get? other

theorem Queue.comesBack (q : Queue) (key : String) (t : Nat) :
    q.ComesBack key t ((q.remove key).request key t) where
  asked := rfl
  waits := by
    refine waiting_request_self (q := q.remove key) ?_
    rw [waiting_remove_self]
    rfl
  others other hother := by
    rw [waiting_request_of_ne _ hother, waiting_remove_of_ne q hother]

/-- A pass that came to its end: the cluster, and what came of it. -/
abbrev Ended : Type := String × Except Failure Outcome

/-- What the end of a pass does to the delays. -/
def Ended.step : Ended → Step
  | (key, .ok _) => .forget key
  | (key, .error _) => .next key

def Ended.failed : Ended → Bool
  | (_, .ok _) => false
  | (_, .error _) => true

/-- The failed passes of a cluster since its last good one. -/
def failures (key : String) (ends : List Ended) : Nat :=
  ((ends.filter (·.1 == key)).reverse.takeWhile Ended.failed).length

theorem streak_steps (key : String) (ends : List Ended) :
    streak key (ends.map Ended.step) = failures key ends := by
  have hkey : (fun e : Ended => e.step.key == key) = fun e => e.1 == key := by
    funext e
    obtain ⟨k, r⟩ := e
    cases r <;> rfl
  have hnext : (fun e : Ended => e.step.isNext) = Ended.failed := by
    funext e
    obtain ⟨k, r⟩ := e
    cases r <;> rfl
  unfold streak failures
  rw [List.filter_map, ← List.map_reverse, List.takeWhile_map, List.length_map]
  show (List.takeWhile (fun e : Ended => e.step.isNext)
    (List.filter (fun e : Ended => e.step.key == key) ends).reverse).length = _
  rw [hkey, hnext]

variable {σ : Type} {pass : Nat → String → σ → Except Failure Outcome × σ}

namespace Loop

/-- The cluster was observed, and as a hosted one. -/
def sees (l : Loop σ) (key : String) : Bool := (l.seen.get? key).any (·.isHosted)

/-- Arrivals and passes in any order lead from one state of the loop to another; the passes on the
way come to these ends. -/
inductive Leads (pass : Nat → String → σ → Except Failure Outcome × σ) (l : Loop σ) :
    List Ended → Loop σ → Prop where
  | none : Leads pass l [] l
  | arrive {ends : List Ended} {m : Loop σ} (h : Leads pass l ends m) (a : Arrival) :
      Leads pass l ends (m.arrive a)
  | idle {ends : List Ended} {m : Loop σ} (h : Leads pass l ends m) {key : String}
      (hsees : m.sees key = false) (t : Nat) : Leads pass l ends (m.due pass key t)
  | pass {ends : List Ended} {m : Loop σ} (h : Leads pass l ends m) {key : String}
      (hsees : m.sees key = true) (t : Nat) :
      Leads pass l (ends ++ [(key, (pass t key m.server).1)]) (m.due pass key t)

theorem Leads.due {l m : Loop σ} {ends : List Ended} (h : Leads pass l ends m) (key : String)
    (t : Nat) : ∃ more, Leads pass l (ends ++ more) (m.due pass key t) := by
  cases hsees : m.sees key with
  | false => exact ⟨[], (List.append_nil ends).symm ▸ h.idle hsees t⟩
  | true => exact ⟨_, h.pass hsees t⟩

/-- The loop takes such a way. -/
theorem leads_steps (stop fuel : Nat) (arrivals : List Arrival) {l m : Loop σ} {ends : List Ended}
    (h : Leads pass l ends m) :
    ∃ more, Leads pass l (ends ++ more) (steps pass stop fuel arrivals m) := by
  induction fuel generalizing arrivals m ends with
  | zero => exact ⟨[], by rwa [List.append_nil, steps]⟩
  | succ n ih =>
    have hend : ∃ more, Leads pass l (ends ++ more) m := ⟨[], by rwa [List.append_nil]⟩
    have hdue (rest : List Arrival) (key : String) (t : Nat) :
        ∃ more, Leads pass l (ends ++ more) (steps pass stop n rest (m.due pass key t)) := by
      obtain ⟨now, hnow⟩ := h.due key t
      obtain ⟨later, hlater⟩ := ih rest hnow
      exact ⟨now ++ later, by rwa [← List.append_assoc]⟩
    cases arrivals with
    | nil =>
      unfold steps
      split
      · exact hend
      · split
        · exact hdue _ _ _
        · exact hend
    | cons a rest =>
      unfold steps
      split
      · exact ih rest (h.arrive a)
      · split
        · exact ih rest (h.arrive a)
        · split
          · exact hdue _ _ _
          · exact hend

theorem backoffs_arrive (l : Loop σ) (a : Arrival) : (l.arrive a).backoffs = l.backoffs := by
  unfold arrive
  split
  · split <;> rfl
  · split <;> rfl

theorem backoffs_due_of_not_sees {l : Loop σ} {key : String} (h : l.sees key = false) (t : Nat) :
    (l.due pass key t).backoffs = l.backoffs := by
  show (if l.sees key then _ else _ : Loop σ).backoffs = l.backoffs
  rw [h]
  rfl

/-- After a pass the delays take the step that its end asks for, and the key waits as long as the
end or its own delay says. -/
theorem due_of_sees {l : Loop σ} {key : String} (h : l.sees key = true) (t : Nat) :
    (l.due pass key t).backoffs = (Ended.step (key, (pass t key l.server).1)).apply l.backoffs ∧
      (l.due pass key t).queue =
        match (l.backoffs.settle key (pass t key l.server).1).1 with
        | none => l.queue.remove key
        | some seconds => (l.queue.remove key).request key (t + seconds * 1000) := by
  have hdue : l.due pass key t = if l.sees key then _ else _ := rfl
  rw [hdue, if_pos h]
  dsimp only
  cases (pass t key l.server).1 with
  | ok outcome => cases outcome <;> exact ⟨rfl, rfl⟩
  | error f => exact ⟨rfl, rfl⟩

theorem backoffs_of_leads {l m : Loop σ} {ends : List Ended} (h : Leads pass l ends m) :
    m.backoffs = l.backoffs.after (ends.map Ended.step) := by
  induction h with
  | none => rfl
  | arrive _ a ih => rw [backoffs_arrive, ih]
  | idle _ hsees t ih => rw [backoffs_due_of_not_sees hsees, ih]
  | pass _ hsees t ih =>
    rw [List.map_append, List.map_singleton, after_concat, ← ih, (due_of_sees hsees t).1]

/-- A hosted cluster whose pass fails comes back after the delay of its failures in a row. -/
theorem comesBack_of_failed {l m : Loop σ} {ends : List Ended} {least most : Nat}
    (hfresh : l.backoffs = fresh least most) (hregular : Regular least most (fresh least most))
    (h : Leads pass l ends m) {key : String} (hsees : m.sees key = true) {t : Nat} {f : Failure}
    (hpass : (pass t key m.server).1 = .error f) :
    m.queue.ComesBack key (t + min most (least * Nat.fib (failures key ends + 1)) * 1000)
      (m.due pass key t).queue := by
  have hgiven : (m.backoffs.next key).1 =
      min most (least * Nat.fib (failures key ends + 1)) := by
    rw [backoffs_of_leads h, hfresh, ← streak_steps]
    exact hregular.closed (ends.map Ended.step) key
  rw [(due_of_sees hsees t).2, hpass, ← hgiven]
  exact Queue.comesBack _ _ _

end Loop
end Watch

/-! ## Accepted settings -/

namespace Settings

/-- The bounds of accepted settings are in order, and can be counted. -/
theorem backoff_bounds_of_ofEnv {env : String → Option String} {s : Settings}
    (h : ofEnv env = .ok s) : 0 < s.leastBackoff ∧ s.leastBackoff ≤ s.mostBackoff ∧
      s.mostBackoff ≤ Backoff.limit := by
  have hs := ofEnv_eq_ok_iff.mp h
  have hmem : Counter.mostBackoff ∈ Counter.all := by simp [Counter.all]
  have hmost : s.mostBackoff < 2 ^ 64 := (hs.numbers _ hmem).lt hmem
  exact ⟨hs.backoff.1, hs.backoff.2, Nat.le_sub_one_of_lt hmost⟩

end Settings

namespace Backoffs

open Watch

/-- With settings that are accepted, all delays that are given out for any keys in any order are
those of the closed form; and however the watching loop gets there, a hosted cluster whose pass
fails comes back after the delay of its own failures in a row. -/
theorem delays_in_closed_form (env : String → Option String) (s : Settings)
    (h : Settings.ofEnv env = .ok s) :
    Regular s.leastBackoff s.mostBackoff (fresh s.leastBackoff s.mostBackoff) ∧
      ∀ (σ : Type) (pass : Nat → String → σ → Except Failure Outcome × σ) (l : Loop σ),
        l.backoffs = fresh s.leastBackoff s.mostBackoff →
        (∀ stop fuel arrivals, ∃ ends, Loop.Leads pass l ends (l.steps pass stop fuel arrivals)) ∧
        ∀ ends m, Loop.Leads pass l ends m → ∀ key t f, m.sees key = true →
          (pass t key m.server).1 = .error f →
          m.queue.ComesBack key
            (t + min s.mostBackoff (s.leastBackoff * Nat.fib (failures key ends + 1)) * 1000)
            (m.due pass key t).queue := by
  obtain ⟨-, hbounds, hlimit⟩ := Settings.backoff_bounds_of_ofEnv h
  have hregular := regular_fresh hbounds hlimit
  refine ⟨hregular, fun σ pass l hfresh => ⟨fun stop fuel arrivals => ?_, ?_⟩⟩
  · exact Loop.leads_steps stop fuel arrivals .none
  · intro ends m hleads key t f hsees hpass
    exact Loop.comesBack_of_failed hfresh hregular hleads hsees hpass

/-- Bounds whose sums cannot be counted. -/
def wide : String → Option String := fun name =>
  if name = Settings.Variable.leastBackoff then some "9223372036854775808"
  else if name = Settings.Variable.mostBackoff then some "18446744073709551615"
  else none

/-- Nothing succeeds. -/
def failing : Nat → String → Unit → Except Failure Outcome × Unit := fun _ _ _ =>
  (.error (.watch "none"), ())

/-- A hosted cluster was observed. -/
def watching (least most : Nat) : Loop Unit where
  seen := .singleton "a" { metadata := {
    name := some "a", annotations := some (.singleton Names.deployMode "Hosted") } }
  queue := { debounce := 1000 }
  backoffs := fresh least most
  server := ()

/-- The third delay of a key is the most, as the sum cannot be counted; a cluster whose pass fails
a second time still waits for the least. -/
theorem delays_of_wide : ∃ s, Settings.ofEnv wide = .ok s ∧
    (fresh s.leastBackoff s.mostBackoff).given [.next "a", .next "b", .next "a"] "a" =
      18446744073709551615 ∧
    let m := (watching s.leastBackoff s.mostBackoff).due failing "a" 0
    m.queue.ComesBack "a" (5 + 9223372036854775808 * 1000) (m.due failing "a" 5).queue := by
  have hread : (Settings.ofEnv wide).toOption.any (fun s =>
      s.leastBackoff == 9223372036854775808 && s.mostBackoff == 18446744073709551615) = true := by
    decide +kernel
  obtain ⟨s, hs, hbounds⟩ := (Option.any_eq_true _ _).mp hread
  have hok : Settings.ofEnv wide = .ok s := by
    cases hwide : Settings.ofEnv wide <;> rw [hwide] at hs <;> cases hs
    rfl
  obtain ⟨hregular, hloop⟩ := delays_in_closed_form wide s hok
  rw [Bool.and_eq_true, beq_iff_eq, beq_iff_eq] at hbounds
  obtain ⟨hleast, hmost⟩ := hbounds
  obtain ⟨-, hfailed⟩ := hloop Unit failing (watching s.leastBackoff s.mostBackoff) rfl
  have hsees : (watching s.leastBackoff s.mostBackoff).sees "a" = true := rfl
  refine ⟨s, hok, ?_, ?_⟩
  · rw [hregular.closed, hleast, hmost]
    decide
  · intro m
    have hnone : Loop.Leads failing (watching s.leastBackoff s.mostBackoff) []
        (watching s.leastBackoff s.mostBackoff) := .none
    have hback := hfailed _ m (hnone.pass hsees 0) "a" 5 (.watch "none") hsees rfl
    rw [hleast, hmost] at hback
    exact hback

end Backoffs
end Hosting
