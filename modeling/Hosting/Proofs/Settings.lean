import Hosting.Proofs.SocketAddress
import Hosting.Settings

/-!
# Which environments are accepted

A variable gives its default when it says nothing, else what its text tells (`Gives`).  The checks
are made in one order (`checks`), and the first that fails is reported; when none fails, each
setting is what its own variable gives (`Describes`, `ofEnv_eq_ok_iff`).  The texts of accepted
settings are accepted, and give the same settings (`Describes.toEnv`).
-/

namespace Hosting
namespace Settings

variable {α : Type} {env : String → Option String} {name raw : String} {initial x : α}
  {s : Settings} {e : SettingsError}

/-! ## What a variable gives -/

/-- The variable is missing, or it has nothing but blanks. -/
def IsSilent (env : String → Option String) (name : String) : Prop :=
  ∀ raw, env name = some raw → ∀ c ∈ raw.toList, Text.isBlank c = true

/-- The variable has a text that is not blank. -/
def Says (env : String → Option String) (name raw : String) : Prop :=
  env name = some raw ∧ ∃ c ∈ raw.toList, Text.isBlank c = false

/-- What the variable gives: the default when it is silent, else what `tells` of the text without
the blanks around it. -/
inductive Gives (env : String → Option String) (name : String) (initial : α)
    (tells : List Char → α → Prop) : α → Prop where
  | silent (h : IsSilent env name) : Gives env name initial tells initial
  | told {raw : String} {x : α} (h : Says env name raw) (hx : tells (Text.trim raw.toList) x) :
    Gives env name initial tells x

theorem says_iff : Says env name raw ↔ env name = some raw ∧ Text.trim raw.toList ≠ [] := by
  simp [Says, Text.trim_eq_nil_iff]

theorem isSilent_or_said (env : String → Option String) (name : String) :
    IsSilent env name ∨ ∃ raw, Says env name raw := by
  cases henv : env name with
  | none => exact Or.inl fun raw h => by rw [henv] at h; cases h
  | some raw =>
    by_cases hblank : ∀ c ∈ raw.toList, Text.isBlank c = true
    · refine Or.inl fun raw' h => ?_
      rw [henv, Option.some.injEq] at h
      exact h ▸ hblank
    · simp only [not_forall, Bool.not_eq_true] at hblank
      obtain ⟨c, hc, hc'⟩ := hblank
      exact Or.inr ⟨raw, henv, c, hc, hc'⟩

theorem not_isSilent (h : Says env name raw) : ¬IsSilent env name := by
  intro hsilent
  obtain ⟨henv, c, hc, hvisible⟩ := h
  rw [hsilent raw henv c hc] at hvisible
  cases hvisible

theorem value_of_isSilent (h : IsSilent env name) (initial : α) (read? : List Char → Option α) :
    value env name initial read? = .ok initial := by
  unfold value
  cases henv : env name with
  | none => rfl
  | some raw =>
    have hnil := Text.trim_eq_nil_iff.mpr (h raw henv)
    simp [hnil]

theorem value_of_said (h : Says env name raw) (initial : α) (read? : List Char → Option α) :
    value env name initial read? = match read? (Text.trim raw.toList) with
      | some x => .ok x
      | none => .error (.invalidValue name raw) := by
  obtain ⟨henv, hne⟩ := says_iff.mp h
  unfold value
  rw [henv]
  simp [hne]
  cases read? (Text.trim raw.toList) <;> rfl

theorem Says.unique {raw' : String} (h : Says env name raw) (h' : Says env name raw') :
    raw' = raw := by
  rw [← Option.some.injEq, ← h.1, ← h'.1]

variable {read? : List Char → Option α} {tells : List Char → α → Prop}

theorem value_eq_ok_iff (hread : ∀ cs x, read? cs = some x ↔ tells cs x) :
    value env name initial read? = .ok x ↔ Gives env name initial tells x := by
  rcases isSilent_or_said env name with hsilent | ⟨raw, hsaid⟩
  · rw [value_of_isSilent hsilent, Except.ok.injEq]
    constructor
    · rintro rfl
      exact .silent hsilent
    · rintro (_ | ⟨hsaid, -⟩)
      · rfl
      · exact absurd hsilent (not_isSilent hsaid)
  · rw [value_of_said hsaid]
    constructor
    · intro h
      split at h
      · next y hy => exact .told hsaid ((hread _ _).mp (Except.ok.inj h ▸ hy))
      · cases h
    · rintro (hsilent | ⟨hsaid', hx⟩)
      · exact absurd hsilent (not_isSilent hsaid)
      · rw [hsaid.unique hsaid'] at hx
        rw [(hread _ _).mpr hx]

theorem value_eq_error_iff (hread : ∀ cs x, read? cs = some x ↔ tells cs x) :
    value env name initial read? = .error e ↔
      ∃ raw, Says env name raw ∧ (∀ x, ¬tells (Text.trim raw.toList) x) ∧
        e = .invalidValue name raw := by
  rcases isSilent_or_said env name with hsilent | ⟨raw, hsaid⟩
  · rw [value_of_isSilent hsilent]
    constructor
    · intro h
      cases h
    · rintro ⟨raw, hsaid, -⟩
      exact absurd hsilent (not_isSilent hsaid)
  · rw [value_of_said hsaid]
    constructor
    · intro h
      split at h
      · cases h
      · next hnone =>
        refine ⟨raw, hsaid, fun x hx => ?_, (Except.error.inj h).symm⟩
        rw [(hread _ _).mpr hx] at hnone
        cases hnone
    · rintro ⟨raw', hsaid', hbad, rfl⟩
      rw [hsaid.unique hsaid'] at hbad ⊢
      split
      · next x hx => exact absurd ((hread _ _).mp hx) (hbad x)
      · rfl

/-! ## Numbers -/

def defaults : Settings := {}

/-- A setting that is a number of so many bits, and the variable that it is read from. -/
structure Counter where
  name : String
  field : Settings → Nat
  width : Nat

namespace Counter

def concurrency : Counter := ⟨Variable.concurrency, Settings.concurrency, 16⟩

def leastBackoff : Counter := ⟨Variable.leastBackoff, Settings.leastBackoff, 64⟩

def mostBackoff : Counter := ⟨Variable.mostBackoff, Settings.mostBackoff, 64⟩

/-- No timeout is told by the number zero. -/
def silenceTimeout : Counter := ⟨Variable.silenceTimeout, fun s => s.silenceTimeout.getD 0, 64⟩

def postponeWindow : Counter := ⟨Variable.postponeWindow, Settings.postponeWindow, 64⟩

def deletionRequeue : Counter := ⟨Variable.deletionRequeue, Settings.deletionRequeue, 64⟩

def retries : Counter := ⟨Variable.retries, Settings.retries, 32⟩

def debounce : Counter := ⟨Variable.debounce, Settings.debounce, 64⟩

def all : List Counter := [concurrency, leastBackoff, mostBackoff, silenceTimeout, postponeWindow,
  deletionRequeue, retries, debounce]

def default (v : Counter) : Nat := v.field defaults

/-- A text that tells a number which the variable has room for. -/
def Tells (v : Counter) (cs : List Char) (n : Nat) : Prop := Text.IsNumeral cs n ∧ n < 2 ^ v.width

def Gives (v : Counter) (env : String → Option String) : Nat → Prop :=
  Settings.Gives env v.name v.default v.Tells

def read (v : Counter) (env : String → Option String) : Except SettingsError Nat :=
  number env v.name v.default v.width

variable {v : Counter} {n : Nat}

theorem natural?_iff_tells (v : Counter) (cs : List Char) (n : Nat) :
    Text.natural? (bits v.width) cs = some n ↔ v.Tells cs n := by
  have hpos : 0 < Nat.pow 2 v.width := Nat.pow_pos (by decide)
  rw [Text.natural?_eq_some_iff]
  refine and_congr_right fun _ => ?_
  show n ≤ Nat.pow 2 v.width - 1 ↔ n < Nat.pow 2 v.width
  omega

theorem read_eq_ok_iff : v.read env = .ok n ↔ v.Gives env n := value_eq_ok_iff v.natural?_iff_tells

theorem read_eq_error_iff : v.read env = .error e ↔
    ∃ raw, Says env v.name raw ∧ (∀ n, ¬v.Tells (Text.trim raw.toList) n) ∧
      e = .invalidValue v.name raw :=
  value_eq_error_iff v.natural?_iff_tells

theorem default_lt {v : Counter} (h : v ∈ all) : v.default < 2 ^ v.width := by
  have hall : ∀ v ∈ all, v.default < 2 ^ v.width := by decide
  exact hall v h

/-- What is given is a number of as many bits as the variable has. -/
theorem Gives.lt (h : v.Gives env n) (hv : v ∈ all) : n < 2 ^ v.width := by
  cases h with
  | silent => exact default_lt hv
  | told _ htells => exact htells.2

end Counter

/-- The address that the environment gives. -/
def GivesAddress (env : String → Option String) : SocketAddress → Prop :=
  Gives env Variable.probeAddress defaults.probeAddress fun cs a => SocketAddress.read? cs = some a

/-! ## The checks in their order -/

inductive Check where
  | number (v : Counter)
  | positive (v : Counter)
  | backoff
  | address

def checks : List Check := [
  .number .concurrency, .positive .concurrency,
  .number .leastBackoff, .number .mostBackoff, .backoff,
  .number .silenceTimeout,
  .number .postponeWindow,
  .number .deletionRequeue, .positive .deletionRequeue,
  .number .retries,
  .number .debounce,
  .address]

/-- The environment does not stand a check, and this is reported. -/
inductive Check.Fails (env : String → Option String) : Check → SettingsError → Prop where
  | number {v : Counter} {raw : String} (h : Says env v.name raw)
    (hbad : ∀ n, ¬v.Tells (Text.trim raw.toList) n) :
    Fails env (.number v) (.invalidValue v.name raw)
  | positive {v : Counter} (h : v.Gives env 0) : Fails env (.positive v) (.zero v.name)
  | backoff {least most : Nat} (hleast : Counter.leastBackoff.Gives env least)
    (hmost : Counter.mostBackoff.Gives env most) (h : ¬(0 < least ∧ least ≤ most)) :
    Fails env .backoff (.backoffBounds least most)
  | address {raw : String} (h : Says env Variable.probeAddress raw)
    (hbad : ∀ a, SocketAddress.read? (Text.trim raw.toList) ≠ some a) :
    Fails env .address (.invalidValue Variable.probeAddress raw)

def fault? : Except SettingsError α → Option SettingsError
  | .error e => some e
  | .ok _ => none

/-- What a check reports, computed. -/
def Check.report (env : String → Option String) : Check → Option SettingsError
  | .number v => fault? (v.read env)
  | .positive v =>
    match v.read env with
    | .error _ => none
    | .ok n => if 0 < n then none else some (.zero v.name)
  | .backoff =>
    match Counter.leastBackoff.read env, Counter.mostBackoff.read env with
    | .ok least, .ok most =>
      if 0 < least && least ≤ most then none else some (.backoffBounds least most)
    | _, _ => none
  | .address => fault? (value env Variable.probeAddress defaults.probeAddress SocketAddress.read?)

theorem fault?_eq_some_iff {y : Except SettingsError α} : fault? y = some e ↔ y = .error e := by
  cases y <;> simp [fault?]

theorem Check.report_positive_iff {v : Counter} :
    (Check.positive v).report env = some e ↔ v.read env = .ok 0 ∧ e = .zero v.name := by
  rw [report]
  cases v.read env with
  | error f => simp
  | ok n =>
    rw [Option.ite_none_left_eq_some, Option.some.injEq, Except.ok.injEq, eq_comm, Nat.not_lt,
      Nat.le_zero]

theorem Check.report_backoff_iff : Check.backoff.report env = some e ↔ ∃ least most,
    Counter.leastBackoff.read env = .ok least ∧ Counter.mostBackoff.read env = .ok most ∧
      ¬(0 < least ∧ least ≤ most) ∧ e = .backoffBounds least most := by
  rw [report]
  cases Counter.leastBackoff.read env with
  | error f => simp
  | ok least =>
    cases Counter.mostBackoff.read env with
    | error f => simp
    | ok most =>
      rw [Option.ite_none_left_eq_some, Option.some.injEq]
      constructor
      · rintro ⟨hbounds, rfl⟩
        exact ⟨least, most, rfl, rfl, by simpa using hbounds, rfl⟩
      · rintro ⟨_, _, ⟨rfl⟩, ⟨rfl⟩, hbounds, rfl⟩
        exact ⟨by simpa using hbounds, rfl⟩

theorem Check.report_eq_some_iff {c : Check} : c.report env = some e ↔ c.Fails env e := by
  cases c with
  | number v =>
    rw [report, fault?_eq_some_iff, Counter.read_eq_error_iff]
    constructor
    · rintro ⟨raw, hsaid, hbad, rfl⟩
      exact .number hsaid hbad
    · intro h
      cases h with
      | number hsaid hbad => exact ⟨_, hsaid, hbad, rfl⟩
  | positive v =>
    rw [report_positive_iff, Counter.read_eq_ok_iff]
    constructor
    · rintro ⟨hzero, rfl⟩
      exact .positive hzero
    · intro h
      cases h with
      | positive hzero => exact ⟨hzero, rfl⟩
  | backoff =>
    simp only [report_backoff_iff, Counter.read_eq_ok_iff]
    constructor
    · rintro ⟨least, most, hleast, hmost, hbounds, rfl⟩
      exact .backoff hleast hmost hbounds
    · intro h
      cases h with
      | backoff hleast hmost hbounds => exact ⟨_, _, hleast, hmost, hbounds, rfl⟩
  | address =>
    rw [report, fault?_eq_some_iff, value_eq_error_iff fun _ _ => Iff.rfl]
    constructor
    · rintro ⟨raw, hsaid, hbad, rfl⟩
      exact .address hsaid hbad
    · intro h
      cases h with
      | address hsaid hbad => exact ⟨_, hsaid, hbad, rfl⟩

/-- The number that is read, if any. -/
def Counter.given (v : Counter) (env : String → Option String) : Nat :=
  (v.read env).toOption.getD v.default

/-- The settings that are read when no check fails. -/
def filled (env : String → Option String) : Settings :=
  { concurrency := Counter.concurrency.given env
    leastBackoff := Counter.leastBackoff.given env
    mostBackoff := Counter.mostBackoff.given env
    silenceTimeout :=
      if Counter.silenceTimeout.given env = 0 then none else some (Counter.silenceTimeout.given env)
    postponeWindow := Counter.postponeWindow.given env
    deletionRequeue := Counter.deletionRequeue.given env
    retries := Counter.retries.given env
    debounce := Counter.debounce.given env
    probeAddress := (value env Variable.probeAddress defaults.probeAddress
      SocketAddress.read?).toOption.getD defaults.probeAddress
    controller := (name? env Variable.controller).getD defaults.controller }

/-- The first report of some checks, or the settings when there is none. -/
def first (env : String → Option String) (cs : List Check) : Except SettingsError Settings :=
  match cs.findSome? (Check.report env) with
  | some e => .error e
  | none => .ok (filled env)

section

variable {cs : List Check} {n least most : Nat}

theorem first_cons (c : Check) (cs : List Check) : first env (c :: cs) =
    match c.report env with
    | some e => .error e
    | none => first env cs := by
  unfold first
  rw [List.findSome?_cons]
  cases c.report env <;> rfl

theorem first_number (v : Counter) {f : Nat → Except SettingsError Settings}
    (h : ∀ n, v.read env = .ok n → f n = first env cs) :
    v.read env >>= f = first env (.number v :: cs) := by
  rw [first_cons, Check.report]
  cases hv : v.read env with
  | error e => rfl
  | ok n => exact h n hv

theorem first_positive {v : Counter} {f : Unit → Except SettingsError Settings}
    (hv : v.read env = .ok n) (h : f () = first env cs) :
    check (0 < n) (.zero v.name) >>= f = first env (.positive v :: cs) := by
  rw [first_cons, Check.report, hv]
  by_cases hn : 0 < n
  · simp only [hn, check, decide_true, if_true]
    exact h
  · simp only [hn, check, decide_false, Bool.false_eq_true, if_false]
    rfl

theorem first_backoff {f : Unit → Except SettingsError Settings}
    (hleast : Counter.leastBackoff.read env = .ok least)
    (hmost : Counter.mostBackoff.read env = .ok most) (h : f () = first env cs) :
    check (0 < least && least ≤ most) (.backoffBounds least most) >>= f =
      first env (.backoff :: cs) := by
  rw [first_cons, Check.report, hleast, hmost]
  cases hholds : decide (0 < least) && decide (least ≤ most) with
  | true =>
    simp only [hholds, check, if_true]
    exact h
  | false =>
    simp only [hholds, check, Bool.false_eq_true, if_false]
    rfl

theorem first_address {f : SocketAddress → Except SettingsError Settings}
    (h : ∀ a, value env Variable.probeAddress defaults.probeAddress SocketAddress.read? = .ok a →
      f a = first env cs) :
    value env Variable.probeAddress defaults.probeAddress SocketAddress.read? >>= f =
      first env (.address :: cs) := by
  rw [first_cons, Check.report]
  cases ha : value env Variable.probeAddress defaults.probeAddress SocketAddress.read? with
  | error e => rfl
  | ok a => exact h a ha

end

/-- The settings are read check by check. -/
theorem ofEnv_eq (env : String → Option String) : ofEnv env = first env checks := by
  unfold ofEnv
  refine first_number .concurrency fun concurrency hconcurrency => first_positive hconcurrency ?_
  refine first_number .leastBackoff fun least hleast => ?_
  refine first_number .mostBackoff fun most hmost => first_backoff hleast hmost ?_
  refine first_number .silenceTimeout fun timeout htimeout => ?_
  refine first_number .postponeWindow fun window hwindow => ?_
  refine first_number .deletionRequeue fun requeue hrequeue => first_positive hrequeue ?_
  refine first_number .retries fun retries hretries => ?_
  refine first_number .debounce fun debounce hdebounce => ?_
  refine first_address fun address haddress => ?_
  simp [first, filled, Counter.given, hconcurrency, hleast, hmost, htimeout, hwindow, hrequeue,
    hretries, hdebounce, haddress, Except.toOption]
  rfl

/-! ## Accepted environments -/

/-- The settings are those that the environment gives, each by its own variable, and they are
within their bounds. -/
structure Describes (env : String → Option String) (s : Settings) : Prop where
  numbers : ∀ v ∈ Counter.all, v.Gives env (v.field s)
  address : GivesAddress env s.probeAddress
  /-- The name is taken as it is given, blanks included. -/
  controller : IsSilent env Variable.controller ∧ s.controller = defaults.controller ∨
    Says env Variable.controller s.controller
  timeout : s.silenceTimeout ≠ some 0
  concurrency : 1 ≤ s.concurrency
  backoff : 0 < s.leastBackoff ∧ s.leastBackoff ≤ s.mostBackoff
  deletionRequeue : 1 ≤ s.deletionRequeue

theorem Gives.unique {y : α} (hone : ∀ cs x y, tells cs x → tells cs y → x = y)
    (h : Gives env name initial tells x) (h' : Gives env name initial tells y) : x = y := by
  cases h with
  | silent hsilent =>
    cases h' with
    | silent => rfl
    | told hsaid => exact absurd hsilent (not_isSilent hsaid)
  | told hsaid hx =>
    cases h' with
    | silent hsilent => exact absurd hsilent (not_isSilent hsaid)
    | told hsaid' hy =>
      rw [hsaid.unique hsaid'] at hy
      exact hone _ _ _ hx hy

theorem Gives.told_of_said (h : Gives env name initial tells x) (hsaid : Says env name raw) :
    tells (Text.trim raw.toList) x := by
  cases h with
  | silent hsilent => exact absurd hsilent (not_isSilent hsaid)
  | told hsaid' hx => exact hsaid'.unique hsaid ▸ hx

namespace Counter

variable {v : Counter} {n m : Nat}

theorem Gives.unique (h : v.Gives env n) (h' : v.Gives env m) : n = m :=
  Settings.Gives.unique (fun _ _ _ hn hm => hn.1.unique hm.1) h h'

theorem number_mem_checks (hv : v ∈ all) : Check.number v ∈ checks := by
  simp only [all, List.mem_cons, List.not_mem_nil, or_false] at hv
  rcases hv with rfl | rfl | rfl | rfl | rfl | rfl | rfl | rfl <;> simp [checks]

theorem field_filled (hv : v ∈ all) (env : String → Option String) :
    v.field (filled env) = v.given env := by
  simp only [all, List.mem_cons, List.not_mem_nil, or_false] at hv
  rcases hv with rfl | rfl | rfl | rfl | rfl | rfl | rfl | rfl
  case inr.inr.inr.inl =>
    show (if silenceTimeout.given env = 0 then none
      else some (silenceTimeout.given env)).getD 0 = silenceTimeout.given env
    split
    · next hzero => exact hzero.symm
    · rfl
  all_goals rfl

theorem gives_given (h : ∀ e, ¬(Check.number v).Fails env e) : v.Gives env (v.given env) := by
  cases hv : v.read env with
  | error e =>
    obtain ⟨raw, hsaid, hbad, -⟩ := read_eq_error_iff.mp hv
    exact absurd (.number hsaid hbad) (h _)
  | ok n =>
    rw [given, hv]
    exact read_eq_ok_iff.mp hv

end Counter

theorem controller_filled (env : String → Option String) :
    IsSilent env Variable.controller ∧ (filled env).controller = defaults.controller ∨
      Says env Variable.controller (filled env).controller := by
  have hname : (filled env).controller = (name? env Variable.controller).getD defaults.controller :=
    rfl
  rw [hname]
  rcases isSilent_or_said env Variable.controller with hsilent | ⟨raw, hsaid⟩
  · refine Or.inl ⟨hsilent, ?_⟩
    have hnone : name? env Variable.controller = none := by
      rw [name?, Option.filter_eq_none_iff]
      intro raw hraw
      simp [Text.trim_eq_nil_iff.mpr (hsilent raw hraw)]
    rw [hnone]
    rfl
  · have hsome : name? env Variable.controller = some raw := by
      rw [name?, hsaid.1]
      simp [(says_iff.mp hsaid).2]
    rw [hsome]
    exact Or.inr hsaid

theorem describes_filled (h : ∀ c ∈ checks, ∀ e, ¬c.Fails env e) : Describes env (filled env) := by
  have hnumber {v : Counter} (hv : v ∈ Counter.all) : v.Gives env (v.field (filled env)) := by
    rw [Counter.field_filled hv]
    exact Counter.gives_given (h _ (Counter.number_mem_checks hv))
  have hpositive {v : Counter} (hv : v ∈ Counter.all) (hc : .positive v ∈ checks) :
      1 ≤ v.field (filled env) := by
    by_contra hzero
    have hgives := hnumber hv
    rw [Nat.lt_one_iff.mp (Nat.not_le.mp hzero)] at hgives
    exact h _ hc _ (.positive hgives)
  refine ⟨fun v hv => hnumber hv, ?_, controller_filled env, ?_, ?_, ?_, ?_⟩
  · show GivesAddress env ((value env Variable.probeAddress defaults.probeAddress
      SocketAddress.read?).toOption.getD defaults.probeAddress)
    cases ha : value env Variable.probeAddress defaults.probeAddress SocketAddress.read? with
    | error e =>
      obtain ⟨raw, hsaid, hbad, -⟩ := (value_eq_error_iff fun _ _ => Iff.rfl).mp ha
      exact absurd (.address hsaid hbad) (h .address (by simp [checks]) _)
    | ok a => exact (value_eq_ok_iff fun _ _ => Iff.rfl).mp ha
  · show (if Counter.silenceTimeout.given env = 0 then none
      else some (Counter.silenceTimeout.given env)) ≠ some 0
    split
    · simp
    · next hne => simpa using hne
  · exact hpositive (v := .concurrency) (by simp [Counter.all]) (by simp [checks])
  · by_contra hbounds
    exact h .backoff (by simp [checks]) _ (.backoff (hnumber (v := .leastBackoff)
      (by simp [Counter.all])) (hnumber (v := .mostBackoff) (by simp [Counter.all])) hbounds)
  · exact hpositive (v := .deletionRequeue) (by simp [Counter.all]) (by simp [checks])

theorem Describes.passes (h : Describes env s) : ∀ c ∈ checks, ∀ e, ¬c.Fails env e := by
  intro c hc e hfails
  cases hfails with
  | @number v raw hsaid hbad =>
    have hv : v ∈ Counter.all := by simpa [checks, Counter.all] using hc
    exact hbad _ ((h.numbers _ hv).told_of_said hsaid)
  | @positive v hzero =>
    have hv : v = .concurrency ∨ v = .deletionRequeue := by simpa [checks] using hc
    rcases hv with rfl | rfl
    · have hn := hzero.unique (h.numbers _ (by simp [Counter.all]))
      have hpos := h.concurrency
      exact absurd hn (Nat.ne_of_lt hpos)
    · have hn := hzero.unique (h.numbers _ (by simp [Counter.all]))
      have hpos := h.deletionRequeue
      exact absurd hn (Nat.ne_of_lt hpos)
  | backoff hleast hmost hbounds =>
    have hl := hleast.unique (h.numbers _ (by simp [Counter.all]))
    have hm := hmost.unique (h.numbers _ (by simp [Counter.all]))
    exact hbounds (hl ▸ hm ▸ h.backoff)
  | address hsaid hbad => exact hbad _ (h.address.told_of_said hsaid)

/-- No environment gives two settings. -/
theorem Describes.unique {s' : Settings} (h : Describes env s) (h' : Describes env s') :
    s = s' := by
  have hnumbers : ∀ v ∈ Counter.all, v.field s = v.field s' :=
    fun v hv => (h.numbers v hv).unique (h'.numbers v hv)
  simp only [Counter.all, List.forall_mem_cons] at hnumbers
  obtain ⟨hconcurrency, hleast, hmost, hvalue, hwindow, hrequeue, hretries, hdebounce, -⟩ :=
    hnumbers
  have haddress : s.probeAddress = s'.probeAddress :=
    Gives.unique (fun _ _ _ hx hy => Option.some.inj (hx.symm.trans hy)) h.address h'.address
  have hcontroller : s.controller = s'.controller := by
    rcases h.controller with ⟨hsilent, hdefault⟩ | hsaid
    · rcases h'.controller with ⟨-, hdefault'⟩ | hsaid'
      · exact hdefault.trans hdefault'.symm
      · exact absurd hsilent (not_isSilent hsaid')
    · rcases h'.controller with ⟨hsilent, -⟩ | hsaid'
      · exact absurd hsilent (not_isSilent hsaid)
      · exact hsaid'.unique hsaid
  have htimeout : s.silenceTimeout = s'.silenceTimeout := by
    have hsome := h.timeout
    have hsome' := h'.timeout
    change s.silenceTimeout.getD 0 = s'.silenceTimeout.getD 0 at hvalue
    cases ht : s.silenceTimeout <;> cases ht' : s'.silenceTimeout <;> simp_all
  obtain ⟨_, _, _, _, _, _, _, _, _, _⟩ := s
  obtain ⟨_, _, _, _, _, _, _, _, _, _⟩ := s'
  simp only [Settings.mk.injEq]
  exact ⟨hconcurrency, hleast, hmost, htimeout, hwindow, hrequeue, hretries, hdebounce, haddress,
    hcontroller⟩

theorem findSome?_report_eq_none_iff :
    checks.findSome? (Check.report env) = none ↔ ∀ c ∈ checks, ∀ e, ¬c.Fails env e := by
  rw [List.findSome?_eq_none_iff]
  simp only [Option.eq_none_iff_forall_ne_some, ne_eq, Check.report_eq_some_iff]

theorem ofEnv_eq_ok_iff : ofEnv env = .ok s ↔ Describes env s := by
  rw [ofEnv_eq, first]
  cases hreport : checks.findSome? (Check.report env) with
  | some e =>
    constructor
    · intro h
      cases h
    · intro h
      rw [findSome?_report_eq_none_iff.mpr h.passes] at hreport
      cases hreport
  | none =>
    have hfilled := describes_filled (findSome?_report_eq_none_iff.mp hreport)
    rw [Except.ok.injEq]
    constructor
    · rintro rfl
      exact hfilled
    · exact hfilled.unique

/-- The error is that of the first check that fails. -/
theorem ofEnv_eq_error_iff : ofEnv env = .error e ↔ ∃ before c after,
    checks = before ++ c :: after ∧ c.Fails env e ∧ ∀ d ∈ before, ∀ e', ¬d.Fails env e' := by
  have hfound : ofEnv env = .error e ↔ checks.findSome? (Check.report env) = some e := by
    rw [ofEnv_eq, first]
    cases checks.findSome? (Check.report env) <;> simp
  rw [hfound, List.findSome?_eq_some_iff]
  simp only [Check.report_eq_some_iff, Option.eq_none_iff_forall_ne_some, ne_eq]

/-! ## Settings as an environment -/

/-- The variables with the settings as their texts. -/
def texts (s : Settings) : List (String × String) :=
  Counter.all.map (fun v => (v.name, Text.decimal (v.field s))) ++
    [(Variable.probeAddress, s.probeAddress.text), (Variable.controller, s.controller)]

def toEnv (s : Settings) (name : String) : Option String := s.texts.lookup name

theorem toEnv_counter {v : Counter} (hv : v ∈ Counter.all) (s : Settings) :
    s.toEnv v.name = some (Text.decimal (v.field s)) := by
  simp only [Counter.all, List.mem_cons, List.not_mem_nil, or_false] at hv
  rcases hv with rfl | rfl | rfl | rfl | rfl | rfl | rfl | rfl <;> rfl

theorem says_decimal {n : Nat} (h : env name = some (Text.decimal n)) :
    Says env name (Text.decimal n) := by
  refine says_iff.mpr ⟨h, ?_⟩
  rw [Text.trim_decimal, Text.decimal, Text.padded, String.toList_ofList]
  exact Text.toDigits_ne_nil 10 1 n

theorem gives_toEnv {v : Counter} (hv : v ∈ Counter.all) (h : v.Gives env (v.field s)) :
    v.Gives s.toEnv (v.field s) := by
  refine .told (says_decimal (toEnv_counter hv s)) ⟨?_, h.lt hv⟩
  rw [Text.trim_decimal]
  exact Text.isNumeral_decimal _

theorem givesAddress_toEnv (s : Settings) : GivesAddress s.toEnv s.probeAddress := by
  have hread := s.probeAddress.read?_text
  refine .told (says_iff.mpr ⟨rfl, ?_⟩) ?_
  · rw [SocketAddress.trim_text]
    intro hnil
    rw [hnil] at hread
    cases hread
  · rw [SocketAddress.trim_text]
    exact hread

/-- The name that the settings have is not blank: it was given, or it is the default. -/
theorem Describes.says_controller (h : Describes env s) :
    Says s.toEnv Variable.controller s.controller := by
  refine ⟨rfl, ?_⟩
  rcases h.controller with ⟨-, hdefault⟩ | hsaid
  · rw [hdefault]
    exact ⟨'h', by decide, by decide⟩
  · exact hsaid.2

theorem Describes.toEnv (h : Describes env s) : Describes s.toEnv s where
  numbers v hv := gives_toEnv hv (h.numbers v hv)
  address := givesAddress_toEnv s
  controller := Or.inr h.says_controller
  timeout := h.timeout
  concurrency := h.concurrency
  backoff := h.backoff
  deletionRequeue := h.deletionRequeue

theorem Gives.congr {env' : String → Option String} (henv : env name = env' name)
    (h : Gives env name initial tells x) : Gives env' name initial tells x := by
  cases h with
  | silent hsilent => exact .silent fun raw hraw => hsilent raw (henv.trans hraw)
  | told hsaid hx => exact .told ⟨henv.symm.trans hsaid.1, hsaid.2⟩ hx

/-- An environment is accepted exactly if it describes settings, and these are then read.  If it is
not, the first check that fails is reported.  Each number is read from its own variable alone, and
the texts of accepted settings are read as the same settings. -/
theorem environment_decides (env : String → Option String) :
    (∀ s, ofEnv env = .ok s ↔ Describes env s) ∧
    (∀ e, ofEnv env = .error e ↔ ∃ before c after,
      checks = before ++ c :: after ∧ c.Fails env e ∧ ∀ d ∈ before, ∀ e', ¬d.Fails env e') ∧
    (∀ env' s s', ofEnv env = .ok s → ofEnv env' = .ok s' →
      ∀ v ∈ Counter.all, env v.name = env' v.name → v.field s = v.field s') ∧
    ∀ s, ofEnv env = .ok s → ofEnv s.toEnv = .ok s := by
  refine ⟨fun s => ofEnv_eq_ok_iff, fun e => ofEnv_eq_error_iff, ?_, ?_⟩
  · intro env' s s' hs hs' v hv henv
    have hgives := (ofEnv_eq_ok_iff.mp hs).numbers v hv
    have hgives' := (ofEnv_eq_ok_iff.mp hs').numbers v hv
    exact Counter.Gives.unique (hgives.congr henv) hgives'
  · intro s hs
    exact ofEnv_eq_ok_iff.mpr (ofEnv_eq_ok_iff.mp hs).toEnv

/-- Blanks, a sign and zeros in front, a timeout of zero, and an address with a scope. -/
def untidy : String → Option String := fun name => List.lookup name [
  (Variable.concurrency, "\t+0016 "), (Variable.leastBackoff, "7"), (Variable.mostBackoff, "\n"),
  (Variable.silenceTimeout, "0"), (Variable.probeAddress, " [FE80:0:0::1%3]:080"),
  (Variable.controller, " hosted ")]

theorem environment_decides_of_untidy :
    let s : Settings := {
      concurrency := 16, leastBackoff := 7, silenceTimeout := none
      probeAddress := ⟨.groups ⟨#[0xfe80, 0, 0, 0, 0, 0, 0, 1], rfl⟩ 3, 80⟩
      controller := " hosted " }
    ofEnv untidy = .ok s ∧ s.toEnv Variable.probeAddress = some "[fe80::1%3]:80" ∧
      ofEnv s.toEnv = .ok s := by
  have hread : ofEnv untidy = .ok {
      concurrency := 16, leastBackoff := 7, silenceTimeout := none
      probeAddress := ⟨.groups ⟨#[0xfe80, 0, 0, 0, 0, 0, 0, 1], rfl⟩ 3, 80⟩
      controller := " hosted " } := by decide +kernel
  exact ⟨hread, by decide +kernel, (environment_decides untidy).2.2.2 _ hread⟩

end Settings
end Hosting
