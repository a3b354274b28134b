import Hosting.Payload
import Hosting.Proofs.Json
import Hosting.Proofs.Text.Utf8

/-!
# What payloads hold

What a document calls not a number is read as no number at all, so that each object of a
payload agrees with itself (`agrees_self_of_decodeAll`).  A payload is of use exactly when it is
a text each of whose documents describes an object (`exists_decodeAll_iff`).
-/

namespace Hosting

theorem Binary64.agrees_self_of_isFinite {x : Binary64} (h : x.isFinite = true) :
    x.agrees x = true := by
  have hle : x.magnitude ≤ infinity := Nat.le_of_lt (of_decide_eq_true h)
  simp [agrees, hle]

namespace Yaml

/-! ## Scalars -/

theorem agrees_self_of_float? {cs : List Char} {v : Json} (h : float? cs = some v) :
    v.agrees v = true := by
  unfold float? at h
  dsimp only at h
  split at h
  · cases h
  · split at h
    · cases h
      rfl
    · split at h
      · next x _ =>
        rw [Option.ite_none_right_eq_some, Option.some.injEq] at h
        obtain ⟨hfinite, rfl⟩ := h
        exact Binary64.agrees_self_of_isFinite hfinite
      · cases h

theorem agrees_self_of_string (s : String) : (Json.string s).agrees (.string s) = true :=
  beq_self_eq_true s

theorem agrees_self_of_plainValue? {cs : List Char} {v : Json} (h : plainValue? cs = some v) :
    v.agrees v = true := by
  have hother : ∀ w, (if isZeroPadded cs then Json.string (String.ofList cs)
      else (float? cs).getD (.string (String.ofList cs))) = w → w.agrees w = true := by
    rintro w rfl
    split
    · exact agrees_self_of_string _
    · cases hf : float? cs with
      | none => exact agrees_self_of_string _
      | some x => exact agrees_self_of_float? hf
  unfold plainValue? at h
  split at h
  · cases h
    rfl
  · split at h
    · cases h
      exact beq_self_eq_true _
    · dsimp only at h
      split at h
      · exact hother v (Option.some.inj h)
      · split at h
        · cases h
          exact beq_self_eq_true _
        · cases h
        · exact hother v (Option.some.inj h)

theorem agrees_self_of_untypedValue? {style : Style} {text : List Char} {v : Json}
    (h : untypedValue? style text = some v) : v.agrees v = true := by
  unfold untypedValue? at h
  split at h
  · exact agrees_self_of_plainValue? h
  · cases h
    exact agrees_self_of_string _

theorem agrees_self_of_scalarValue? {props : Props} {style : Style} {text : List Char} {v : Json}
    (h : scalarValue? props style text = some v) : v.agrees v = true := by
  unfold scalarValue? at h
  split at h
  · exact agrees_self_of_untypedValue? h
  next tag _ =>
  split at h
  · cases h
  split at h
  · obtain ⟨b, -, rfl⟩ := Option.map_eq_some_iff.mp h
    exact beq_self_eq_true b
  split at h
  · split at h
    · cases h
    · split at h
      · cases h
        exact beq_self_eq_true _
      · cases h
  split at h
  · exact agrees_self_of_float? h
  split at h
  · rw [Option.ite_none_right_eq_some, Option.some.injEq] at h
    obtain ⟨-, rfl⟩ := h
    rfl
  split at h
  · exact agrees_self_of_untypedValue? h
  · cases h
    exact agrees_self_of_string _

/-! ## Values -/

/-- Whatever is read fits. -/
def Reads {α : Type} (P : α → Prop) (r : Reading α) : Prop := ∀ n x, r.run n = some x → P x.1

section

variable {α β : Type} {P : α → Prop} {R : β → Prop}

theorem reads_pure {a : α} (h : P a) : Reads P (pure a) := by
  rintro n x hx
  cases hx
  exact h

theorem reads_failure : Reads P (failure : Reading α) := fun _ _ hx => nomatch hx

theorem reads_lift {o : Option α} (h : ∀ a, o = some a → P a) : Reads P (StateT.lift o) := by
  intro n x hx
  obtain ⟨a, ha, hx⟩ := Option.bind_eq_some_iff.mp hx
  cases hx
  exact h a ha

theorem reads_bind {r : Reading α} {f : α → Reading β} (h : Reads P r)
    (hf : ∀ a, P a → Reads R (f a)) : Reads R (r >>= f) := by
  intro n x hx
  obtain ⟨y, hy, hx⟩ := Option.bind_eq_some_iff.mp hx
  exact hf y.1 (h n y hy) y.2 x hx

theorem reads_any (r : Reading α) : Reads (fun _ => True) r := fun _ _ _ => trivial

theorem reads_mapM {f : α → Reading β} {xs : List α} (h : ∀ x ∈ xs, Reads R (f x)) :
    Reads (fun ys => ∀ y ∈ ys, R y) (xs.mapM f) := by
  induction xs with
  | nil =>
    rw [List.mapM_nil]
    exact reads_pure fun y hy => nomatch hy
  | cons x xs ih =>
    rw [List.mapM_cons]
    refine reads_bind (h x List.mem_cons_self) fun y hy => ?_
    refine reads_bind (ih fun z hz => h z (List.mem_cons_of_mem x hz)) fun ys hys => ?_
    refine reads_pure fun z hz => ?_
    rcases List.mem_cons.mp hz with rfl | hz
    · exact hy
    · exact hys z hz

end

/-- Collections agree with themselves when all that they hold does. -/
theorem agrees_self_of_valueOf (root : Node) (depth : Nat) (n : Node) :
    Reads (fun v => v.agrees v = true) (valueOf root depth n) := by
  induction depth generalizing n with
  | zero =>
    unfold valueOf
    refine reads_bind (reads_any _) fun m _ => ?_
    split
    · exact reads_lift fun v => agrees_self_of_scalarValue?
    · exact reads_failure
  | succ depth ih =>
    unfold valueOf
    refine reads_bind (reads_any _) fun m _ => ?_
    split
    · exact reads_lift fun v => agrees_self_of_scalarValue?
    · refine reads_bind (reads_any _) fun _ _ => ?_
      refine reads_bind (reads_mapM fun x _ => ih x) fun vs hvs => ?_
      exact reads_pure (Json.agreesItems_self_iff.mpr hvs)
    · refine reads_bind (reads_any _) fun _ _ => ?_
      refine reads_bind (reads_mapM (R := fun m : String × Json => m.2.agrees m.2 = true)
        fun kv _ => ?_) fun ms hms => ?_
      · refine reads_bind (reads_any _) fun k _ => ?_
        exact reads_bind (ih kv.2) fun v hv => reads_pure hv
      · obtain ⟨os, hos, hself⟩ := Json.forall_ofMembers (P := fun v => v.agrees v = true) hms
        rw [hos]
        exact reads_pure (Json.agreesMembers_self_iff.mpr hself)
    · exact reads_failure

theorem agrees_self_of_read? {text : String} {v : Json} (h : read? text = some v) :
    v.agrees v = true := by
  obtain ⟨ts, -, h⟩ := Option.bind_eq_some_iff.mp h
  obtain ⟨root, -, h⟩ := Option.bind_eq_some_iff.mp h
  cases root with
  | none =>
    cases h
    rfl
  | some n =>
    obtain ⟨x, hx, rfl⟩ := Option.map_eq_some_iff.mp h
    exact agrees_self_of_valueOf n maxDepth n 0 x hx

end Yaml

/-! ## Payloads -/

namespace Payload

theorem hasText_iff {v : Json} {field : String} :
    hasText v field = true ↔ ∃ s, v.member? field = some (.string s) ∧ s ≠ "" := by
  rw [hasText, Option.any_eq_true]
  constructor
  · rintro ⟨s, hs, hne⟩
    obtain ⟨w, hw, hstring⟩ := Option.bind_eq_some_iff.mp hs
    refine ⟨s, ?_, bne_iff_ne.mp hne⟩
    cases w <;> first | cases hstring; exact hw | cases hstring
  · rintro ⟨s, hs, hne⟩
    refine ⟨s, ?_, bne_iff_ne.mpr hne⟩
    rw [hs]
    rfl

/-- An object that says its version and its kind. -/
def IsDescribed (v : Json) : Prop := ∃ members version kind, v = .object members ∧
  v.member? "apiVersion" = some (.string version) ∧ version ≠ "" ∧
  v.member? "kind" = some (.string kind) ∧ kind ≠ ""

theorem described_eq_ok_iff {found : Except String Json} {v : Json} :
    described found = .ok v ↔ found = .ok v ∧ IsDescribed v := by
  constructor
  · intro h
    unfold described at h
    split at h
    · cases h
    · next ms =>
      split at h
      · cases h
      next hversion =>
      split at h
      · cases h
      next hkind =>
      cases h
      simp only [Bool.not_eq_true', Bool.not_eq_false] at hversion hkind
      obtain ⟨version, hversion⟩ := hasText_iff.mp hversion
      obtain ⟨kind, hkind⟩ := hasText_iff.mp hkind
      exact ⟨rfl, ms, version, kind, rfl, hversion.1, hversion.2, hkind⟩
    · cases h
  · rintro ⟨rfl, ms, version, kind, rfl, hversion, hversion', hkind, hkind'⟩
    have hversion := hasText_iff.mpr ⟨version, hversion, hversion'⟩
    have hkind := hasText_iff.mpr ⟨kind, hkind, hkind'⟩
    simp [described, hversion, hkind]

theorem decode_eq_ok_iff {document : String} {v : Json} :
    decode document = .ok v ↔ Yaml.read? document = some v ∧ IsDescribed v := by
  rw [← Yaml.read_eq_ok_iff]
  exact described_eq_ok_iff

theorem agrees_self_of_decode {document : String} {v : Json} (h : decode document = .ok v) :
    v.agrees v = true :=
  Yaml.agrees_self_of_read? (decode_eq_ok_iff.mp h).1

theorem agrees_self_of_decodeFrom {index : Nat} {ds : List (List Char)} {vs : List Json}
    (h : decodeFrom index ds = .ok vs) : ∀ v ∈ vs, v.agrees v = true := by
  induction ds generalizing index vs with
  | nil =>
    cases h
    intro v hv
    cases hv
  | cons d ds ih =>
    unfold decodeFrom at h
    split at h
    · cases h
    · next w hw =>
      cases hrest : decodeFrom (index + 1) ds with
      | error r =>
        rw [hrest] at h
        cases h
      | ok ws =>
        rw [hrest] at h
        cases h
        intro v hv
        rcases List.mem_cons.mp hv with rfl | hv
        · exact agrees_self_of_decode hw
        · exact ih hrest v hv

theorem agrees_self_of_decodeAll {payload : Bytes} {vs : List Json}
    (h : decodeAll payload = .ok vs) : ∀ v ∈ vs, v.agrees v = true := by
  unfold decodeAll at h
  split at h
  · cases h
  · exact agrees_self_of_decodeFrom h

/-- The document describes an object: it says its version and its kind. -/
def Describes (document : List Char) : Prop :=
  ∃ v version kind, Yaml.read? (String.ofList document) = some v ∧
    v.member? "apiVersion" = some (.string version) ∧ version ≠ "" ∧
    v.member? "kind" = some (.string kind) ∧ kind ≠ ""

theorem exists_decode_iff {d : List Char} :
    (∃ v, decode (String.ofList d) = .ok v) ↔ Describes d := by
  simp only [decode_eq_ok_iff]
  constructor
  · rintro ⟨v, hread, ms, version, kind, -, hdescribed⟩
    exact ⟨v, version, kind, hread, hdescribed⟩
  · rintro ⟨v, version, kind, hread, hversion, hrest⟩
    -- what has a member is a mapping
    obtain ⟨ms, rfl⟩ : ∃ ms, v = .object ms := by
      cases v <;> first | exact ⟨_, rfl⟩ | cases hversion
    exact ⟨.object ms, hread, ms, version, kind, rfl, hversion, hrest⟩

theorem exists_decodeFrom_iff {index : Nat} {ds : List (List Char)} :
    (∃ vs, decodeFrom index ds = .ok vs) ↔ ∀ d ∈ ds, Describes d := by
  induction ds generalizing index with
  | nil => exact iff_of_true ⟨[], rfl⟩ fun d hd => nomatch hd
  | cons d ds ih =>
    rw [List.forall_mem_cons, ← exists_decode_iff, ← @ih (index + 1)]
    rw [decodeFrom]
    cases decode (String.ofList d) with
    | error f => simp
    | ok v => cases decodeFrom (index + 1) ds <;> simp [Except.map]

theorem exists_decodeAll_iff {payload : Bytes} : (∃ vs, decodeAll payload = .ok vs) ↔
    ∃ text, Utf8.encode text = payload ∧ ∀ d ∈ documents text, Describes d := by
  simp only [← Utf8.decode_eq_ok_iff]
  unfold decodeAll
  cases Utf8.decode payload with
  | error f => simp
  | ok text => simp [exists_decodeFrom_iff]

end Payload

end Hosting
