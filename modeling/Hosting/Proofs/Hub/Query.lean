import Hosting.Hub.Http
import Hosting.Proofs.Text.Form
import Hosting.Proofs.Text.Split

/-!
# What a server reads in a URI

The parameters of a call stand after a `?`, each after a `&` (`parameters?`).  Since their values
are encoded, they are read as they were meant whatever characters they hold
(`parameters?_encoded`), and nothing in them keeps a URI from being sent (`sentUri?_encoded`).
-/

namespace Hosting
namespace Hub
namespace Call

variable {c : Char} {path : List Char} {ps : List (String × String)}

/-! ## Reading -/

def parameter? (cs : List Char) : Option (String × String) :=
  match Text.cutAt? '=' cs with
  | none => (Text.formValue? cs).map (·, "")
  | some (k, v) => do some (← Text.formValue? k, ← Text.formValue? v)

/-- The parameters that a server reads in a URI, empty ones left out. -/
def parameters? (uri : String) : Option (List (String × String)) :=
  match Text.cutAt? '?' uri.toList with
  | none => some []
  | some (_, query) => ((Text.splitAt '&' query).filter (· ≠ [])).mapM parameter?

/-- A parameter as it is written. -/
def parameter (p : String × String) : List Char :=
  p.1.toList ++ '=' :: (Text.formEncoded p.2).toList

/-- The name of a parameter that encoding would not change. -/
def IsPlain (name : String) : Prop := Text.formEncoded name = name

instance (name : String) : Decidable (IsPlain name) := inferInstanceAs (Decidable (_ = _))

theorem IsPlain.isFormChar {name : String} (h : IsPlain name) (hc : c ∈ name.toList) :
    Text.isFormChar c = true := by
  rw [← show Text.formEncoded name = name from h] at hc
  exact Text.isFormChar_of_mem_formEncoded hc

theorem ne_of_isFormChar {x : Char} (h : Text.isFormChar c = true)
    (hx : Text.isFormChar x = false) : x ≠ c := by
  rintro rfl
  rw [hx] at h
  cases h

theorem parameter?_parameter {p : String × String} (h : IsPlain p.1) :
    parameter? (parameter p) = some p := by
  have hequal : '=' ∉ p.1.toList := fun hc => ne_of_isFormChar (h.isFormChar hc) rfl rfl
  have hname : Text.formValue? p.1.toList = some p.1 := by
    have hread := Text.formValue?_formEncoded p.1
    rwa [show Text.formEncoded p.1 = p.1 from h] at hread
  unfold parameter? parameter
  rw [Text.cutAt?_append_cons hequal]
  show (Text.formValue? p.1.toList).bind _ = _
  rw [hname, Option.bind_some, Text.formValue?_formEncoded]
  rfl

theorem amp_notMem_parameter {p : String × String} (h : IsPlain p.1) : '&' ∉ parameter p := by
  intro hc
  rcases List.mem_append.mp hc with hc | hc
  · exact ne_of_isFormChar (h.isFormChar hc) rfl rfl
  · rcases List.mem_cons.mp hc with hc | hc
    · cases hc
    · exact ne_of_isFormChar (Text.isFormChar_of_mem_formEncoded hc) rfl rfl

theorem parameter_ne_nil (p : String × String) : parameter p ≠ [] := by
  simp [parameter]

theorem mapM_parameter (h : ∀ p ∈ ps, IsPlain p.1) :
    (ps.map parameter).mapM parameter? = some ps := by
  induction ps with
  | nil => rfl
  | cons p ps ih =>
    rw [List.forall_mem_cons] at h
    rw [List.map_cons, List.mapM_cons, parameter?_parameter h.1, ih h.2]
    rfl

/-- The parameters of a URI are read as those that it was made for. -/
theorem parameters?_encoded (hpath : '?' ∉ path) (h : ∀ p ∈ ps, IsPlain p.1) {uri : String}
    (huri : uri.toList = path ++ '?' :: ps.flatMap fun p => '&' :: parameter p) :
    parameters? uri = some ps := by
  have hamp : ∀ q ∈ ps.map parameter, '&' ∉ q := by
    intro q hq
    obtain ⟨p, hp, rfl⟩ := List.mem_map.mp hq
    exact amp_notMem_parameter (h p hp)
  have hpieces : (([] :: ps.map parameter).filter (· ≠ [])) = ps.map parameter := by
    rw [List.filter_cons_of_neg (by simp), List.filter_eq_self]
    intro q hq
    obtain ⟨p, -, rfl⟩ := List.mem_map.mp hq
    exact decide_eq_true (parameter_ne_nil p)
  have hsplit := Text.splitAt_flatMap_cons hamp
  rw [List.flatMap_map] at hsplit
  unfold parameters?
  rw [huri, Text.cutAt?_append_cons hpath]
  dsimp only
  rw [hsplit, hpieces, mapM_parameter h]

theorem plain_labelSelector : IsPlain "labelSelector" := by decide +kernel

/-- A selector is read as the label selector that it is. -/
theorem parameters?_list {path : String} (hpath : '?' ∉ path.toList) (selector : Option String) :
    parameters? (list path selector).uri = some (selector.toList.map ("labelSelector", ·)) := by
  refine parameters?_encoded hpath (fun p hp => ?_) ?_
  · obtain ⟨s, -, rfl⟩ := List.mem_map.mp hp
    exact plain_labelSelector
  · cases selector with
    | none => simp [list]
    | some s => simp [list, parameter]

/-! ## Sending -/

/-- A character that does not keep a URI from being sent. -/
def isOpen (c : Char) : Bool := c != '#' && !isBarred false c && !isBarred true c

theorem isOpen_of_isFormChar (h : Text.isFormChar c = true) : isOpen c = true := by
  have hall : ∀ n < 128, Text.isFormChar (Char.ofNat n) = true → isOpen (Char.ofNat n) = true := by
    decide
  have hopen := hall c.toNat (Text.toNat_lt_of_isFormChar h)
  rw [Char.ofNat_toNat] at hopen
  exact hopen h

theorem sentUri?_of_isOpen {uri : String} (h : ∀ c ∈ uri.toList, isOpen c = true) :
    sentUri? uri = if uri.utf8ByteSize ≤ longestUri then some uri else none := by
  have hparts : ∀ c ∈ uri.toList, (c != '#') = true ∧ isBarred false c = false ∧
      isBarred true c = false := by
    simpa [isOpen, and_assoc] using h
  have hwhole : uri.toList.takeWhile (· != '#') = uri.toList :=
    List.takeWhile_eq_self_iff.mpr fun c hc => (hparts c hc).1
  have hpath : (uri.toList.takeWhile (· != '?')).any (isBarred false) = false :=
    List.any_eq_false.mpr fun c hc =>
      Bool.not_eq_true _ ▸ (hparts c ((List.takeWhile_sublist _).subset hc)).2.1
  have hquery : (uri.toList.dropWhile (· != '?')).any (isBarred true) = false :=
    List.any_eq_false.mpr fun c hc =>
      Bool.not_eq_true _ ▸ (hparts c ((List.dropWhile_sublist _).subset hc)).2.2
  simp [sentUri?, hwhole, hpath, hquery]

/-- A URI with parameters can be sent unless it is too long. -/
theorem sentUri?_encoded (hpath : ∀ c ∈ path, isOpen c = true) (h : ∀ p ∈ ps, IsPlain p.1)
    {uri : String} (huri : uri.toList = path ++ '?' :: ps.flatMap fun p => '&' :: parameter p) :
    sentUri? uri = if uri.utf8ByteSize ≤ longestUri then some uri else none := by
  refine sentUri?_of_isOpen fun c hc => ?_
  rw [huri] at hc
  rcases List.mem_append.mp hc with hc | hc
  · exact hpath c hc
  rcases List.mem_cons.mp hc with rfl | hc
  · rfl
  obtain ⟨p, hp, hc⟩ := List.mem_flatMap.mp hc
  rcases List.mem_cons.mp hc with rfl | hc
  · rfl
  rcases List.mem_append.mp hc with hc | hc
  · exact isOpen_of_isFormChar ((h p hp).isFormChar hc)
  rcases List.mem_cons.mp hc with rfl | hc
  · rfl
  · exact isOpen_of_isFormChar (Text.isFormChar_of_mem_formEncoded hc)

end Call
end Hub
end Hosting
