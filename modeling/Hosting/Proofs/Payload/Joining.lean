import Hosting.HostedWork
import Hosting.Proofs.Payload.Documents

/-!
# Payloads joined by a dividing line

The documents of two streams with a dividing line between them are those of the one and then those
of the other.  So the objects of the whole follow from those of the parts, and so does the first
document that is at fault, and its number (`objects_of_joined`).  This does not depend on how a
document is read, and is stated for any way of reading one.
-/

namespace Hosting
namespace Payload

/-! ## Any way of reading -/

/-- The objects of documents that are read by `read`, numbered from `index`. -/
def objectsFrom (read : String → Except String Json) (index : Nat) :
    List (List Char) → Except Rejection (List Json)
  | [] => .ok []
  | d :: ds =>
    match described (read (String.ofList d)) with
    | .error f => .error ⟨index, f.message⟩
    | .ok v => (objectsFrom read (index + 1) ds).map (v :: ·)

/-- The objects of a payload. -/
def objects (read : String → Except String Json) (payload : Bytes) :
    Except Rejection (List Json) :=
  match Utf8.decode payload with
  | .error f => .error ⟨0, f.message⟩
  | .ok text => objectsFrom read 0 (documents text)

theorem decodeFrom_eq_objectsFrom (index : Nat) (ds : List (List Char)) :
    decodeFrom index ds = objectsFrom Yaml.read index ds := by
  induction ds generalizing index with
  | nil => rfl
  | cons d ds ih =>
    cases hfound : described (Yaml.read (String.ofList d)) with
    | error f => simp only [decodeFrom, objectsFrom, decode, hfound]
    | ok v => simp only [decodeFrom, objectsFrom, decode, hfound, ih]

theorem decodeAll_eq_objects (payload : Bytes) :
    decodeAll payload = objects Yaml.read payload := by
  unfold decodeAll objects
  cases Utf8.decode payload with
  | error f => rfl
  | ok text => exact decodeFrom_eq_objectsFrom 0 (documents text)

/-! ## Documents one after another -/

/-- The same fault after `n` more documents. -/
def Rejection.after (n : Nat) (r : Rejection) : Rejection := ⟨n + r.index, r.reason⟩

variable {read : String → Except String Json} {index : Nat} {ds es : List (List Char)}
  {vs ws : List Json} {r : Rejection}

theorem objectsFrom_add (n index : Nat) (ds : List (List Char)) :
    objectsFrom read (n + index) ds = (objectsFrom read index ds).mapError (·.after n) := by
  induction ds generalizing index with
  | nil => rfl
  | cons d ds ih =>
    rw [objectsFrom, objectsFrom, Nat.add_assoc, ih]
    cases described (read (String.ofList d)) with
    | error f => rfl
    | ok v => cases objectsFrom read (index + 1) ds <;> rfl

theorem length_of_objectsFrom (h : objectsFrom read index ds = .ok vs) :
    vs.length = ds.length := by
  induction ds generalizing index vs with
  | nil =>
    cases h
    rfl
  | cons d ds ih =>
    rw [objectsFrom] at h
    cases hd : described (read (String.ofList d)) with
    | error f =>
      rw [hd] at h
      cases h
    | ok v =>
      cases hds : objectsFrom read (index + 1) ds with
      | error r =>
        rw [hd, hds] at h
        cases h
      | ok us =>
        rw [hd, hds] at h
        cases h
        rw [List.length_cons, List.length_cons, ih hds]

/-- The first document at fault decides. -/
theorem objectsFrom_append_of_error (h : objectsFrom read index ds = .error r)
    (es : List (List Char)) : objectsFrom read index (ds ++ es) = .error r := by
  induction ds generalizing index with
  | nil => cases h
  | cons d ds ih =>
    rw [objectsFrom] at h
    rw [List.cons_append, objectsFrom]
    cases hd : described (read (String.ofList d)) with
    | error f =>
      rw [hd] at h
      exact h
    | ok v =>
      cases hds : objectsFrom read (index + 1) ds with
      | error r' =>
        rw [hd, hds] at h
        cases h
        rw [ih hds]
        rfl
      | ok us =>
        rw [hd, hds] at h
        cases h

theorem objectsFrom_append_of_ok (h : objectsFrom read index ds = .ok vs)
    (es : List (List Char)) : objectsFrom read index (ds ++ es) =
      (objectsFrom read (ds.length + index) es).map (vs ++ ·) := by
  induction ds generalizing index vs with
  | nil =>
    cases h
    rw [List.nil_append, List.length_nil, Nat.zero_add]
    cases objectsFrom read index es <;> rfl
  | cons d ds ih =>
    rw [objectsFrom] at h
    rw [List.cons_append, objectsFrom]
    cases hd : described (read (String.ofList d)) with
    | error f =>
      rw [hd] at h
      cases h
    | ok v =>
      cases hds : objectsFrom read (index + 1) ds with
      | error r =>
        rw [hd, hds] at h
        cases h
      | ok us =>
        have hindex : ds.length + (index + 1) = (d :: ds).length + index := by
          rw [List.length_cons]
          omega
        rw [hd, hds] at h
        cases h
        rw [ih hds, hindex]
        cases objectsFrom read ((d :: ds).length + index) es <;> rfl

/-- A fault is that of the first document that describes nothing. -/
theorem fault_of_objectsFrom (h : objectsFrom read index ds = .error r) :
    ∃ before d after f, ds = before ++ d :: after ∧
      (∀ e ∈ before, ∃ v, described (read (String.ofList e)) = .ok v) ∧
      described (read (String.ofList d)) = .error f ∧ r = ⟨before.length + index, f.message⟩ := by
  induction ds generalizing index with
  | nil => cases h
  | cons d ds ih =>
    rw [objectsFrom] at h
    cases hd : described (read (String.ofList d)) with
    | error f =>
      rw [hd] at h
      cases h
      refine ⟨[], d, ds, f, rfl, (fun _ he => nomatch he), hd, ?_⟩
      rw [List.length_nil, Nat.zero_add]
    | ok v =>
      cases hds : objectsFrom read (index + 1) ds with
      | ok us =>
        rw [hd, hds] at h
        cases h
      | error r' =>
        rw [hd, hds] at h
        cases h
        obtain ⟨before, e, after, f, rfl, hbefore, he, rfl⟩ := ih hds
        refine ⟨d :: before, e, after, f, rfl, ?_, he, ?_⟩
        · exact List.forall_mem_cons.mpr ⟨⟨v, hd⟩, hbefore⟩
        · rw [List.length_cons, Nat.add_assoc, Nat.add_comm 1 index]

/-! ## Two streams -/

/-- The dividing line, as octets. -/
def division : Bytes := [0x2D, 0x2D, 0x2D, 0x0A]

theorem encode_joined (p q : List Char) : Utf8.encode p ++ division ++ Utf8.encode q =
    Utf8.encode (p ++ (dashes ++ ['\n'] ++ q)) := by
  have hdivision : Utf8.encode (dashes ++ ['\n']) = division := by decide
  unfold Utf8.encode at hdivision ⊢
  rw [List.flatMap_append, List.flatMap_append, hdivision, List.append_assoc]

theorem documents_joined {p : List Char} (h : Ended p) (q : List Char) :
    documents (p ++ (dashes ++ ['\n'] ++ q)) = documents p ++ documents q := by
  have hline : lines (dashes ++ ['\n']) = [dashes ++ ['\n']] := by decide
  have hended : Ended (dashes ++ ['\n']) := .inr rfl
  have hdivides : isSeparator (dashes ++ ['\n']) = true := by decide
  have hsegments : segments (lines (p ++ (dashes ++ ['\n'] ++ q))) =
      segments (lines p) ++ segments (lines q) := by
    rw [lines_append h, lines_append hended, hline, List.singleton_append,
      segments_eq_splitOnP, List.splitOnP_append_cons _ _ hdivides, segments_eq_splitOnP,
      segments_eq_splitOnP]
  unfold documents
  rw [hsegments, List.filter_append, List.map_append]

theorem objects_encode (read : String → Except String Json) (text : List Char) :
    objects read (Utf8.encode text) = objectsFrom read 0 (documents text) := by
  unfold objects
  rw [Utf8.decode_eq_ok_iff.mpr rfl]

/-- How the objects of two streams with a dividing line between them follow from those of each. -/
structure Joins (read : String → Except String Json) (p q : List Char) : Prop where
  counted : ∀ vs, objects read (Utf8.encode p) = .ok vs → vs.length = (documents p).length
  fault : ∀ r, objects read (Utf8.encode p) = .error r →
    ∃ before d after f, documents p = before ++ d :: after ∧
      (∀ e ∈ before, ∃ v, described (read (String.ofList e)) = .ok v) ∧
      described (read (String.ofList d)) = .error f ∧ r = ⟨before.length, f.message⟩
  both : ∀ vs ws, objects read (Utf8.encode p) = .ok vs → objects read (Utf8.encode q) = .ok ws →
    objects read (Utf8.encode p ++ division ++ Utf8.encode q) = .ok (vs ++ ws)
  first : ∀ r, objects read (Utf8.encode p) = .error r →
    objects read (Utf8.encode p ++ division ++ Utf8.encode q) = .error r
  second : ∀ vs r, objects read (Utf8.encode p) = .ok vs →
    objects read (Utf8.encode q) = .error r →
    objects read (Utf8.encode p ++ division ++ Utf8.encode q) =
      .error ⟨vs.length + r.index, r.reason⟩

theorem objects_joined (read : String → Except String Json) {p : List Char} (h : Ended p)
    (q : List Char) : objects read (Utf8.encode p ++ division ++ Utf8.encode q) =
      objectsFrom read 0 (documents p ++ documents q) := by
  rw [encode_joined, objects_encode, documents_joined h]

theorem objects_joined_of_ok {p : List Char} (h : Ended p) (q : List Char)
    (hp : objects read (Utf8.encode p) = .ok vs) :
    objects read (Utf8.encode p ++ division ++ Utf8.encode q) =
      ((objects read (Utf8.encode q)).mapError (·.after vs.length)).map (vs ++ ·) := by
  rw [objects_encode] at hp
  rw [objects_joined read h, objectsFrom_append_of_ok hp, objectsFrom_add, objects_encode,
    length_of_objectsFrom hp]

theorem joins_of_ended (read : String → Except String Json) {p : List Char} (h : Ended p)
    (q : List Char) : Joins read p q where
  counted vs hp := by
    rw [objects_encode] at hp
    exact length_of_objectsFrom hp
  fault r hp := by
    rw [objects_encode] at hp
    exact fault_of_objectsFrom hp
  both vs ws hp hq := by
    rw [objects_joined_of_ok h q hp, hq]
    rfl
  first r hp := by
    rw [objects_encode] at hp
    rw [objects_joined read h]
    exact objectsFrom_append_of_error hp (documents q)
  second vs r hp hq := by
    rw [objects_joined_of_ok h q hp, hq]
    rfl

/-! ## The objects that a work carries -/

/-- The work that runs the agent carries the objects of a payload, but no namespaces; without
them it is not built. -/
structure Carries (cluster hosting : String) (text : List Char) : Prop where
  refused : ∀ r, decodeAll (Utf8.encode text) = .error r →
    HostedWork.klusterlet cluster hosting (Utf8.encode text) =
      .error (.invalidPayload r.index r.reason)
  built : ∀ vs, decodeAll (Utf8.encode text) = .ok vs →
    ∃ w, HostedWork.klusterlet cluster hosting (Utf8.encode text) = .ok w
  manifests : ∀ w, HostedWork.klusterlet cluster hosting (Utf8.encode text) = .ok w →
    ∃ vs, List.Forall₂ (fun d v => Yaml.read? (String.ofList d) = some v ∧ IsDescribed v)
        (documents text) vs ∧
      w.spec.manifests = vs.filter fun v => (v.member? "kind").bind Json.string? != some "Namespace"

theorem carries (cluster hosting : String) (text : List Char) : Carries cluster hosting text where
  refused r h := by
    unfold HostedWork.klusterlet
    rw [h]
  built vs h := by
    unfold HostedWork.klusterlet
    rw [h]
    exact ⟨_, rfl⟩
  manifests w h := by
    unfold HostedWork.klusterlet at h
    split at h
    · cases h
    · next vs hvs =>
      cases h
      have hdecoded := decodeAll_encode_eq_ok_iff.mp hvs
      exact ⟨vs, hdecoded.imp fun d v hd => decode_eq_ok_iff.mp hd, rfl⟩

/-- The objects of two streams with a dividing line between them are those of the first and then
those of the second, or the fault is that of the first, or that of the second after all documents
of the first; and a work carries the objects of the documents in their order. -/
theorem objects_of_joined (p q : List Char) (h : Ended p) :
    (∀ read : String → Except String Json, Joins read p q) ∧
      (∀ payload, decodeAll payload = objects Yaml.read payload) ∧
      ∀ cluster hosting text, Carries cluster hosting text :=
  ⟨fun read => joins_of_ended read h q, decodeAll_eq_objects, carries⟩

def secretStream : List Char := "apiVersion: v1\nkind: Secret\n".toList

/-- A stream whose second document is cut off, with a comment before the first. -/
def brokenStream : List Char := "# none\n---\napiVersion: v1\nkind: Pod\n---\nkind: [".toList

/-- The fault is numbered after the documents of the stream before it. -/
theorem objects_of_joined_at_fault : Ended secretStream ∧
    decodeAll (Utf8.encode secretStream ++ division ++ Utf8.encode brokenStream) =
      .error ⟨2, "<yaml>"⟩ := by
  have hended : Ended secretStream := .inr (by decide)
  obtain ⟨hjoins, hread, -⟩ := objects_of_joined secretStream brokenStream hended
  have hfirst : (decodeAll (Utf8.encode secretStream)).toOption.map List.length = some 1 := by
    decide +kernel
  have hsecond : (decodeAll (Utf8.encode brokenStream)).map (fun _ => ()) =
      .error ⟨1, "<yaml>"⟩ := by decide +kernel
  rw [hread] at hfirst hsecond ⊢
  obtain ⟨vs, hvs, hone⟩ := Option.map_eq_some_iff.mp hfirst
  refine ⟨hended, ?_⟩
  cases hp : objects Yaml.read (Utf8.encode secretStream) with
  | error => rw [hp] at hvs; cases hvs
  | ok =>
    rw [hp] at hvs
    cases hvs
    cases hq : objects Yaml.read (Utf8.encode brokenStream) with
    | ok => rw [hq] at hsecond; cases hsecond
    | error r =>
      rw [hq] at hsecond
      cases hsecond
      rw [(hjoins Yaml.read).second vs _ hp hq, hone]
      rfl

end Payload
end Hosting
