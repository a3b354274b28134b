import Hosting.AutoImport
import Hosting.Proofs.HostedWork

/-!
# What an auto-import secret gives access with

A kubeconfig of nothing but blanks is refused, and so is a secret that has neither a kubeconfig
nor both of a token and a server.  Whether it has these is asked before the blanks around them are
cut off: a token or a server of nothing but blanks goes into a kubeconfig as the empty text, and
that is handed over (`gated_iff`).
-/

namespace Hosting
namespace Access

variable {cluster hosting : String} {s : Secret} {name : String}

/-- The octets under a name, of which there are none when it is missing. -/
def octets (s : Secret) (name : String) : Bytes := (s.data.bind (·.get? name)).getD []

/-- The text of a value: a mark stands for octets that are none, and blanks around it are cut
off. -/
def text (s : Secret) (name : String) : List Char := Text.trim (Utf8.decodeLossy (octets s name))

/-- The work by which the agent would be handed the way to the cluster. -/
def work (cluster hosting : String) (s : Secret) : Except BuildError ManifestWork :=
  HostedWork.kubeconfig cluster hosting s.autoImportKubeconfig

/-- The kubeconfig that is made of a token and a server. -/
def rendered (server token : List Char) : Bytes :=
  Utf8.encode (Kubeconfig.tokenText (String.ofList server) (String.ofList token)).toList

/-- The secret gives a kubeconfig that is not blank; or else none, but a token and a server that
are not blank. -/
def Usable (s : Secret) : Prop :=
  (∃ b ∈ octets s Names.kubeconfig, HostedWork.isAsciiBlank b = false) ∨
    octets s Names.kubeconfig = [] ∧ text s Names.token ≠ [] ∧ text s Names.server ≠ []

/-- The secret has a token and a server in the place of a kubeconfig, but nothing is left of one
of them once the blanks are cut off. -/
structure Hollow (s : Secret) : Prop where
  none : octets s Names.kubeconfig = []
  token : octets s Names.token ≠ []
  server : octets s Names.server ≠ []
  blank : text s Names.token = [] ∨ text s Names.server = []

/-- A work is built exactly of what is of use, and for want of it the kubeconfig is missed.  A
kubeconfig that is made for it names a token and a server. -/
structure Gated (cluster hosting : String) (s : Secret) : Prop where
  built : Usable s → ∃ w, work cluster hosting s = .ok w
  missed : ¬Usable s → work cluster hosting s = .error .missingKubeconfig
  named : ∀ w, work cluster hosting s = .ok w → octets s Names.kubeconfig = [] →
    s.autoImportKubeconfig = rendered (text s Names.server) (text s Names.token) ∧
      text s Names.token ≠ [] ∧ text s Names.server ≠ []

/-! ## The values of a secret -/

theorem value?_eq (s : Secret) (name : String) :
    s.value? name = if octets s name = [] then none else some (octets s name) := by
  unfold Secret.value? octets
  cases s.data.bind (·.get? name) with
  | none => rfl
  | some bs => cases bs <;> rfl

theorem text_of_nil (h : octets s name = []) : text s name = [] := by
  unfold text
  rw [h]
  simp [Utf8.decodeLossy, Text.trim, Text.trimStart, Text.trimEnd]

/-- Where a kubeconfig comes from. -/
inductive Source (s : Secret) : Bytes → Prop where
  | given (h : octets s Names.kubeconfig ≠ []) : Source s (octets s Names.kubeconfig)
  | made (hnone : octets s Names.kubeconfig = []) (htoken : octets s Names.token ≠ [])
      (hserver : octets s Names.server ≠ []) :
      Source s (rendered (text s Names.server) (text s Names.token))
  | missing (hnone : octets s Names.kubeconfig = [])
      (hnot : octets s Names.token = [] ∨ octets s Names.server = []) : Source s []

theorem source (s : Secret) : Source s s.autoImportKubeconfig := by
  unfold Secret.autoImportKubeconfig
  rw [value?_eq, value?_eq, value?_eq]
  by_cases hkubeconfig : octets s Names.kubeconfig = []
  · rw [if_pos hkubeconfig]
    by_cases htoken : octets s Names.token = []
    · rw [if_pos htoken]
      exact .missing hkubeconfig (Or.inl htoken)
    · rw [if_neg htoken]
      by_cases hserver : octets s Names.server = []
      · rw [if_pos hserver]
        exact .missing hkubeconfig (Or.inr hserver)
      · rw [if_neg hserver]
        exact .made hkubeconfig htoken hserver
  · rw [if_neg hkubeconfig]
    exact .given hkubeconfig

/-! ## Blank or not -/

/-- A kubeconfig that is made of a token and a server is not blank, whatever these are. -/
theorem exists_mem_rendered (server token : List Char) :
    ∃ b ∈ rendered server token, HostedWork.isAsciiBlank b = false := by
  refine ⟨0x61, ?_, by decide⟩
  have hfirst : ∃ rest, (Kubeconfig.tokenText (String.ofList server)
      (String.ofList token)).toList = 'a' :: rest := by
    unfold Kubeconfig.tokenText Yaml.Block.write
    rw [String.toList_ofList]
    exact ⟨_, rfl⟩
  obtain ⟨rest, hrest⟩ := hfirst
  unfold rendered
  rw [hrest]
  exact List.mem_cons_self

theorem not_usable_of_hollow (h : Hollow s) : ¬Usable s := by
  rintro (⟨b, hb, -⟩ | ⟨-, htoken, hserver⟩)
  · rw [h.none] at hb
    cases hb
  · exact h.blank.elim htoken hserver

theorem kubeconfig_of_hollow (h : Hollow s) :
    s.autoImportKubeconfig = rendered (text s Names.server) (text s Names.token) := by
  have hsource := source s
  generalize s.autoImportKubeconfig = content at hsource ⊢
  cases hsource with
  | given hsome => exact absurd h.none hsome
  | made => rfl
  | missing _ hnot => exact absurd hnot (not_or.mpr ⟨h.token, h.server⟩)

/-- Of a hollow secret a work is built, and its kubeconfig names no token or no server. -/
theorem work_of_hollow (h : Hollow s) (cluster hosting : String) :
    ∃ server token w, (server = [] ∨ token = []) ∧ s.autoImportKubeconfig = rendered server token ∧
      work cluster hosting s = .ok w := by
  have hmade := kubeconfig_of_hollow h
  obtain ⟨b, hb, hnot⟩ := exists_mem_rendered (text s Names.server) (text s Names.token)
  obtain ⟨w, hw⟩ := HostedWork.kubeconfig_of_mem hb hnot
  exact ⟨_, _, w, h.blank.symm, hmade, by unfold work; rw [hmade]; exact hw⟩

theorem not_gated_of_hollow (h : Hollow s) (cluster hosting : String) :
    ¬Gated cluster hosting s := by
  obtain ⟨-, -, w, -, -, hw⟩ := work_of_hollow h cluster hosting
  intro hgated
  rw [hgated.missed (not_usable_of_hollow h)] at hw
  cases hw

/-- A secret that is not hollow is of use and a work is built of it, or neither. -/
theorem built_or_missed (h : ¬Hollow s) (cluster hosting : String) :
    Usable s ∧ (∃ w, work cluster hosting s = .ok w) ∧ (octets s Names.kubeconfig = [] →
        s.autoImportKubeconfig = rendered (text s Names.server) (text s Names.token)) ∨
      ¬Usable s ∧ work cluster hosting s = .error .missingKubeconfig := by
  have hsource := source s
  unfold work
  generalize s.autoImportKubeconfig = content at hsource ⊢
  cases hsource with
  | given hsome =>
    by_cases hclear : ∃ b ∈ octets s Names.kubeconfig, HostedWork.isAsciiBlank b = false
    · obtain ⟨b, hb, hnot⟩ := hclear
      exact Or.inl ⟨Or.inl ⟨b, hb, hnot⟩, HostedWork.kubeconfig_of_mem hb hnot,
        fun hnone => absurd hnone hsome⟩
    · refine Or.inr ⟨fun husable => husable.elim hclear fun h => hsome h.1,
        HostedWork.kubeconfig_of_blank fun b hb => ?_⟩
      rw [← Bool.not_eq_false]
      exact fun hnot => hclear ⟨b, hb, hnot⟩
  | made hnone htoken hserver =>
    have htexts := not_or.mp fun hblank => h ⟨hnone, htoken, hserver, hblank⟩
    obtain ⟨b, hb, hnot⟩ := exists_mem_rendered (text s Names.server) (text s Names.token)
    exact Or.inl ⟨Or.inr ⟨hnone, htexts⟩, HostedWork.kubeconfig_of_mem hb hnot, fun _ => rfl⟩
  | missing hnone hnot =>
    refine Or.inr ⟨?_, HostedWork.kubeconfig_of_blank fun b hb => nomatch hb⟩
    rintro (⟨b, hb, -⟩ | ⟨-, htoken, hserver⟩)
    · rw [hnone] at hb
      cases hb
    · exact hnot.elim (fun h => htoken (text_of_nil h)) fun h => hserver (text_of_nil h)

theorem gated_of_not_hollow (h : ¬Hollow s) (cluster hosting : String) :
    Gated cluster hosting s := by
  rcases built_or_missed h cluster hosting with ⟨husable, hbuilt, hmade⟩ | ⟨hnot, hmissed⟩
  · refine ⟨fun _ => hbuilt, fun hnot => absurd husable hnot, fun w _ hnone => ?_⟩
    rcases husable with ⟨b, hb, -⟩ | ⟨-, htexts⟩
    · rw [hnone] at hb
      cases hb
    · exact ⟨hmade hnone, htexts⟩
  · refine ⟨fun husable => absurd husable hnot, fun _ => hmissed, fun w hw => ?_⟩
    rw [hmissed] at hw
    cases hw

/-- The work is built exactly of what is of use, except when the secret is hollow: then a work is
built whose kubeconfig names no token or no server. -/
theorem gated_iff (cluster hosting : String) (s : Secret) :
    (Gated cluster hosting s ↔ ¬Hollow s) ∧
      (Hollow s → ∃ server token w, (server = [] ∨ token = []) ∧
        s.autoImportKubeconfig = rendered server token ∧ work cluster hosting s = .ok w) :=
  ⟨⟨fun h hhollow => not_gated_of_hollow hhollow cluster hosting h,
    fun h => gated_of_not_hollow h cluster hosting⟩, fun h => work_of_hollow h cluster hosting⟩

/-- The token is a single blank. -/
def blankToken : Secret where
  metadata := { name := some Names.autoImportSecret, nspace := some "c" }
  data := some (.ofList [(Names.token, [0x20]), (Names.server, [0x73])])

theorem blank_token_is_rendered : ¬Gated "c" "h" blankToken ∧
    blankToken.autoImportKubeconfig = rendered ['s'] [] := by
  have htoken : text blankToken Names.token = [] := by decide +kernel
  have hserver : text blankToken Names.server = ['s'] := by decide +kernel
  have hhollow : Hollow blankToken := ⟨by decide, by decide, by decide, Or.inl htoken⟩
  have hmade := kubeconfig_of_hollow hhollow
  rw [hserver, htoken] at hmade
  exact ⟨not_gated_of_hollow hhollow "c" "h", hmade⟩

end Access
end Hosting
