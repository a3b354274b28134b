import Hosting.Kubeconfig
import Hosting.Payload
import Hosting.Proofs.Yaml.Value

/-!
# The kubeconfig of a token

Whatever the texts of a server and a token are, the kubeconfig that is written for them is read as
the configuration with these two texts, and so tells them.
-/

namespace Hosting
namespace Kubeconfig

open Yaml.Block (value itemValues pairValues)

/-- The configuration that reaches a server with a token. -/
def config (server token : String) : Json :=
  .object [
    ("apiVersion", .string "v1"),
    ("clusters", .array [.object [
      ("cluster", .object [
        ("insecure-skip-tls-verify", .bool true),
        ("server", .string server)]),
      ("name", .string "default-cluster")]]),
    ("contexts", .array [.object [
      ("context", .object [
        ("cluster", .string "default-cluster"),
        ("user", .string "default-auth")]),
      ("name", .string "default-context")]]),
    ("current-context", .string "default-context"),
    ("kind", .string "Config"),
    ("users", .array [.object [
      ("name", .string "default-auth"),
      ("user", .object [("token", .string token)])]])]

variable (server token : String)

/-- Its fixed words and its keys can be read back, whatever the texts are. -/
theorem isReadable_ofToken : (ofToken server token).isReadable = true := rfl

theorem depth_ofToken : (ofToken server token).depth = 4 := rfl

theorem value_of_text {s : String}
    (h : Yaml.plainValue? s.toList = some (.string (String.ofList s.toList))) :
    (Yaml.plainValue? s.toList).getD .null = .string s := by
  rw [h, String.ofList_toList]
  rfl

theorem value_ofToken : (ofToken server token).value = config server token := by
  have hversion := @value_of_text "v1" rfl
  have hcluster := @value_of_text "default-cluster" rfl
  have hcontext := @value_of_text "default-context" rfl
  have hauth := @value_of_text "default-auth" rfl
  have hkind := @value_of_text "Config" rfl
  have htrue : (Yaml.plainValue? "true".toList).getD .null = .bool true := rfl
  simp +decide only [ofToken, value, itemValues, pairValues, String.ofList_toList, hversion,
    hcluster, hcontext, hauth, hkind, htrue, Json.ofMembers, List.foldl_cons, List.foldl_nil,
    Table.place, if_true, if_false]
  rfl

theorem read?_tokenText : Yaml.read? (tokenText server token) = some (config server token) := by
  have hdepth : (ofToken server token).depth ≤ Yaml.maxDepth := by
    rw [depth_ofToken]
    decide
  rw [tokenText, Yaml.Block.read?_write (isReadable_ofToken server token) rfl hdepth, value_ofToken]

theorem decode_tokenText :
    Payload.decode (tokenText server token) = .ok (config server token) := by
  have hversion : Payload.hasText (config server token) "apiVersion" = true := by
    simp +decide [Payload.hasText, config, Json.member?, Table.find, Json.string?]
  have hkind : Payload.hasText (config server token) "kind" = true := by
    simp +decide [Payload.hasText, config, Json.member?, Table.find, Json.string?]
  unfold Payload.decode
  rw [Yaml.read_eq_ok_iff.mpr (read?_tokenText server token)]
  unfold Payload.described config at hversion hkind ⊢
  simp only [hversion, hkind]
  rfl

/-- The configuration tells its two texts. -/
theorem config_inj {server token server' token' : String} :
    config server token = config server' token' ↔ server = server' ∧ token = token' := by
  simp [config]

/-- The credentials survive their rendering: it is read as the configuration with just these two
texts, so that no other credentials are rendered as they are. -/
theorem credentials_survive :
    Payload.decode (tokenText server token) = .ok (config server token) ∧
      ∀ server' token', tokenText server' token' = tokenText server token ↔
        server' = server ∧ token' = token := by
  refine ⟨decode_tokenText server token, fun server' token' => ?_⟩
  constructor
  · intro h
    have hread := read?_tokenText server' token'
    rw [h, read?_tokenText] at hread
    obtain ⟨hserver, htoken⟩ := config_inj.mp (Option.some.inj hread)
    exact ⟨hserver.symm, htoken.symm⟩
  · rintro ⟨rfl, rfl⟩
    rfl

end Kubeconfig
end Hosting
