import Hosting.Yaml.Written

/-!
The kubeconfig that gives a token for a server.
-/

namespace Hosting
namespace Kubeconfig

/-- A configuration that reaches one server with a token, without checking the
server's certificate. -/
def ofToken (server token : String) : Yaml.Block :=
  let word (s : String) : Yaml.Block := .word s.toList
  .mapping "apiVersion".toList (word "v1") [
    ("clusters".toList, .sequence (.mapping "cluster".toList
      (.mapping "insecure-skip-tls-verify".toList (word "true")
        [("server".toList, .text server.toList)])
      [("name".toList, word "default-cluster")]) []),
    ("contexts".toList, .sequence (.mapping "context".toList
      (.mapping "cluster".toList (word "default-cluster") [("user".toList, word "default-auth")])
      [("name".toList, word "default-context")]) []),
    ("current-context".toList, word "default-context"),
    ("kind".toList, word "Config"),
    ("users".toList, .sequence (.mapping "name".toList (word "default-auth")
      [("user".toList, .mapping "token".toList (.text token.toList) [])]) [])]

/-- The text of that configuration. -/
def tokenText (server token : String) : String := (ofToken server token).write

end Kubeconfig
end Hosting
