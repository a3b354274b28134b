import Hosting.Hub.Memory
import Hosting.Proofs.Hub.Query
import Hosting.Watch.Stream

/-!
# What the streams ask for

A stream is listed and followed by calls whose parameters a server reads as they are meant, from
whatever version it is followed (`parameters?_following`).  Each of these calls can be sent, unless
a version makes it too long (`sent?_following`).
-/

namespace Hosting
namespace Watch
namespace Stream

open Hub (longestUri)
open Hub.Call (IsPlain isOpen parameter parameters? parameters?_encoded sentUri?_encoded)

variable {ps : List (String × String)}

theorem query_uri (s : Stream) (ps : List (String × String)) :
    (s.query ps).uri.toList = (Hub.Call.collection s.kind none).toList ++
      '?' :: ps.flatMap fun p => '&' :: parameter p := by
  have hparts : (ps.map fun p => "&" ++ p.1 ++ "=" ++ Text.formEncoded p.2).flatMap String.toList =
      ps.flatMap fun p => '&' :: parameter p := by
    rw [List.flatMap_map]
    congr
    funext p
    simp [parameter]
  show (_ ++ "?" ++ Text.join "" _).toList = _
  rw [String.toList_append, String.toList_append, Text.toList_join, hparts, List.append_assoc]
  rfl

theorem mark_notMem_collection (s : Stream) :
    '?' ∉ (Hub.Call.collection s.kind none).toList := by
  cases s <;> decide

theorem isOpen_of_mem_collection (s : Stream) :
    ∀ c ∈ (Hub.Call.collection s.kind none).toList, isOpen c = true := by
  apply List.all_eq_true.mp
  cases s <;> rfl

theorem parameters?_query (s : Stream) (h : ∀ p ∈ ps, IsPlain p.1) :
    parameters? (s.query ps).uri = some ps :=
  parameters?_encoded (mark_notMem_collection s) h (query_uri s ps)

theorem sent?_query (s : Stream) (h : ∀ p ∈ ps, IsPlain p.1) :
    (s.query ps).sent? =
      if (s.query ps).uri.utf8ByteSize ≤ longestUri then some (s.query ps) else none := by
  unfold Hub.Call.sent?
  rw [sentUri?_encoded (isOpen_of_mem_collection s) h (query_uri s ps)]
  split <;> rfl

/-! ## The calls of a stream -/

def listingParameters (s : Stream) : List (String × String) :=
  s.selection ++ [("limit", Text.decimal pageSize)]

def followingParameters (s : Stream) (version : String) : List (String × String) :=
  [("watch", "true"), ("timeoutSeconds", Text.decimal followSeconds)] ++ s.selection ++
    [("allowWatchBookmarks", "true"), ("resourceVersion", version)]

theorem plain_listing (s : Stream) : ∀ p ∈ s.listingParameters, IsPlain p.1 := by
  cases s <;> decide +kernel

theorem plain_following (s : Stream) (version : String) :
    ∀ p ∈ s.followingParameters version, IsPlain p.1 := by
  have hnames : ∀ n ∈ (s.followingParameters "").map (·.1), IsPlain n := by
    cases s <;> decide +kernel
  have hsame : (s.followingParameters version).map (·.1) =
      (s.followingParameters "").map (·.1) := by
    simp [followingParameters]
  intro p hp
  exact hnames p.1 (hsame ▸ List.mem_map_of_mem hp)

theorem parameters?_listing (s : Stream) :
    parameters? s.listing.uri = some s.listingParameters :=
  parameters?_query s (plain_listing s)

/-- The version is read as it is, and nothing of it as another parameter. -/
theorem parameters?_following (s : Stream) (version : String) :
    parameters? (s.following version).uri = some (s.followingParameters version) :=
  parameters?_query s (plain_following s version)

theorem sent?_listing (s : Stream) : s.listing.sent? = some s.listing := by
  refine (sent?_query s (plain_listing s)).trans (if_pos ?_)
  cases s <;> decide +kernel

theorem sent?_following (s : Stream) (version : String) :
    (s.following version).sent? =
      if (s.following version).uri.utf8ByteSize ≤ longestUri then some (s.following version)
      else none :=
  sent?_query s (plain_following s version)

/-- What the stream of import secrets selects is what has their label, with any value. -/
theorem selects_importSecretLabel (m : Metadata) :
    Hub.Memory.selects m (some Names.importSecretLabel) =
      (m.label? Names.importSecretLabel).isSome := by
  have hcomma : ',' ∉ Names.importSecretLabel.toList := by decide
  have hequal : Text.cutAt? '=' Names.importSecretLabel.toList = none := by decide
  unfold Hub.Memory.selects
  dsimp only
  rw [Text.splitAt_of_notMem hcomma, List.all_cons, hequal, List.all_nil, Bool.and_true,
    String.ofList_toList]

end Stream
end Watch
end Hosting
