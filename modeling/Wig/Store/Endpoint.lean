/-
The URLs of the API, between its clients and its server. The clients of types and of the log join the base URL and a
path with one slash. The client of the statistics appends the path, so that on a base URL with a slash at its end it
asks for a path that is not registered.
-/
import Wig.Crud.Endpoint
import Wig.Net.RoundTrip
import Wig.Store.Command

namespace Wig.Store

open Wig.Lib Wig.Crud Wig.Model Wig.Httptransport
open Wig.Crudlog (sequenceString)

/-! ## The paths of the server -/

def apiURLBase : String := "/api/v1"

def apiURLSnapshot : String := "/api/v1/log/snapshot"

def apiURLSubscribe : String := "/api/v1/log/subscribe"

def apiURLReceive : String := "/api/v1/receive-stats"

def apiURLGetSessions : String := "/api/v1/sessions/find"

/-! ## The clients -/

/-- The URL of `remotePubsubClient.doSnapshot`. -/
def snapshotURL (uri : String) : String := joinURL uri [apiURLSnapshot]

/-- The URL of `remotePubsubClient.doSubscribe`. -/
def subscribeURL (uri : String) (start : Nat) : String :=
  joinURL uri [apiURLSubscribe] ++ "?start=" ++ sequenceString start

/-- The URL of `statsCollectorStub.ReceivePeerStats`. -/
def receivePeerStatsURL (uri : String) : String := uri ++ apiURLReceive

/-- The URL of `statsCollectorStub.GetSessions`, which leaves the public key out. -/
def getSessionsURL (uri : String) : String := uri ++ apiURLGetSessions

/-! ## Agreement -/

section

variable (u name verb : String)

/-- The command line asks for the endpoint of a type and a verb; a find has a query behind it. -/
structure TypeURLs : Prop where
  endpoint : u ≠ "" → (commandClient u apiURLBase true).map (fun uri => verbURL uri name verb) =
    .ok (withoutSlash u ++ endpointPath (typePrefix apiURLBase name) verb)
  find : ∀ values, u ≠ "" → (commandClient u apiURLBase true).map (fun uri => findURL uri name values) =
    .ok (withoutSlash u ++ endpointPath (typePrefix apiURLBase name) "find" ++ "?" ++ values)

structure LogURLs : Prop where
  snapshot : snapshotURL u = withoutSlash u ++ apiURLSnapshot
  subscribe : ∀ start, subscribeURL u start = withoutSlash u ++ apiURLSubscribe ++ "?start=" ++ sequenceString start

structure StatsURLs : Prop where
  receive : receivePeerStatsURL u = withoutSlash u ++ apiURLReceive
  sessions : getSessionsURL u = withoutSlash u ++ apiURLGetSessions

/-- Every client asks, on the base URL, for the path that the server has registered. -/
structure URLsAgree : Prop where
  types : TypeURLs u name verb
  log : LogURLs u
  stats : StatsURLs u

end

theorem rooted_apiURLBase : RootedPath apiURLBase := ⟨by decide, by decide⟩

theorem rooted_apiURLSnapshot : RootedPath apiURLSnapshot := ⟨by decide, by decide⟩

theorem rooted_apiURLSubscribe : RootedPath apiURLSubscribe := ⟨by decide, by decide⟩

theorem commandClient_eq {u : String} (h : u ≠ "") :
    commandClient u apiURLBase true = .ok (joinURL u [apiURLBase]) := by
  rw [commandClient, if_neg h, if_pos rfl]

/-- The URLs of types agree on any base URL. -/
theorem typeURLs {name verb : String} (hname : PathSegment name) (hverb : PathSegment verb) (u : String) :
    TypeURLs u name verb := by
  have hfind : PathSegment "find" := pathSegment_of_mem (by decide)
  constructor
  · intro hu
    rw [commandClient_eq hu]
    exact congrArg Except.ok (verbURL_eq rooted_apiURLBase hname hverb u)
  · intro values hu
    rw [commandClient_eq hu, ← verbURL_eq rooted_apiURLBase hname hfind u]
    rfl

/-- And so do those of the log. -/
theorem logURLs (u : String) : LogURLs u := by
  constructor
  · exact rooted_apiURLSnapshot.joinURL_eq u
  · intro start
    rw [subscribeURL, rooted_apiURLSubscribe.joinURL_eq]

/-- Appending is joining just if there is no slash to take off. -/
theorem append_eq_withoutSlash_iff {u path : String} : u ++ path = withoutSlash u ++ path ↔ hasSlash u = false := by
  constructor
  · intro h
    rw [Bool.eq_false_iff]
    intro hslash
    obtain ⟨b, rfl⟩ := hasSlash_iff.1 hslash
    rw [withoutSlash_append_slash] at h
    have hlength := congrArg (fun s => s.toList.length) h
    simp at hlength
  · intro h
    rw [withoutSlash_of_not h]

theorem statsURLs_iff {u : String} : StatsURLs u ↔ hasSlash u = false := by
  constructor
  · intro h
    exact append_eq_withoutSlash_iff.1 h.receive
  · intro h
    exact ⟨append_eq_withoutSlash_iff.2 h, append_eq_withoutSlash_iff.2 h⟩

/-- The URLs of all clients agree with the paths of the server, for any type and verb, just if the base URL has no
slash at its end. -/
theorem urls_agree_iff {u name verb : String} (hname : PathSegment name) (hverb : PathSegment verb) :
    URLsAgree u name verb ↔ hasSlash u = false := by
  constructor
  · intro h
    exact statsURLs_iff.1 h.stats
  · intro h
    exact ⟨typeURLs hname hverb u, logURLs u, statsURLs_iff.2 h⟩

theorem urls_agree_localhost :
    PathSegment "peer" ∧ PathSegment "create" ∧ URLsAgree "http://localhost:5005" "peer" "create" := by
  have hname : PathSegment "peer" := ⟨by decide, by decide⟩
  have hverb : PathSegment "create" := ⟨by decide, by decide⟩
  exact ⟨hname, hverb, (urls_agree_iff hname hverb).2 (by decide)⟩

/-- With a slash at the end of the base URL the log is still found, and the statistics go to a path with two. -/
theorem stats_url_doubles_slash : snapshotURL "http://localhost:5005/" = "http://localhost:5005/api/v1/log/snapshot" ∧
    receivePeerStatsURL "http://localhost:5005/" = "http://localhost:5005//api/v1/receive-stats" ∧
    ¬ URLsAgree "http://localhost:5005/" "peer" "create" := by
  refine ⟨by decide, by decide, fun h => ?_⟩
  have hslash := statsURLs_iff.1 h.stats
  exact absurd hslash (by decide)

/-! ## The start of a subscription -/

/-- A digit of a 64-bit number in hexadecimal. -/
def sequenceDigit (n : Nat) (c : Char) : Option Nat :=
  (Net.hexVal c).bind fun d => if n * 16 + d < 2 ^ 64 then some (n * 16 + d) else none

/-- `ParseSequence`, on the parameter of `handleSubscribe`. -/
def parseSequence (s : String) : Option Nat :=
  if s = "" then none else s.toList.foldlM sequenceDigit 0

theorem sequenceDigit_digitChar {n d : Nat} (hd : d < 16) (hlt : n * 16 + d < 2 ^ 64) :
    sequenceDigit n (Nat.digitChar d) = some (n * 16 + d) := by
  rw [sequenceDigit, Net.hexVal_digitChar d hd, Option.bind_some, if_pos hlt]

/-- Induction on the number, by its last digit. -/
theorem foldlM_toDigits (n : Nat) (hlt : n < 2 ^ 64) : (Nat.toDigits 16 n).foldlM sequenceDigit 0 = some n := by
  by_cases hdigit : n < 16
  · rw [Nat.toDigits_of_lt_base hdigit, List.foldlM_cons, sequenceDigit_digitChar hdigit (by omega),
      Nat.zero_mul, Nat.zero_add]
    rfl
  · have hfirst : (Nat.toDigits 16 (n / 16)).foldlM sequenceDigit 0 = some (n / 16) :=
      foldlM_toDigits (n / 16) (by omega)
    have hlast : sequenceDigit (n / 16) (Nat.digitChar (n % 16)) = some n := by
      rw [sequenceDigit_digitChar (Nat.mod_lt n (by decide)) (by omega), Nat.div_add_mod']
    rw [Nat.toDigits_of_base_le (by decide) (Nat.le_of_not_lt hdigit), List.foldlM_append, hfirst]
    simp [hlast]

/-- The server starts where the client has asked it to. -/
theorem parseSequence_sequenceString {seq : Nat} (hlt : seq < 2 ^ 64) :
    parseSequence (sequenceString seq) = some seq := by
  have hne : sequenceString seq ≠ "" := fun h => Nat.toDigits_ne_nil (String.ofList_eq_empty_iff.1 h)
  rw [parseSequence, if_neg hne, sequenceString, String.toList_ofList, foldlM_toDigits seq hlt]

/-! ## The registered types -/

theorem named_registry : registry.Named := by
  refine ⟨by decide, by decide, ?_⟩
  rintro m (_ | ⟨_, _ | ⟨_, _ | ⟨_, h⟩⟩⟩)
  · exact ⟨by decide, by decide⟩
  · exact ⟨by decide, by decide⟩
  · exact ⟨by decide, by decide⟩
  · cases h

/-- What a client sends for a registered type gets, on any base URL, to the endpoint of that type and verb. -/
theorem request_routed {name : String} {t : ObjType Tables Value}
    (ht : registry.getTypeByName name = some t) (verb : Verb) (sent : Sent Value) (u : String) :
    ∃ path, (requestWithObj Value.marshal t verb sent).url (joinURL u [apiURLBase]) = withoutSlash u ++ path ∧
      (registry.patterns apiURLBase).lookup path = some (t, verb.text) := by
  have hname : registry.getTypeByName t.name = some t := getTypeByName_name ht
  have htype : PathSegment (requestWithObj Value.marshal t verb sent).type :=
    named_registry.segment_of_getTypeByName hname
  obtain ⟨path, hurl, hlookup⟩ := named_registry.request_routed rooted_apiURLBase htype u
  refine ⟨path, hurl, hlookup.trans ?_⟩
  show (registry.getTypeByName t.name).map _ = _
  rw [hname]
  rfl

end Wig.Store
