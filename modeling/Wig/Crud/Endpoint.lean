/-
The paths of the endpoints of a type, as the server registers them and as a client asks for them. Both join the same
segments, the server from a prefix with a slash at its end, the client from the URL of the API.
-/
import Wig.Crud.Command
import Wig.Httptransport.Url

namespace Wig.Crud

open Wig.Lib Wig.Httptransport

/-! ## The server -/

/-- Where `Model.API` puts the handler of a type. -/
def typePrefix (urlPrefix name : String) : String := joinURL urlPrefix [name] ++ "/"

/-- Where `newTypeHTTPHandler` puts the endpoint of a verb. -/
def endpointPath (urlPrefix verb : String) : String := joinURL urlPrefix [verb]

/-- The verbs of its table. -/
def endpointVerbs : List String := ["create", "update", "delete", "find"]

/-- The endpoints of a type. -/
def typePatterns {T V : Type} (urlPrefix : String) (t : ObjType T V) : List (String × ObjType T V × String) :=
  endpointVerbs.map fun verb => (endpointPath (typePrefix urlPrefix t.name) verb, t, verb)

/-- All that `Model.API` registers. -/
def Registry.patterns {T V Ty : Type} (r : Registry T V Ty)
    (urlPrefix : String) : List (String × ObjType T V × String) :=
  r.byName.flatMap fun m => typePatterns urlPrefix m.2

/-! ## The client -/

inductive ClientFailure where
  /-- "must specify --url". -/
  | noURL
  /-- `HTTPClient` does not return one. -/
  | noClient
  deriving DecidableEq, Repr

/-- `command.client`: the URL of its `typeClient`. -/
def commandClient (urlFlag urlPrefix : String) (httpClient : Bool) : Except ClientFailure String :=
  if urlFlag = "" then .error .noURL
  else if httpClient then .ok (joinURL urlFlag [urlPrefix])
  else .error .noClient

/-- `typeClient.verbURL`, of a client for a type. -/
def verbURL (uri name verb : String) : String := joinURL uri [name, verb]

/-- The URL of `typeClient.Find`, with its values encoded. -/
def findURL (uri name values : String) : String := verbURL uri name "find" ++ "?" ++ values

def Verb.text : Verb → String
  | .create => "create"
  | .update => "update"
  | .delete => "delete"

/-- The URL of `requestWithObj`. -/
def WriteRequest.url (uri : String) (req : WriteRequest) : String := verbURL uri req.type req.verb.text

/-! ## The path of an endpoint -/

section

variable {urlPrefix name verb : String} (hroot : RootedPath urlPrefix) (hname : PathSegment name)
  (hverb : PathSegment verb)
include hroot hname hverb

theorem endpointPath_eq :
    endpointPath (typePrefix urlPrefix name) verb = urlPrefix ++ ("/" ++ name ++ "/" ++ verb) := by
  have htrim : withoutSlash urlPrefix = urlPrefix := withoutSlash_of_not hroot.noSlash
  show joinPart (joinPart urlPrefix name ++ "/") verb = _
  rw [hverb.joinPart_eq, withoutSlash_append_slash, hname.joinPart_eq, htrim]
  simp only [String.append_assoc]

/-- The client of a type asks for what the server has registered, on any base URL. -/
theorem verbURL_eq (u : String) :
    verbURL (joinURL u [urlPrefix]) name verb = withoutSlash u ++ endpointPath (typePrefix urlPrefix name) verb := by
  show joinPart (joinPart (joinURL u [urlPrefix]) name) verb = _
  rw [hverb.joinPart_eq, hname.joinPart_eq, hname.withoutSlash_append, hroot.joinURL_eq, hroot.withoutSlash_append,
    endpointPath_eq hroot hname hverb]
  simp only [String.append_assoc]

/-- No other endpoint has its path. -/
theorem endpointPath_inj {name' verb' : String} (hname' : PathSegment name') (hverb' : PathSegment verb')
    (h : endpointPath (typePrefix urlPrefix name) verb = endpointPath (typePrefix urlPrefix name') verb') :
    name = name' ∧ verb = verb' := by
  rw [endpointPath_eq hroot hname hverb, endpointPath_eq hroot hname' hverb', ← String.toList_inj] at h
  simp only [String.toList_append, List.append_assoc] at h
  have hsegments : name.toList ++ '/' :: verb.toList = name'.toList ++ '/' :: verb'.toList := by
    simpa using List.append_cancel_left (List.append_cancel_left h)
  obtain ⟨hn, -, hv⟩ := (List.append_cons_inj_of_notMem hname.free hverb.free).1 hsegments
  exact ⟨String.toList_inj.1 hn, String.toList_inj.1 hv⟩

end

/-! ## Routing -/

theorem pathSegment_of_mem {verb : String} (h : verb ∈ endpointVerbs) : PathSegment verb := by
  simp only [endpointVerbs, List.mem_cons, List.not_mem_nil, or_false] at h
  rcases h with rfl | rfl | rfl | rfl <;> exact ⟨by decide, by decide⟩

theorem Verb.text_mem (verb : Verb) : verb.text ∈ endpointVerbs := by
  cases verb <;> decide

/-- What is filed under a key, if every entry with the key is that one. -/
theorem lookup_of_unique {κ α : Type} [DecidableEq κ] {k : κ} {a : α} : ∀ {l : List (κ × α)}, (k, a) ∈ l →
    (∀ e ∈ l, e.1 = k → e.2 = a) → l.lookup k = some a
  | (k', a') :: l, hmem, hall => by
    rw [List.lookup_cons]
    by_cases hk : k = k'
    · rw [beq_iff_eq.2 hk, ← hall (k', a') (.head _) hk.symm]
    · rw [beq_false_of_ne hk]
      refine lookup_of_unique ?_ fun e he => hall e (.tail _ he)
      rcases List.mem_cons.1 hmem with heq | hmem
      · exact absurd (congrArg Prod.fst heq) hk
      · exact hmem

/-- Every type is filed once, under its name, and the name can be a part of a path. -/
structure Registry.Named {T V Ty : Type} (r : Registry T V Ty) : Prop where
  keyed : ∀ m ∈ r.byName, m.1 = m.2.name
  nodup : (r.byName.map Prod.fst).Nodup
  segment : ∀ m ∈ r.byName, PathSegment m.2.name

section

variable {T V Ty : Type} {r : Registry T V Ty} {urlPrefix name verb : String}

theorem Registry.mem_patterns {e : String × ObjType T V × String} : e ∈ r.patterns urlPrefix ↔
    ∃ m ∈ r.byName, ∃ v ∈ endpointVerbs, e = (endpointPath (typePrefix urlPrefix m.2.name) v, m.2, v) := by
  simp only [Registry.patterns, typePatterns, List.mem_flatMap, List.mem_map, eq_comm]

theorem Registry.mem_byName {t : ObjType T V} (h : r.getTypeByName name = some t) : (name, t) ∈ r.byName := by
  obtain ⟨before, after, hbyName, -⟩ := List.lookup_eq_some_iff.1 h
  rw [hbyName]
  exact List.mem_append_right _ List.mem_cons_self

theorem Registry.Named.segment_of_getTypeByName (h : r.Named) {t : ObjType T V} (ht : r.getTypeByName name = some t) :
    PathSegment t.name :=
  h.segment _ (Registry.mem_byName ht)

/-- Behind the path of an endpoint is the type of that name, if there is one. -/
theorem Registry.Named.lookup_patterns (h : r.Named) (hroot : RootedPath urlPrefix) (hname : PathSegment name)
    (hverb : verb ∈ endpointVerbs) :
    (r.patterns urlPrefix).lookup (endpointPath (typePrefix urlPrefix name) verb) = (r.getTypeByName name).map fun t =>
      (t, verb) := by
  have hinj : ∀ m ∈ r.byName, ∀ v ∈ endpointVerbs,
      endpointPath (typePrefix urlPrefix m.2.name) v = endpointPath (typePrefix urlPrefix name) verb →
        m.2.name = name ∧ v = verb :=
    fun m hm v hv => endpointPath_inj hroot (h.segment m hm) (pathSegment_of_mem hv) hname (pathSegment_of_mem hverb)
  cases ht : r.getTypeByName name with
  | none =>
    refine List.lookup_eq_none_iff.2 fun e he => ?_
    obtain ⟨m, hm, v, hv, rfl⟩ := Registry.mem_patterns.1 he
    refine bne_iff_ne.2 fun heq => ?_
    obtain ⟨hm', -⟩ := hinj m hm v hv heq.symm
    exact bne_iff_ne.1 (List.lookup_eq_none_iff.1 ht m hm) ((h.keyed m hm).trans hm').symm
  | some t =>
    have hmem : (name, t) ∈ r.byName := Registry.mem_byName ht
    have htname : name = t.name := h.keyed _ hmem
    refine lookup_of_unique (Registry.mem_patterns.2 ⟨(name, t), hmem, verb, hverb, by rw [htname]⟩) fun e he hkey => ?_
    obtain ⟨m, hm, v, hv, rfl⟩ := Registry.mem_patterns.1 he
    obtain ⟨hm', rfl⟩ := hinj m hm v hv hkey
    have hsame : m = (name, t) := List.inj_on_of_nodup_map h.nodup hm hmem ((h.keyed m hm).trans hm')
    rw [hsame]

/-- A request of a client to write gets, on any base URL, to the handler that `Registry.api` runs for its type
and verb. -/
theorem Registry.Named.request_routed (h : r.Named) (hroot : RootedPath urlPrefix) {req : WriteRequest}
    (htype : PathSegment req.type) (u : String) : ∃ path, req.url (joinURL u [urlPrefix]) = withoutSlash u ++ path ∧
      (r.patterns urlPrefix).lookup path = (r.getTypeByName req.type).map fun t => (t, req.verb.text) :=
  ⟨_, verbURL_eq hroot htype (pathSegment_of_mem req.verb.text_mem) u, h.lookup_patterns hroot htype req.verb.text_mem⟩

end

end Wig.Crud
