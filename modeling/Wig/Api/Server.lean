/-
The API server: what `wig api` registers on a primary and on a follower, and how a request gets from its path, past
authentication and authorization, to a handler.
-/
import Wig.Crudlog.Whole
import Wig.Gateway.Stats
import Wig.Httpapi.Bearer
import Wig.Httpapi.Mtls
import Wig.Registration.Expiry
import Wig.Registration.Ranger
import Wig.Sessions.Lookup
import Wig.Store.Endpoint
import Wig.Store.Find
import Wig.Store.Remote

namespace Wig.Api

open Wig.Lib Wig.Crud Wig.Model Wig.Crudlog Wig.Store Wig.Httpapi Wig.Httptransport

/-! ## The roles -/

def adminTargets : List String :=
  ["write-peer", "read-peer", "write-interface", "read-interface", "write-token", "read-token", "write-sessions",
    "read-sessions", "read-log", "register-peer"]

def rbacRules : Rules := fun role =>
  if role = "admin" then adminTargets
  else if role = "follower" then ["read-log"]
  else if role = "registrar" then ["register-peer"]
  else []

/-! ## The endpoints -/

inductive Endpoint where
  | write (n : TableName) (verb : Verb)
  | find (n : TableName)
  | snapshot
  | subscribe
  | getSessions
  | receive
  | registerPeer
  deriving DecidableEq

def objType : TableName → ObjType Tables Value
  | .interfaces => interfaceType
  | .peers => peerType
  | .tokens => tokenType

/-- The target that `WithAuth` is given. -/
def Endpoint.target : Endpoint → String
  | .write n _ => "write-" ++ (objType n).name
  | .find n => "read-" ++ (objType n).name
  | .snapshot => "read-log"
  | .subscribe => "read-log"
  | .getSessions => "read-sessions"
  | .receive => "write-sessions"
  | .registerPeer => "register-peer"

def apiURLRegisterPeer : String := "/api/v1/register-peer"

/-- What `newTypeHTTPHandler` registers for a type. -/
def typeRoutes (n : TableName) : List (String × Endpoint) :=
  [("create", .write n .create), ("update", .write n .update), ("delete", .write n .delete),
    ("find", .find n)].map fun e =>
    (endpointPath (typePrefix apiURLBase (objType n).name) e.1, e.2)

/-- All that `apiCommand.run` adds; sessions and registration are for a primary. -/
def routes (primary : Bool) : List (String × Endpoint) :=
  [.tokens, .interfaces, .peers].flatMap typeRoutes ++ [(apiURLSnapshot, .snapshot), (apiURLSubscribe, .subscribe)] ++
    if primary then
      [(apiURLGetSessions, .getSessions), (apiURLReceive, .receive), (apiURLRegisterPeer, .registerPeer)] else []

example :
    ([.tokens, .interfaces, .peers].flatMap typeRoutes).map Prod.fst = (registry.patterns apiURLBase).map Prod.fst := by
  decide

/-! ## The command -/

/-- The flags of `apiCommand` that decide what the server does. -/
structure ApiCommand where
  logURL : String
  authType : String
  authTLSRoleSpec : String

/-- A follower has the URL of a log to pull. -/
def ApiCommand.primary (c : ApiCommand) : Bool := c.logURL == ""

/-- A request as the handlers see it: `form` is `FormValue`, and a body that does not parse has no document. -/
structure Request where
  path : String
  basicAuth : Option (String × String)
  peerCertificates : Option (List Certificate)
  query : List (String × List String)
  form : String → String
  body : Except Error Json

/-- The time of a request, and what of its SQL succeeds: the transaction of the token lookup, and in the handler's the
opening, the writes of a dump, the query for sessions and the commit. -/
structure Env where
  now : Time
  authOpens : Bool
  authCommits : Bool
  opens : Bool
  writes : Nat → Bool
  queries : Bool
  commits : Bool

inductive SetupError where
  /-- "must specify --tls-roles". -/
  | noTLSRoles
  | tls (e : AuthError)
  /-- "unknown authentication type". -/
  | unknownAuthType

/-- `httpapi.API`, its handlers aside. The authenticator of tokens reads their table. -/
structure API where
  authn : Env → Table TokenRow.id → Authn Request
  authz : Authz

def ApiCommand.api (c : ApiCommand) : Except SetupError API :=
  if c.authType = "none" then .ok ⟨fun _ _ _ => .ok ⟨"", []⟩, fun _ _ => true⟩
  else if c.authType = "bearer" then
    .ok ⟨fun env tokens req => authBearer env.authOpens env.authCommits tokens ⟨req.basicAuth⟩, hasPermission rbacRules⟩
  else if c.authType = "mtls" ∨ c.authType = "tls" then
    if c.authTLSRoleSpec = "" then .error .noTLSRoles
    else match newTLSAuthn c.authTLSRoleSpec with
      | .error e => .error (.tls e)
      | .ok m => .ok ⟨fun _ _ req => authTLS m ⟨req.peerCertificates⟩, hasPermission rbacRules⟩
  else .error .unknownAuthType

/-! ## The handlers -/

/-- The datastore with its subscribers, and the session manager. -/
structure Server where
  node : Node Tables Value
  manager : Sessions.SessionManager

namespace Server

def tables (s : Server) : Tables := s.node.store.db.tables

def setStore (st : Datastore Tables Value) (s : Server) : Server := { s with node := { s.node with store := st } }

def setManager (m : Sessions.SessionManager) (s : Server) : Server := { s with manager := m }

end Server

inductive Output where
  | notFound
  | unauthenticated
  | unauthorized
  /-- "Bad start parameter". -/
  | badStart
  /-- "no 'pkey' argument". -/
  | noPkey
  | reply (r : Reply)
  | page (r : Crud.Response)
  | stream (ch : Nat)
  | sessions (l : List Sessions.Session)

section Handlers

/- `stack` is the room of a goroutine's stack, `E` the SQL engine behind finds, `geo` the GeoIP databases. -/
variable (stack : Nat) (E : Engine (Database Tables) Row) (geo : Sessions.IPRefiner) (c : ApiCommand)
  (env : Env) (req : Request)

/-- The writer of `Combine`. -/
def writer : Crud.Writer (Datastore Tables Value) Value :=
  if c.primary then crudLogWriter stack env.now env.commits else readOnlyWriter

def handleWriteOn (n : TableName) (verb : Verb) : Proc Server Error Output := do
  return .reply
    (← Proc.zoom (fun s => s.node.store) Server.setStore
      (newTypeHTTPHandler (objType n) (writer stack c env) verb req.body))

def handleFindOn (n : TableName) : Proc Server Error Output := fun s =>
  let r := handleFind E sqlTables Value.marshal (sqlTable n) (queryArgs req.query) env.opens env.commits s.node.store.db
  (.ok (.page r.1), s.setStore { s.node.store with db := r.2 })

/-- `logSourceHTTPHandler.handleSnapshot`. -/
def handleSnapshot : Proc Server Error Output := fun s =>
  match s.node.store.snapshot (crud stack) with
  | .ok snap => (.ok (.reply (.object (marshalSnapshot snap))), s)
  | .err e => (.ok (.reply (.failed e)), s)
  | .crash => (.crash, s)
  | .block => (.block, s)

/-- `logSourceHTTPHandler.handleSubscribe`, up to its loop. -/
def handleSubscribeOn : Proc Server Error Output := fun s =>
  match parseSequence (req.form "start") with
  | none => (.ok .badStart, s)
  | some start =>
    match s.node.store.subscribe encoding start env.commits with
    | (.ok sub, st) =>
      (.ok (.stream sub.ch), { s.setStore st with
        node := (s.setStore st).node.setSub sub.ch ⟨start, sub.preload, none, [], [], false⟩ })
    | (.err e, st) => (.ok (.reply (.failed e)), s.setStore st)
    | (.crash, st) => (.crash, s.setStore st)
    | (.block, st) => (.block, s.setStore st)

/-- `SessionManager.handleGetSessions`. -/
def handleGetSessions : Proc Server Error Output := fun s =>
  if req.form "pkey" = "" then (.ok .noPkey, s)
  else (.ok (.sessions (s.manager.findSessionsByPublicKey env.opens env.queries (req.form "pkey"))), s)

/-- `SessionManager.handleReceive`. -/
def handleReceive : Proc Server Error Output := do
  return .reply
    (← Proc.zoom (fun s => s.manager) Server.setManager (serveJSON Gateway.StatsDump.unmarshalJSON (fun dump => do
    Sessions.SessionManager.receivePeerStats geo env.now ⟨env.opens, env.writes,
      env.commits⟩ (dump.map Gateway.PeerStats.report)
    return none) req.body))

/-- `RegistrationAPI.handleRegisterPeer`. -/
def handleRegisterPeer : Proc Server Error Output := do
  return .reply (← serveJSON Registration.RegisterPeerRequest.unmarshalJSON (fun rr s =>
    match Registration.registerWithRanger stack (rr.call env.now env.opens env.commits) s.tables with
    | (.ok (), peer) => (.ok (some peer.marshalJSON), s)
    | (.err e, _) => (.err e, s)
    | (.crash, _) => (.crash, s)
    | (.block, _) => (.block, s)) req.body)

def handle : Endpoint → Proc Server Error Output
  | .write n verb => handleWriteOn stack c env req n verb
  | .find n => handleFindOn E env req n
  | .snapshot => handleSnapshot stack
  | .subscribe => handleSubscribeOn env req
  | .getSessions => handleGetSessions env req
  | .receive => handleReceive geo env req
  | .registerPeer => handleRegisterPeer stack env req

/-- A request on its way: there is no page under a path that nobody registered, and every handler is behind
`WithAuth`. -/
def serve (a : API) : Proc Server Error Output := fun s =>
  match (routes c.primary).lookup req.path with
  | none => (.ok .notFound, s)
  | some e =>
    match withAuth (a.authn env s.tables.tokens) a.authz e.target (fun req => handle stack E geo c env req e) req with
    | .unauthenticated => (.ok .unauthenticated, s)
    | .unauthorized => (.ok .unauthorized, s)
    | .served answer => answer s

/-- The endpoint whose handler runs. -/
def admitted (a : API) (s : Server) : Option Endpoint :=
  ((routes c.primary).lookup req.path).bind fun e =>
    match withAuth (a.authn env s.tables.tokens) a.authz e.target (fun _ => ()) req with
    | .unauthenticated => none
    | .unauthorized => none
    | .served _ => some e

/-- What a handler asks of the datastore's log; an `Apply` then goes on with its sends and its commit. -/
def asks : Endpoint → Option (Crudlog.Event Value)
  | .write n verb =>
    if c.primary then
      match req.body.bind (objType n).unmarshal with
      | .ok obj => some (.apply (newOp (opType verb) env.now obj) false)
      | .error _ => none
    else none
  | .subscribe => (parseSequence (req.form "start")).map fun start => .subscribe start env.commits
  | _ => none
where
  opType : Verb → OpType
    | .create => .create
    | .update => .update
    | .delete => .delete

end Handlers

/-! ## Runs -/

inductive Event where
  /-- A request, up to the sends of `Emit` where it writes. -/
  | request (env : Env) (req : Request)
  /-- What is not a request: the sends and the commit of an `Apply`, a call of the expiry or of a follower, a
  move of the goroutine or of the reader of a subscription. -/
  | node (e : Crudlog.Event Value)

namespace Server

def crash (s : Server) : Server := { s with node := { s.node with crashed := true } }

/-- The server after a handler. -/
def settle {α : Type} : Outcome Error α × Server → Option Server
  | (.ok _, s) => some s
  | (.err _, s) => some s
  | (.crash, s) => some s.crash
  | (.block, _) => none

variable (stack : Nat) (E : Engine (Database Tables) Row) (geo : Sessions.IPRefiner) (c : ApiCommand) (a : API)

def step (s : Server) : Event → Option Server
  | .request env req =>
    if s.node.crashed then none
    else match (admitted c env req a s).bind (asks c env req) with
      | some x => (Node.step (crud stack) encoding s.node x).map fun n => { s with node := n }
      | none => settle (serve stack E geo c env req a s)
  | .node e => (Node.step (crud stack) encoding s.node e).map fun n => { s with node := n }

def system : System Server Event := ⟨step stack E geo c a⟩

end Server

/-! ## Who is let in -/

theorem mem_rbacRules {role target : String} : target ∈ rbacRules role ↔ (role = "admin" ∧ target ∈ adminTargets) ∨
    (role = "follower" ∧ target = "read-log") ∨ (role = "registrar" ∧ target = "register-peer") := by
  unfold rbacRules
  split_ifs with h₁ h₂ h₃
  · subst h₁; simp
  · subst h₂; simp
  · subst h₃; simp
  · simp [h₁, h₂, h₃]

/-- The endpoints of the log. -/
def Endpoint.isLog : Endpoint → Bool
  | .snapshot => true
  | .subscribe => true
  | _ => false

theorem Endpoint.target_mem (e : Endpoint) : e.target ∈ adminTargets := by
  rcases e with ⟨n, verb⟩ | n | _ | _ | _ | _ | _
  · cases n <;> cases verb <;> decide
  · cases n <;> decide
  all_goals decide

theorem Endpoint.target_log (e : Endpoint) : e.target = "read-log" ↔ e.isLog = true := by
  rcases e with ⟨n, verb⟩ | n | _ | _ | _ | _ | _
  · cases n <;> cases verb <;> decide
  · cases n <;> decide
  all_goals decide

theorem Endpoint.target_register (e : Endpoint) : e.target = "register-peer" ↔ e = .registerPeer := by
  rcases e with ⟨n, verb⟩ | n | _ | _ | _ | _ | _
  · cases n <;> cases verb <;> decide
  · cases n <;> decide
  all_goals decide

/-- An administrator may do everything, a follower may read the log, and a registrar may register peers. -/
theorem permits_iff {creds : Credentials} {e : Endpoint} : hasPermission rbacRules creds e.target = true ↔
    "admin" ∈ creds.roles ∨ ("follower" ∈ creds.roles ∧ e.isLog = true) ∨
      ("registrar" ∈ creds.roles ∧ e = .registerPeer) := by
  rw [hasPermission_iff, ← e.target_log, ← e.target_register]
  constructor
  · rintro ⟨role, hrole, htarget⟩
    rcases mem_rbacRules.1 htarget with ⟨rfl, -⟩ | ⟨rfl, ht⟩ | ⟨rfl, ht⟩
    · exact .inl hrole
    · exact .inr (.inl ⟨hrole, ht⟩)
    · exact .inr (.inr ⟨hrole, ht⟩)
  · rintro (hrole | ⟨hrole, ht⟩ | ⟨hrole, ht⟩)
    · exact ⟨_, hrole, mem_rbacRules.2 (.inl ⟨rfl, e.target_mem⟩)⟩
    · exact ⟨_, hrole, mem_rbacRules.2 (.inr (.inl ⟨rfl, ht⟩))⟩
    · exact ⟨_, hrole, mem_rbacRules.2 (.inr (.inr ⟨rfl, ht⟩))⟩

/-- Only a row with the id, the secret and some roles gives credentials, whatever fails. -/
theorem authBearer_ok {opens commits : Bool} {tokens : Table TokenRow.id} {req : BearerRequest} {creds : Credentials}
    (h : authBearer opens commits tokens req = .ok creds) : ∃ row roles, tokens.find? row.id = some row ∧
      req.basicAuth = some (row.id, row.secret) ∧ row.roles = some roles ∧ creds = ⟨row.id, roles.splitOn ","⟩ := by
  by_cases hfault : opens = true ∧ commits = true
  · obtain ⟨rfl, rfl⟩ := hfault
    exact authBearer_eq_ok.1 h
  · exact absurd (runs_iff.2 ⟨creds, h, rfl⟩) (not_runs_of_fault hfault tokens (fun _ _ => true) "" req)

section Admitted

variable {stack : Nat} {E : Engine (Database Tables) Row} {geo : Sessions.IPRefiner} {c : ApiCommand}
  {env : Env} {req : Request} {a : API} {s : Server} {e : Endpoint}

theorem admitted_eq_some : admitted c env req a s = some e ↔
    (routes c.primary).lookup req.path = some e ∧ Runs (a.authn env s.tables.tokens) a.authz e.target req := by
  unfold admitted Runs
  rw [Option.bind_eq_some_iff]
  constructor
  · rintro ⟨e', hlookup, h⟩
    split at h
    · cases h
    · cases h
    · rename_i hauth
      cases h
      exact ⟨hlookup, hauth⟩
  · rintro ⟨hlookup, hauth⟩
    exact ⟨e, hlookup, by rw [hauth]⟩

variable (stack E geo c env req a s) in
/-- A request gets to the handler of its endpoint, or is turned away. -/
theorem serve_cases :
    (∃ e, admitted c env req a s = some e ∧ serve stack E geo c env req a s = handle stack E geo c env req e s) ∨
      (admitted c env req a s = none ∧ ∃ out, (out = .notFound ∨ out = .unauthenticated ∨ out = .unauthorized) ∧
        serve stack E geo c env req a s = (.ok out, s)) := by
  unfold serve admitted
  cases (routes c.primary).lookup req.path with
  | none => exact .inr ⟨rfl, .notFound, .inl rfl, rfl⟩
  | some e =>
    simp only [Option.bind_some, withAuth]
    cases a.authn env s.tables.tokens req with
    | error x => exact .inr ⟨rfl, .unauthenticated, .inr (.inl rfl), rfl⟩
    | ok creds =>
      by_cases hauth : a.authz creds e.target = true
      · simp only [hauth, if_true]
        exact .inl ⟨e, rfl, rfl⟩
      · simp only [hauth]
        exact .inr ⟨rfl, .unauthorized, .inr (.inr rfl), rfl⟩

theorem serve_of_admitted (h : admitted c env req a s = some e) :
    serve stack E geo c env req a s = handle stack E geo c env req e s := by
  rcases serve_cases stack E geo c env req a s with ⟨e', he, hserve⟩ | ⟨hnone, -⟩
  · rw [he] at h
    cases h
    exact hserve
  · rw [hnone] at h
    cases h

theorem settle_serve : Server.settle (serve stack E geo c env req a s) =
    match admitted c env req a s with
    | none => some s
    | some e => Server.settle (handle stack E geo c env req e s) := by
  rcases serve_cases stack E geo c env req a s with ⟨e, he, hserve⟩ | ⟨hnone, out, -, hserve⟩
  · rw [he, hserve]
  · rw [hnone, hserve]
    rfl

theorem Server.step_request (h : s.node.crashed = false) : Server.step stack E geo c a s (.request env req) =
    match admitted c env req a s with
    | none => some s
    | some e => match asks c env req e with
      | some x => (Node.step (crud stack) encoding s.node x).map fun n => { s with node := n }
      | none => Server.settle (handle stack E geo c env req e s) := by
  rw [Server.step, h, if_neg Bool.false_ne_true, settle_serve]
  cases admitted c env req a s with
  | none => rfl
  | some e => rw [Option.bind_some]

end Admitted

/-! ## What a handler does -/

section Effects

variable {stack : Nat} {E : Engine (Database Tables) Row} {geo : Sessions.IPRefiner} {c : ApiCommand}
  {env : Env} {req : Request} {s : Server}

theorem settle_map {α : Type} (x : Proc Server Error α) (f : α → Output) :
    Server.settle ((do return f (← x) : Proc Server Error Output) s) = Server.settle (x s) := by
  rcases hx : x s with ⟨(r | e | _ | _), s'⟩
  · rw [Proc.bind_of_ok hx]; rfl
  · rw [Proc.bind_of_err hx]; rfl
  · rw [Proc.bind_of_crash hx]; rfl
  · rw [Proc.bind_of_block hx]; rfl

/-- What a handler answers and what it returns as an error is all the same to the server. -/
theorem settle_serveJSON {σ ρ : Type} {decode : Json → Except Error ρ} {f : ρ → Proc σ Error (Option Json)}
    {body : Except Error Json} {view : Server → σ} {put : σ → Server → Server} (hput : put (view s) s = s) :
    Server.settle (Proc.zoom view put (serveJSON decode f body) s) = match body.bind decode with
      | .error _ => some s
      | .ok r => Server.settle (Proc.zoom view put (f r) s) := by
  simp only [Proc.zoom_apply, serveJSON]
  cases hbody : body.bind decode with
  | error e => simp [Server.settle, hput]
  | ok r => rcases hf : f r (view s) with ⟨(_ | doc) | e | _ | _, s'⟩ <;> simp only [hf] <;> rfl

theorem primary_writer (h : c.primary = true) (verb : Verb) (obj : Value) : (writer stack c env).call verb obj =
    Datastore.apply (crud stack) encoding (newOp (asks.opType verb) env.now obj) false env.commits := by
  unfold writer
  rw [h, if_pos rfl]
  cases verb <;> rfl

theorem settle_write {n : TableName} {verb : Verb} : Server.settle (handle stack E geo c env req (.write n verb) s) =
    match req.body.bind (objType n).unmarshal with
      | .error _ => some s
      | .ok obj =>
        Server.settle (Proc.zoom (fun s => s.node.store) Server.setStore ((writer stack c env).call verb obj) s) := by
  show Server.settle (handleWriteOn stack c env req n verb s) = _
  rw [handleWriteOn, settle_map, newTypeHTTPHandler_eq, handleWrite, settle_serveJSON rfl]
  cases req.body.bind (objType n).unmarshal with
  | error e => rfl
  | ok obj =>
    simp only [Proc.zoom_apply]
    rcases hcall : (writer stack c env).call verb obj s.node.store with ⟨_ | e | _ | _, st⟩
    · rw [Proc.bind_of_ok hcall]; rfl
    · rw [Proc.bind_of_err hcall]; rfl
    · rw [Proc.bind_of_crash hcall]; rfl
    · rw [Proc.bind_of_block hcall]; rfl

/-- What is asked of the log is an `Apply` or a `Subscribe`. -/
theorem asks_cases {e : Endpoint} {x : Crudlog.Event Value} (h : asks c env req e = some x) :
    (∃ n verb obj, e = .write n verb ∧ x = .apply (newOp (asks.opType verb) env.now obj) false ∧ c.primary = true ∧
        req.body.bind (objType n).unmarshal = .ok obj) ∨
      ∃ start, e = .subscribe ∧ x = .subscribe start env.commits ∧ parseSequence (req.form "start") = some start := by
  rcases e with ⟨n, verb⟩ | n | _ | _ | _ | _ | _
  · simp only [asks] at h
    split at h
    · rename_i hprimary
      split at h
      · rename_i obj hbody
        cases h
        exact .inl ⟨n, verb, obj, rfl, rfl, hprimary, hbody⟩
      · cases h
    · cases h
  · cases h
  · cases h
  · obtain ⟨start, hstart, rfl⟩ := Option.map_eq_some_iff.1 h
    exact .inr ⟨start, rfl, rfl, hstart⟩
  · cases h
  · cases h
  · cases h

/-- A request for a stream is one event. -/
theorem settle_subscribe (hs : s.node.crashed = false) (hm : s.node.emission = none) {start : Nat}
    (hstart : parseSequence (req.form "start") = some start) :
    Server.settle (handle stack E geo c env req .subscribe s) =
      (Node.step (crud stack) encoding s.node (.subscribe start env.commits)).map fun n => { s with node := n } := by
  show Server.settle (handleSubscribeOn env req s) = _
  simp only [Node.step_subscribe hs hm, handleSubscribeOn, hstart]
  rcases s.node.store.subscribe encoding start env.commits with ⟨sub | e | _ | _, st⟩ <;> rfl

/-- The handler of a write leaves the server as the call of `Apply` does. -/
theorem settle_apply (hprimary : c.primary = true) {n : TableName} {verb : Verb} {obj : Value}
    (hbody : req.body.bind (objType n).unmarshal = .ok obj) :
    Server.settle (handle stack E geo c env req (.write n verb) s) =
      (s.node.returned (fun _ n => n)
        (Datastore.apply (crud stack) encoding (newOp (asks.opType verb) env.now obj) false env.commits
        s.node.store)).map fun n => { s with node := n } := by
  simp only [settle_write, hbody, primary_writer hprimary, Proc.zoom_apply]
  rcases Datastore.apply (crud stack) encoding _ false env.commits s.node.store with ⟨_ | e | _ | _, st⟩ <;> rfl

/-- With fields of its table as keys, a find leaves the database as it is. -/
theorem find_db (hE : Conforms E) {n : TableName} {query : List (String × String)}
    (hkeys : ∀ kv ∈ query, kv.1 ∈ (sqlTable n).allFields) (d : Database Tables) :
    ((sqlTable n).find E query d).2 = d := by
  by_cases hnil : query = []
  · obtain ⟨e, he⟩ := hE.empty n
    subst hnil
    rw [SQLTable.find_of_refused he]
  · obtain ⟨visits, sat, -, hselect⟩ := hE.select
    obtain ⟨stmt, hprep, hexec⟩ :=
      hselect n (columnOps query) (by simpa [columnOps] using hnil) (forall_columnOps.2 hkeys)
    have hargs : (columnOps query).map Prod.snd = query.map Prod.snd := List.map_map
    rw [columnOps_text] at hprep
    rw [hargs] at hexec
    rw [SQLTable.find_of_prepared hprep (hexec d (forall_columnOps.2 fun _ _ => trivial))]

theorem handleFind_db (hE : Conforms E) {n : TableName} {query : List (String × String)}
    (hkeys : ∀ kv ∈ query, kv.1 ∈ (sqlTable n).allFields) (opens commits : Bool) (d : Database Tables) :
    (handleFind E sqlTables Value.marshal (sqlTable n) query opens commits d).2 = d := by
  have hdb := find_db hE hkeys d
  simp only [handleFind, sqlReaderFind, sqlTables_find, withTx]
  split
  · rcases hrun : (sqlTable n).find E query d with ⟨⟨objs, _ | e⟩, d'⟩
    · rw [hrun] at hdb
      cases commits
      · rfl
      · exact hdb
    · rfl
  · rfl

/-- What a handler that asks nothing of the log may change: a dump changes the session manager, and a registration may
end the process. -/
structure Silent (e : Endpoint) (s s' : Server) : Prop where
  store : s'.node.store = s.node.store
  subs : s'.node.subs = s.node.subs
  emission : s'.node.emission = s.node.emission
  manager : e ≠ .receive → s'.manager = s.manager
  crashed : e ≠ .registerPeer → s'.node.crashed = s.node.crashed

theorem Silent.refl (e : Endpoint) (s : Server) : Silent e s s := ⟨rfl, rfl, rfl, fun _ => rfl, fun _ => rfl⟩

theorem Silent.node_eq {e : Endpoint} {s' : Server} (h : Silent e s s') (halive : s.node.crashed = false)
    (halive' : s'.node.crashed = false) : s'.node = s.node := by
  obtain ⟨⟨store, subs, emission, crashed⟩, m⟩ := s
  obtain ⟨⟨store', subs', emission', crashed'⟩, m'⟩ := s'
  obtain ⟨hstore, hsubs, hemission, -, -⟩ := h
  cases hstore
  cases hsubs
  cases hemission
  cases halive
  cases halive'
  rfl

theorem Silent.ordered {e : Endpoint} {s' : Server} (h : Silent e s s') (halive : s.node.crashed = false)
    (hs : s.node.Ordered) : s'.node.Ordered := by
  cases hc : s'.node.crashed with
  | true =>
    have hdown : s'.node.crashed ≠ false := by rw [hc]; decide
    exact ⟨fun hf => absurd hf hdown, fun hf => absurd hf hdown, fun hf => absurd hf hdown⟩
  | false =>
    rw [h.node_eq halive hc]
    exact hs

theorem Silent.ahead {e : Endpoint} {s' : Server} (h : Silent e s s') : s'.node.ahead = s.node.ahead := by
  unfold Node.ahead
  rw [h.store, h.emission]

theorem settle_register : Server.settle (handle stack E geo c env req .registerPeer s) =
    match req.body.bind Registration.RegisterPeerRequest.unmarshalJSON with
      | .error _ => some s
      | .ok rr =>
        Server.settle ((Registration.registerWithRanger stack (rr.call env.now env.opens env.commits) s.tables).1,
          s) := by
  show Server.settle (handleRegisterPeer stack env req s) = _
  rw [handleRegisterPeer, settle_map]
  unfold serveJSON
  cases req.body.bind Registration.RegisterPeerRequest.unmarshalJSON with
  | error e => rfl
  | ok rr =>
    dsimp only
    rcases Registration.registerWithRanger stack (rr.call env.now env.opens env.commits) s.tables
      with ⟨_ | e | _ | _, peer⟩ <;> rfl

/-- A registration reads, and ends the process at worst. -/
theorem silent_register {s' : Server} (h : Server.settle (handle stack E geo c env req .registerPeer s) = some s') :
    Silent .registerPeer s s' := by
  rw [settle_register] at h
  split at h
  · cases h; exact .refl _ s
  · revert h
    rcases Registration.registerWithRanger stack _ s.tables with ⟨_ | e | _ | _, peer⟩ <;> intro h <;> cases h
    · exact .refl _ s
    · exact .refl _ s
    · exact ⟨rfl, rfl, rfl, fun _ => rfl, fun h => absurd rfl h⟩

/-- Without host bits in the networks of the peers it does not. -/
theorem settle_register_canonical (hstack : 128 < stack) (hcan : ∀ name, Registration.CanonicalPeers s.tables name) :
    Server.settle (handle stack E geo c env req .registerPeer s) = some s := by
  rw [settle_register]
  split
  · rfl
  · rename_i rr _
    rw [Registration.registerWithRanger_eq hstack (hcan _)]
    cases (Registration.registerNewPeer Registration.bruteContains (rr.call env.now env.opens env.commits) s.tables).2
      <;> rfl

variable (geo env s) in
theorem settle_received (dump : List Sessions.PeerStats) :
    ∃ m, Server.settle (Proc.zoom (fun s => s.manager) Server.setManager (do
    Sessions.SessionManager.receivePeerStats geo env.now ⟨env.opens, env.writes, env.commits⟩ dump
    return (none : Option Json)) s) = some (s.setManager m) := by
  rcases s.manager.receivePeerStats_cases geo env.now ⟨env.opens, env.writes, env.commits⟩ dump with
    ⟨-, h⟩ | ⟨-, -, h⟩ | ⟨-, -, h⟩ | ⟨before, x, rest, -, -, -, -, h⟩
  · exact ⟨_, by rw [Proc.zoom_apply, Proc.bind_of_err h]; rfl⟩
  · exact ⟨_, by rw [Proc.zoom_apply, Proc.bind_of_ok h]; rfl⟩
  · exact ⟨_, by rw [Proc.zoom_apply, Proc.bind_of_err h]; rfl⟩
  · exact ⟨_, by rw [Proc.zoom_apply, Proc.bind_of_err h]; rfl⟩

variable (E env req s) in
/-- The find of a request leaves the database as it is. -/
def FindsOnly (n : TableName) : Prop :=
  (handleFind E sqlTables Value.marshal (sqlTable n) (queryArgs req.query) env.opens env.commits s.node.store.db).2 =
    s.node.store.db

theorem settle_silent {e : Endpoint} (h : asks c env req e = none) (hfind : ∀ n, e = .find n → FindsOnly E env req s n)
    (hregister : e ≠ .registerPeer) :
    ∃ s', Server.settle (handle stack E geo c env req e s) = some s' ∧ Silent e s s' := by
  rcases e with ⟨n, verb⟩ | n | _ | _ | _ | _ | _
  · refine ⟨s, ?_, .refl _ s⟩
    rw [settle_write]
    cases hbody : req.body.bind (objType n).unmarshal with
    | error e => rfl
    | ok obj =>
      have hprimary : c.primary = false := by
        simp only [asks, hbody] at h
        cases hp : c.primary with
        | false => rfl
        | true => rw [hp] at h; cases h
      have hcall : (writer stack c env).call verb obj s.node.store = (.err .readonly, s.node.store) := by
        rw [writer, hprimary, if_neg Bool.false_ne_true]
        cases verb <;> rfl
      simp only [Proc.zoom_apply, hcall]
      rfl
  · refine ⟨s, ?_, .refl _ s⟩
    show some (Server.setStore _ s) = some s
    rw [show (handleFind E sqlTables Value.marshal (sqlTable n) (queryArgs req.query) env.opens
      env.commits s.node.store.db).2 = s.node.store.db from hfind n rfl]
    rfl
  · exact ⟨s, rfl, .refl _ s⟩
  · refine ⟨s, ?_, .refl _ s⟩
    have hstart : parseSequence (req.form "start") = none := Option.map_eq_none_iff.1 h
    show Server.settle (handleSubscribeOn env req s) = _
    simp only [handleSubscribeOn, hstart]
    rfl
  · refine ⟨s, ?_, .refl _ s⟩
    show Server.settle (handleGetSessions env req s) = _
    unfold handleGetSessions
    split <;> rfl
  · show ∃ s', Server.settle (handleReceive geo env req s) = some s' ∧ _
    rw [handleReceive, settle_map, settle_serveJSON rfl]
    cases req.body.bind Gateway.StatsDump.unmarshalJSON with
    | error e => exact ⟨s, rfl, .refl _ s⟩
    | ok dump =>
      obtain ⟨m, hm⟩ := settle_received geo env s (dump.map Gateway.PeerStats.report)
      exact ⟨_, hm, rfl, rfl, rfl, fun h => absurd rfl h, fun _ => rfl⟩
  · exact absurd rfl hregister

theorem silent_of_settle {e : Endpoint} (h : asks c env req e = none)
    (hfind : ∀ n, e = .find n → FindsOnly E env req s n) {s' : Server}
    (hs : Server.settle (handle stack E geo c env req e s) = some s') : Silent e s s' := by
  by_cases hregister : e = .registerPeer
  · subst hregister
    exact silent_register hs
  · obtain ⟨s₁, hs₁, hsilent⟩ := settle_silent h hfind hregister
    rw [hs₁] at hs
    cases hs
    exact hsilent

end Effects

/-! ## Whole requests -/

section Whole

variable (stack : Nat) (E : Engine (Database Tables) Row) (geo : Sessions.IPRefiner)
  (c : ApiCommand) (a : API) (env : Env) (req : Request)

/-- The events of a request that no other comes between. -/
def requestEvents (s : Server) : List Event :=
  .request env req :: match (admitted c env req a s).bind (asks c env req) with
    | some (.apply op fromLog) => (s.node.applyEvents (crud stack) encoding op fromLog env.commits).tail.map .node
    | _ => []

theorem run_node :
    ∀ (xs : List (Crudlog.Event Value)) (s : Server), (Server.system stack E geo c a).run s (xs.map .node) =
    ((Node.system (crud stack) encoding).run s.node xs).map fun n => { s with node := n }
  | [], s => rfl
  | x :: xs, s => by
    have hstep : (Server.system stack E geo c a).step s (.node x) =
      ((Node.system (crud stack) encoding).step s.node x).map fun n => { s with node := n } := rfl
    rw [List.map_cons, System.run_cons, System.run_cons, hstep]
    cases (Node.system (crud stack) encoding).step s.node x with
    | none => rfl
    | some n => exact run_node xs { s with node := n }

variable {stack E geo c a env req} {s : Server}

/-- Unless an `Apply` is in progress, the request leaves the server as its events do. -/
theorem run_requestEvents (halive : s.node.crashed = false) (hm : s.node.emission = none)
    (hp : s.node.store.pubsub.Live) :
    (Server.system stack E geo c a).run s (requestEvents stack c a env req s) =
      Server.settle (serve stack E geo c env req a s) := by
  have hstep : (Server.system stack E geo c a).step s (.request env req) = _ := Server.step_request halive
  rw [settle_serve, requestEvents, System.run_cons, hstep]
  cases hadmitted : admitted c env req a s with
  | none => rfl
  | some e =>
    rw [Option.bind_some]
    cases hasks : asks c env req e with
    | none =>
      simp only [hasks]
      exact Option.bind_fun_some _
    | some x =>
      simp only [hasks]
      rcases asks_cases hasks with ⟨n, verb, obj, rfl, rfl, hprimary, hbody⟩ | ⟨start, rfl, rfl, hstart⟩
      · -- the first event is the one of the node, and the rest of the `Apply` follows
        have hnode :=
          run_node stack E geo c a (s.node.applyEvents (crud stack) encoding (newOp (asks.opType verb) env.now obj)
          false env.commits) s
        rw [Node.run_applyEvents (crud stack) encoding halive hm hp, ← settle_apply hprimary hbody] at hnode
        exact hnode
      · rw [settle_subscribe halive hm hstart]
        exact Option.bind_fun_some _

end Whole

/-! ## A primary with an administrator -/

def bearerCommand : ApiCommand := ⟨"", "bearer", ""⟩

def bearerAPI : API :=
  ⟨fun env tokens req => authBearer env.authOpens env.authCommits tokens ⟨req.basicAuth⟩, hasPermission rbacRules⟩

theorem bearerCommand_api : bearerCommand.api = .ok bearerAPI := rfl

/-- A request in which nothing fails. -/
def faultless (now : Time) : Env := ⟨now, true, true, true, fun _ => true, true, true⟩

def rootToken : Token := ⟨"root", "r", some ["admin"]⟩

/-- The tables that `wig init` leaves, with the token of an administrator. -/
def rootTables : Tables := { Tables.empty with tokens := ⟨[rootToken.row], by simp⟩ }

def rootServer : Server := ⟨Node.start (Datastore.wrap (Database.fresh rootTables)), ⟨[], .empty⟩⟩

def followerToken : Token := ⟨"f", "s", some ["follower"]⟩

/-- The administrator's request to create a token. -/
def createTokenRequest (tok : Token) : Request :=
  ⟨"/api/v1/token/create", some ("root", "r"), none, [], fun _ => "", .ok tok.marshalJSON⟩

theorem splitOn_role {role : String} (h : ',' ∉ role.toList) : role.splitOn "," = [role] := by
  have hsplit :=
    splitOn_intercalate (c := ',') (show ∀ s ∈ [role], ',' ∉ s.toList by simpa using h) (List.cons_ne_nil _ _)
  rwa [String.intercalate_singleton] at hsplit

theorem step_createTokenRequest {stack : Nat} {E : Engine (Database Tables) Row} {geo : Sessions.IPRefiner} {s : Server}
    (hs : s.node.crashed = false) (hroot : s.tables.tokens.find? "root" = some rootToken.row)
    (now : Time) (tok : Token) :
    Server.step stack E geo bearerCommand bearerAPI s (.request (faultless now) (createTokenRequest tok)) =
      (Node.step (crud stack) encoding s.node (.apply (newOp .create now (.token tok)) false)).map fun n =>
        { s with node := n } := by
  have hcreds : authBearer true true s.tables.tokens ⟨some ("root", "r")⟩ = .ok ⟨"root", ["admin"]⟩ :=
    authBearer_eq_ok.2 ⟨rootToken.row, "admin", hroot, rfl, rfl, by rw [splitOn_role (by decide)]; rfl⟩
  have hroute : (routes true).lookup "/api/v1/token/create" = some (.write .tokens .create) := by decide
  have hadmitted : admitted bearerCommand (faultless now) (createTokenRequest tok) bearerAPI s =
      some (.write .tokens .create) :=
    admitted_eq_some.2 ⟨hroute, runs_iff.2 ⟨_, hcreds, permits_iff.2 (.inl List.mem_cons_self)⟩⟩
  have hasks : asks bearerCommand (faultless now) (createTokenRequest tok) (.write .tokens .create) =
      some (.apply (newOp .create now (.token tok)) false) := by
    have hbody : (createTokenRequest tok).body.bind (objType .tokens).unmarshal = .ok (.token tok) := by
      show (Token.unmarshalJSON tok.marshalJSON).map _ = _
      rw [Token.unmarshalJSON_marshalJSON]
      rfl
    simp only [asks, hbody]
    rfl
  rw [Server.step_request hs, hadmitted]
  simp only [hasks]

/-- The token is created while nobody is subscribed. -/
def createToken (tok : Token) : List Event :=
  [.request (faultless Time.zero) (createTokenRequest tok), .node (.commit true)]

/-- What it comes to on the datastore. -/
def applyToken (tok : Token) : List (Crudlog.Event Value) :=
  [.apply (newOp .create Time.zero (.token tok)) false, .commit true]

theorem run_createToken {stack : Nat} (E : Engine (Database Tables) Row) (geo : Sessions.IPRefiner)
    {s : Server} {tok : Token} (hs : s.node.crashed = false) (hroot : s.tables.tokens.find? "root" = some rootToken.row)
    {n : Node Tables Value} (hn : (Node.system (crud stack) encoding).run s.node (applyToken tok) = some n) :
    (Server.system stack E geo bearerCommand bearerAPI).run s (createToken tok) = some { s with node := n } := by
  obtain ⟨n₁, happly, hrest⟩ := System.run_cons_some hn
  obtain ⟨n₂, hcommit, hend⟩ := System.run_cons_some hrest
  cases hend
  have hrequest : Server.step stack E geo bearerCommand bearerAPI s
    (.request (faultless Time.zero) (createTokenRequest tok)) =
      some { s with node := n₁ } := by
    rw [step_createTokenRequest hs hroot, show Node.step (crud stack) encoding s.node _ = some n₁ from happly]
    rfl
  have hcommit : Server.step stack E geo bearerCommand bearerAPI { s with node := n₁ } (.node (.commit true)) =
      some { s with node := n } := by
    show (Node.step (crud stack) encoding n₁ (.commit true)).map _ = _
    rw [show Node.step (crud stack) encoding n₁ (.commit true) = some n from hcommit]
    rfl
  exact (System.run_of_step hrequest _).trans (System.run_of_step hcommit [])

theorem rootServer_applies :
    ∃ n, (Node.system (crud 129) encoding).run rootServer.node (applyToken followerToken) = some n ∧
    n.crashed = false ∧ n.emission.isNone = true ∧ n.store.db.tables.tokens.rows = [rootToken.row, followerToken.row] ∧
    n.store.db.log.rows.length = 1 := by
  have hstep : ((Node.system (crud 129) encoding).run rootServer.node (applyToken followerToken)).map
      (fun n => (n.crashed, n.emission.isNone, n.store.db.tables.tokens.rows, n.store.db.log.rows.length)) =
        some (false, true, [rootToken.row, followerToken.row], 1) := by
    decide +kernel
  obtain ⟨n, hn, heq⟩ := Option.map_eq_some_iff.1 hstep
  rw [Prod.mk.injEq, Prod.mk.injEq, Prod.mk.injEq] at heq
  exact ⟨n, hn, heq⟩

theorem rootServer_creates (E : Engine (Database Tables) Row) (geo : Sessions.IPRefiner) :
    ∃ s', (Server.system 129 E geo bearerCommand bearerAPI).run rootServer (createToken followerToken) = some s' ∧
      s'.node.crashed = false ∧ s'.tables.tokens.rows = [rootToken.row, followerToken.row] ∧
        s'.node.store.db.log.rows.length = 1 := by
  obtain ⟨n, hn, halive, -, hrows, hlog⟩ := rootServer_applies
  exact ⟨{ rootServer with node := n }, run_createToken E geo rfl rfl hn, halive, hrows, hlog⟩

end Wig.Api
