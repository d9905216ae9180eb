/-
Runs of the API server. Every run is one of the datastore behind it: a request that is let in comes to one event
of the log or to none, as long as the keys of finds are fields of the tables. So what is known of runs of a
datastore holds behind the API, and each row that a run adds to the log goes back to a request of an
administrator.
-/
import Wig.Api.Server
import Wig.Crudlog.Stream

namespace Wig.Api.Server

open Wig.Lib Wig.Crud Wig.Model Wig.Crudlog Wig.Store Wig.Httpapi Wig.Httptransport

section Steps

variable (stack : Nat) (E : Engine (Database Tables) Row) (geo : Sessions.IPRefiner) (c : ApiCommand) (a : API)

/-- The events of the datastore that an event of the server comes to. -/
def causes (s : Server) : Event → List (Crudlog.Event Value)
  | .request env req => ((admitted c env req a s).bind (asks c env req)).toList
  | .node x => [x]

/-- The keys of a find are fields of its table. -/
def Plain (s : Server) : Event → Prop
  | .request env req => ∀ n, admitted c env req a s = some (.find n) → ∀ kv ∈ queryArgs req.query,
    kv.1 ∈ (sqlTable n).allFields
  | .node _ => True

/-- A find leaves the database as it is. -/
def Reads (s : Server) (e : Event) : Prop :=
  ∀ env req n, e = .request env req → admitted c env req a s = some (.find n) → FindsOnly E env req s n

/-- What an event can do. -/
inductive Stepped (s : Server) : Event → Server → Prop where
  | refused (env : Env) (req : Request) (h : admitted c env req a s = none) : Stepped s (.request env req) s
  | silent (env : Env) (req : Request) (e : Endpoint) (s' : Server) (hadmitted : admitted c env req a s = some e)
      (hasks : asks c env req e = none) (h : Silent e s s') : Stepped s (.request env req) s'
  | asked (env : Env) (req : Request) (e : Endpoint) (x : Crudlog.Event Value) (n : Node Tables Value)
      (hadmitted : admitted c env req a s = some e) (hasks : asks c env req e = some x)
      (h : Node.step (crud stack) encoding s.node x = some n) : Stepped s (.request env req) { s with node := n }
  | node (x : Crudlog.Event Value) (n : Node Tables Value) (h : Node.step (crud stack) encoding s.node x = some n) :
      Stepped s (.node x) { s with node := n }

variable {stack E geo c a} {s s' : Server} {e : Event}

theorem Plain.reads (hE : Conforms E) (h : Plain c a s e) : Reads E c a s e := by
  rintro env req n rfl hadmitted
  exact handleFind_db hE (h n hadmitted) env.opens env.commits s.node.store.db

theorem step_alive (h : step stack E geo c a s e = some s') : s.node.crashed = false := by
  cases hc : s.node.crashed with
  | false => rfl
  | true =>
    cases e with
    | request env req => rw [step, hc, if_pos rfl] at h; cases h
    | node x =>
      obtain ⟨n, hn, -⟩ := Option.map_eq_some_iff.1 h
      unfold Node.step at hn
      rw [hc, if_pos rfl] at hn
      cases hn

theorem step_cases (hreads : Reads E c a s e) (h : step stack E geo c a s e = some s') : Stepped stack c a s e s' := by
  have halive := step_alive h
  cases e with
  | request env req =>
    rw [step_request halive] at h
    cases hadmitted : admitted c env req a s with
    | none =>
      rw [hadmitted] at h
      cases h
      exact .refused env req hadmitted
    | some e =>
      cases hasks : asks c env req e with
      | none =>
        simp only [hadmitted, hasks] at h
        refine .silent env req e s' hadmitted hasks (silent_of_settle hasks (fun n hn => ?_) h)
        exact hreads env req n rfl (hn ▸ hadmitted)
      | some x =>
        simp only [hadmitted, hasks] at h
        obtain ⟨n, hn, rfl⟩ := Option.map_eq_some_iff.1 h
        exact .asked env req e x n hadmitted hasks hn
  | node x =>
    obtain ⟨n, hn, rfl⟩ := Option.map_eq_some_iff.1 h
    exact .node x n hn

/-! ## The datastore behind the API -/

theorem step_causes (hreads : Reads E c a s e) (h : step stack E geo c a s e = some s')
    (halive' : s'.node.crashed = false) :
    (Node.system (crud stack) encoding).run s.node (causes c a s e) = some s'.node := by
  have halive := step_alive h
  cases step_cases hreads h with
  | refused env req hadmitted => rw [causes, hadmitted]; rfl
  | silent env req e s' hadmitted hasks hsilent =>
    rw [causes, hadmitted, Option.bind_some, hasks, hsilent.node_eq halive halive']
    rfl
  | asked env req e x n hadmitted hasks hn =>
    rw [causes, hadmitted, Option.bind_some, hasks]
    exact System.run_of_step hn []
  | node x n hn => exact System.run_of_step hn []

/-- Every run of the server in which finds have fields for keys, and that does not end its process, is a run of the
datastore, of what was asked by the requests that were let in. -/
theorem run_refines_node (hE : Conforms E) {es : List Event} (hplain : (system stack E geo c a).Along (Plain c a) s es)
    (h : (system stack E geo c a).run s es = some s') (halive : s'.node.crashed = false) :
    (Node.system (crud stack) encoding).run s.node ((system stack E geo c a).trace (causes c a) s es) = some s'.node :=
  (System.run_trace (T := Node.system (crud stack) encoding) (I := fun s => s.node.crashed = false)
    (fun _ _ _ hp hstep halive => ⟨step_alive hstep, step_causes (hp.reads hE) hstep halive⟩) es hplain h halive).2

theorem route_createToken (primary : Bool) :
    (routes primary).lookup "/api/v1/token/create" = some (.write .tokens .create) := by
  cases primary <;> decide

variable (stack E geo) in
theorem plain_createToken (tok : Token) (s : Server) :
    (system stack E geo c a).Along (Plain c a) s (createToken tok) := by
  refine ⟨fun n hn => ?_, fun _ _ => ⟨trivial, fun _ _ => trivial⟩⟩
  have hroute := (admitted_eq_some.1 hn).1.symm.trans (route_createToken c.primary)
  cases hroute

theorem run_refines_node_root :
    ∃ s', (system 129 miniEngine ⟨[]⟩ bearerCommand bearerAPI).run rootServer (createToken followerToken) =
      some s' ∧ s'.tables.tokens.rows = [rootToken.row, followerToken.row] ∧
    (Node.system (crud 129) encoding).run rootServer.node ((system 129 miniEngine ⟨[]⟩ bearerCommand bearerAPI).trace
      (causes bearerCommand bearerAPI) rootServer (createToken followerToken)) = some s'.node := by
  obtain ⟨s', hrun, halive, hrows, -⟩ := rootServer_creates miniEngine ⟨[]⟩
  exact ⟨s', hrun, hrows, run_refines_node miniEngine_conforms (plain_createToken 129 _ _ _ _) hrun halive⟩

/-! ## Who wrote the log -/

/-- Unless there is no authentication, the roles decide. -/
theorem api_authz (h : c.api = .ok a) (hauth : c.authType ≠ "none") : a.authz = hasPermission rbacRules := by
  unfold ApiCommand.api at h
  rw [if_neg hauth] at h
  split at h
  · cases h; rfl
  · split at h
    · split at h
      · cases h
      · split at h
        · cases h
        · cases h; rfl
    · cases h

/-- A request is let in for one of its roles. -/
theorem admitted_roles (hauthz : a.authz = hasPermission rbacRules) {env : Env} {req : Request} {e : Endpoint}
    (h : admitted c env req a s = some e) : ∃ creds, a.authn env s.tables.tokens req = .ok creds ∧
      ("admin" ∈ creds.roles ∨ ("follower" ∈ creds.roles ∧ e.isLog = true) ∨
        ("registrar" ∈ creds.roles ∧ e = .registerPeer)) := by
  obtain ⟨-, hruns⟩ := admitted_eq_some.1 h
  obtain ⟨creds, hcreds, hperm⟩ := runs_iff.1 hruns
  rw [hauthz] at hperm
  exact ⟨creds, hcreds, permits_iff.1 hperm⟩

variable (c a s) in
/-- An event that writes a row to the log: a request of an administrator, with the object in its body, or a call that is
no request. -/
inductive Writes : Event → OpSerialized → Prop where
  | request (env : Env) (req : Request) (creds : Credentials) (n : TableName) (verb : Verb)
      (obj : Value) (row : OpSerialized) (hroute : (routes c.primary).lookup req.path = some (.write n verb))
        (hcreds : a.authn env s.tables.tokens req = .ok creds)
      (hadmin : "admin" ∈ creds.roles) (hbody : req.body.bind (objType n).unmarshal = .ok obj)
      (hvalue : encoding.marshalValue obj = .ok row.value) (htype : row.type = asks.opType verb)
      (hseq : row.seq = s.node.store.db.sequence + 1) : Writes (.request env req) row
  | node (op : Op Value) (fromLog : Bool) (row : OpSerialized)
      (h : (op.assign fromLog s.node.store.db).serialize encoding = .ok row) : Writes (.node (.apply op fromLog)) row

/-- Only an `Apply` adds to the log, and it adds its row. -/
theorem node_step_log {n n' : Node Tables Value} (hn : n.Ordered) (hw : n.Writing (crud stack) encoding)
    {x : Crudlog.Event Value} (h : Node.step (crud stack) encoding n x = some n') {row : OpSerialized}
    (hrow : row ∈ n'.ahead.log.rows) :
    row ∈ n.ahead.log.rows ∨ ∃ op fromLog, x = .apply op fromLog ∧
      (op.assign fromLog n.store.db).serialize encoding = .ok row := by
  obtain ⟨-, hstepped⟩ := hn.cases h
  cases hstepped with
  | written op fromLog row' d' hm hr =>
    rw [Node.ahead_of_some rfl] at hrow
    rcases hr.mem_rows.1 hrow with hold | rfl
    · rw [Node.ahead_of_none hm]
      exact .inl hold
    · exact .inr ⟨op, fromLog, rfl, hr.serialized⟩
  | sent m ch unsent hm hu =>
    rw [Node.ahead_of_some rfl] at hrow
    rw [Node.ahead_of_some hm]
    exact .inl hrow
  | committed m hm hu =>
    rw [Node.ahead_of_none rfl] at hrow
    rw [Node.ahead_of_some hm]
    exact .inl hrow
  -- what was rolled back is no longer there
  | lost m hm hu =>
    rw [Node.ahead_of_none rfl] at hrow
    obtain ⟨row', hr⟩ := hw m hm
    rw [Node.ahead_of_some hm]
    exact .inl (hr.mem_rows.2 (.inl hrow))
  | loaded snap commit d' hm hl hs =>
    have hahead : Node.ahead { n with store := { n.store with db := d' } } = d' := Node.ahead_of_none hm
    rw [hahead, hl] at hrow
    rw [Node.ahead_of_none hm]
    exact .inl hrow
  | moved _ _ ch b b' hb hm hr =>
    rw [hm.ahead] at hrow
    exact .inl hrow
  | _ => exact .inl hrow

/-- The datastore behind a server: its channels are in order, and an `Apply` in progress has recorded its operation. -/
structure Behind (stack : Nat) (s : Server) : Prop where
  ordered : s.node.Ordered
  writing : s.node.Writing (crud stack) encoding

theorem Behind.start (stack : Nat) (d : Database Tables) (m : Sessions.SessionManager) :
    Behind stack ⟨Node.start (Datastore.wrap d), m⟩ :=
  ⟨.start d, Node.writing_of_none rfl⟩

theorem Behind.node {n : Node Tables Value} (h : Behind stack s) {x : Crudlog.Event Value}
    (hn : Node.step (crud stack) encoding s.node x = some n) : Behind stack { s with node := n } :=
  ⟨h.ordered.step hn, (h.ordered.cases hn).2.writing h.writing⟩

theorem Behind.mem_ahead (h : Behind stack s) {row : OpSerialized} (hrow : row ∈ s.node.store.db.log.rows) :
    row ∈ s.node.ahead.log.rows := by
  cases hm : s.node.emission with
  | none =>
    rw [Node.ahead_of_none hm]
    exact hrow
  | some m =>
    obtain ⟨row', hr⟩ := h.writing m hm
    rw [Node.ahead_of_some hm]
    exact hr.mem_rows.2 (.inl hrow)

theorem Behind.step (hreads : Reads E c a s e) (hs : Behind stack s) (h : step stack E geo c a s e = some s') :
    Behind stack s' := by
  cases step_cases hreads h with
  | refused => exact hs
  | silent env req e s' hadmitted hasks hsilent =>
    refine ⟨hsilent.ordered (step_alive h) hs.ordered, fun m hm => ?_⟩
    rw [hsilent.store]
    exact hs.writing m (hsilent.emission ▸ hm)
  | asked env req e x n hadmitted hasks hn => exact hs.node hn
  | node x n hn => exact hs.node hn

/-- A step that adds a row to the log writes it. -/
theorem step_writes (hauthz : a.authz = hasPermission rbacRules) (hreads : Reads E c a s e) (hs : Behind stack s)
    (h : step stack E geo c a s e = some s') {row : OpSerialized} (hold : row ∉ s.node.ahead.log.rows)
    (hrow : row ∈ s'.node.ahead.log.rows) : Writes c a s e row := by
  cases step_cases hreads h with
  | refused => exact absurd hrow hold
  | silent env req e s' hadmitted hasks hsilent =>
    rw [hsilent.ahead] at hrow
    exact absurd hrow hold
  | node x n hn =>
    obtain ⟨op, fromLog, rfl, hser⟩ := (node_step_log hs.ordered hs.writing hn hrow).resolve_left hold
    exact .node op fromLog row hser
  | asked env req e x n hadmitted hasks hn =>
    obtain ⟨op, fromLog, rfl, hser⟩ := (node_step_log hs.ordered hs.writing hn hrow).resolve_left hold
    obtain ⟨hroute, -⟩ := admitted_eq_some.1 hadmitted
    obtain ⟨creds, hcreds, hroles⟩ := admitted_roles hauthz hadmitted
    -- of the handlers only those that write call `Apply`, and neither a follower nor a registrar gets to one
    rcases asks_cases hasks with ⟨tab, verb, obj, rfl, hop, -, hbody⟩ | ⟨start, -, hop, -⟩
    · have hadmin : "admin" ∈ creds.roles := by
        rcases hroles with hadmin | ⟨-, hlog⟩ | ⟨-, hregister⟩
        · exact hadmin
        · cases hlog
        · cases hregister
      cases hop
      obtain ⟨hvalue, hseq, htype, -⟩ := Op.serialize_eq_ok hser
      exact .request env req creds tab verb obj row hroute hcreds hadmin hbody hvalue htype
        (hseq.trans s.node.store.db.getNextSequence_eq)
    · cases hop

/-- Behind authentication, and with fields for the keys of finds, every row of the log was there at the start,
or an event of the run wrote it: a request that had the credentials of an administrator when it came, or a call
that was no request. -/
theorem log_provenance (hE : Conforms E) (hapi : c.api = .ok a) (hauth : c.authType ≠ "none") (d : Database Tables)
    (m : Sessions.SessionManager) {es : List Event}
    (hplain : (system stack E geo c a).Along (Plain c a) ⟨Node.start (Datastore.wrap d), m⟩ es)
    (h : (system stack E geo c a).run ⟨Node.start (Datastore.wrap d), m⟩ es = some s')
    {row : OpSerialized} (hrow : row ∈ s'.node.store.db.log.rows) :
    row ∈ d.log.rows ∨ ∃ es₁ e es₂ s₁, es = es₁ ++ e :: es₂ ∧
      (system stack E geo c a).run ⟨Node.start (Datastore.wrap d), m⟩ es₁ = some s₁ ∧ Writes c a s₁ e row := by
  have hbehind : ∀ (es : List Event) (s₁ : Server),
    (system stack E geo c a).Along (Plain c a) ⟨Node.start (Datastore.wrap d), m⟩ es →
      (system stack E geo c a).run ⟨Node.start (Datastore.wrap d), m⟩ es = some s₁ → Behind stack s₁ :=
        fun es s₁ hplain hrun =>
    System.invariant_run (S := system stack E geo c a) (I := Behind stack) (P := Plain c a)
      (fun _ _ _ hs hp hstep => hs.step (hp.reads hE) hstep) es _ _ (.start stack d m) hplain hrun
  have hahead : row ∈ s'.node.ahead.log.rows := (hbehind es s' hplain h).mem_ahead hrow
  rcases System.run_introduced (F := fun s => row ∈ s.node.ahead.log.rows) es hplain h hahead with
    hold | ⟨es₁, e, es₂, s₁, s₂, rfl, hplain₁, hrun, hp, hstep, hnot, hnew⟩
  · exact .inl hold
  · refine .inr ⟨es₁, e, es₂, s₁, rfl, hrun, ?_⟩
    exact step_writes (api_authz hapi hauth) (hp.reads hE) (hbehind es₁ s₁ hplain₁ hrun) hstep hnot hnew

theorem log_provenance_root : ∃ s' row, (system 129 miniEngine ⟨[]⟩ bearerCommand bearerAPI).run rootServer
      (createToken followerToken) = some s' ∧ row ∈ s'.node.store.db.log.rows ∧
    Writes bearerCommand bearerAPI rootServer
      (.request (faultless Time.zero) (createTokenRequest followerToken)) row := by
  obtain ⟨s', hrun, -, -, hlog⟩ := rootServer_creates miniEngine ⟨[]⟩
  obtain ⟨row, hrow⟩ := List.exists_mem_of_length_pos (hlog ▸ Nat.one_pos)
  rcases log_provenance miniEngine_conforms bearerCommand_api (by decide) (Database.fresh rootTables) ⟨[], .empty⟩
    (plain_createToken 129 _ _ followerToken _) hrun hrow with hold | ⟨es₁, e, es₂, s₁, hsplit, hs₁, hwrites⟩
  · exact absurd hold (List.not_mem_nil)
  · -- the commit is no event that writes, so the row is that of the request
    rcases es₁ with _ | ⟨e₁, _ | ⟨e₂, es₁⟩⟩
    · obtain ⟨rfl, -⟩ := List.cons.inj hsplit
      cases hs₁
      exact ⟨s', row, hrun, hrow, hwrites⟩
    · obtain ⟨-, hsplit⟩ := List.cons.inj hsplit
      obtain ⟨rfl, -⟩ := List.cons.inj hsplit
      cases hwrites
    · exact absurd (congrArg List.length hsplit) (by simp [createToken])

/-! ## Servers that requests do not change -/

/-- The moves of a subscription: of its goroutine, of its reader, and its end. -/
def Moves : Crudlog.Event Value → Prop
  | .forward _ => True
  | .read _ => True
  | .close _ => True
  | _ => False

theorem node_step_db {n n' : Node Tables Value} (hn : n.Ordered) {x : Crudlog.Event Value}
    (h : Node.step (crud stack) encoding n x = some n') (hx : Moves x ∨ ∃ start commit, x = .subscribe start commit) :
    n'.store.db = n.store.db := by
  obtain ⟨-, hstepped⟩ := hn.cases h
  cases hstepped with
  | committed => rcases hx with hx | ⟨start, commit, hx⟩ <;> cases hx
  | loaded => rcases hx with hx | ⟨start, commit, hx⟩ <;> cases hx
  | moved _ _ ch b b' hb hm hr => exact hm.db
  | _ => rfl

/-- A server has nobody who may write. -/
structure Unwritable (c : ApiCommand) (a : API) (tokens : Table TokenRow.id) : Prop where
  apply : ∀ env req e x, (∃ s, s.tables.tokens = tokens ∧ admitted c env req a s = some e) → asks c env req e = some x →
    ∃ start commit, x = .subscribe start commit
  receive : ∀ env req s, s.tables.tokens = tokens → admitted c env req a s ≠ some .receive

/-- A follower has a writer that refuses, and no sessions. -/
theorem unwritable_follower (hc : c.primary = false) (tokens : Table TokenRow.id) : Unwritable c a tokens where
  apply env req e x _ hasks := by
    rcases asks_cases hasks with ⟨-, -, -, -, -, hprimary, -⟩ | ⟨start, -, hx, -⟩
    · rw [hc] at hprimary
      cases hprimary
    · exact ⟨start, env.commits, hx⟩
  receive env req s _ h := by
    obtain ⟨hroute, -⟩ := admitted_eq_some.1 h
    rw [hc] at hroute
    obtain ⟨before, after, hroutes, -⟩ := List.lookup_eq_some_iff.1 hroute
    have hmem : (req.path, Endpoint.receive) ∈ routes false := by
      rw [hroutes]
      exact List.mem_append_right _ List.mem_cons_self
    have hnone : ∀ r ∈ routes false, r.2 ≠ .receive := by decide
    exact hnone _ hmem rfl

/-- Nobody who can authenticate is an administrator. -/
def NoAdmin (a : API) (tokens : Table TokenRow.id) : Prop :=
  ∀ env req creds, a.authn env tokens req = .ok creds → "admin" ∉ creds.roles

theorem endpoint_noAdmin (hauthz : a.authz = hasPermission rbacRules) (h : NoAdmin a s.tables.tokens)
    {env : Env} {req : Request} {x : Endpoint} (hadmitted : admitted c env req a s = some x) :
    x.isLog = true ∨ x = .registerPeer := by
  obtain ⟨creds, hcreds, hroles⟩ := admitted_roles hauthz hadmitted
  rcases hroles with hadmin | ⟨-, hlog⟩ | ⟨-, hregister⟩
  · exact absurd hadmin (h env req creds hcreds)
  · exact .inl hlog
  · exact .inr hregister

theorem unwritable_noAdmin (hauthz : a.authz = hasPermission rbacRules) {tokens : Table TokenRow.id}
    (h : NoAdmin a tokens) :
    Unwritable c a tokens where
  apply env req e x hadm hasks := by
    obtain ⟨s, rfl, hadmitted⟩ := hadm
    rcases asks_cases hasks with ⟨n, verb, -, rfl, -⟩ | ⟨start, -, hx, -⟩
    · rcases endpoint_noAdmin hauthz h hadmitted with hlog | hregister
      · cases hlog
      · cases hregister
    · exact ⟨start, env.commits, hx⟩
  receive env req s hs hadmitted := by
    subst hs
    rcases endpoint_noAdmin hauthz h hadmitted with hlog | hregister
    · cases hlog
    · cases hregister

/-- Nor is there anybody to find something. -/
theorem reads_noAdmin (hauthz : a.authz = hasPermission rbacRules) (h : NoAdmin a s.tables.tokens) :
    Reads E c a s e := by
  rintro env req n rfl hadmitted
  rcases endpoint_noAdmin hauthz h hadmitted with hlog | hregister
  · cases hlog
  · cases hregister

/-- What a server that nobody may write keeps. -/
structure Untouched (d : Database Tables) (m : Sessions.SessionManager) (s : Server) : Prop where
  ordered : s.node.Ordered
  db : s.node.store.db = d
  manager : s.manager = m

theorem Untouched.tokens {d : Database Tables} {m : Sessions.SessionManager} (h : Untouched d m s) :
    s.tables.tokens = d.tables.tokens := by
  rw [Server.tables, h.db]

theorem Untouched.step {d : Database Tables} {m : Sessions.SessionManager} (hreads : Reads E c a s e)
    (hw : Unwritable c a d.tables.tokens) (h : Untouched d m s) (he : ∀ x, e = .node x → Moves x)
    (hstep : step stack E geo c a s e = some s') : Untouched d m s' := by
  cases step_cases hreads hstep with
  | refused => exact h
  | silent env req e s' hadmitted hasks hsilent =>
    have hne : e ≠ .receive := fun heq => hw.receive env req s h.tokens (heq ▸ hadmitted)
    refine ⟨hsilent.ordered (step_alive hstep) h.ordered, ?_, (hsilent.manager hne).trans h.manager⟩
    rw [hsilent.store]
    exact h.db
  | asked env req e x n hadmitted hasks hn =>
    refine ⟨h.ordered.step hn, ?_, h.manager⟩
    exact (node_step_db h.ordered hn (.inr (hw.apply env req e x ⟨s, h.tokens, hadmitted⟩ hasks))).trans h.db
  | node x n hn => exact ⟨h.ordered.step hn, (node_step_db h.ordered hn (.inl (he x rfl))).trans h.db, h.manager⟩

theorem untouched_run {d : Database Tables} {m : Sessions.SessionManager} (hw : Unwritable c a d.tables.tokens)
    {P : Server → Event → Prop} (hreads : ∀ s e, s.tables.tokens = d.tables.tokens → P s e → Reads E c a s e)
    {es : List Event}
    (hes : (system stack E geo c a).Along (fun s e => P s e ∧ ∀ x, e = .node x →
      Moves x) ⟨Node.start (Datastore.wrap d), m⟩ es)
    (h : (system stack E geo c a).run ⟨Node.start (Datastore.wrap d), m⟩ es = some s') :
    s'.node.store.db = d ∧ s'.manager = m := by
  have hend := System.invariant_run (S := system stack E geo c a) (I := Untouched d m)
    (P := fun s e => P s e ∧ ∀ x, e = .node x → Moves x)
    (fun s e _ hs he hstep => hs.step (hreads s e hs.tokens he.1) hw he.2 hstep) es _ _ ⟨.start d, rfl, rfl⟩ hes h
  exact ⟨hend.db, hend.manager⟩

/-- Requests to a follower, under any authentication and with fields for the keys of finds, leave its database and its
sessions as they are. -/
theorem follower_untouched (hE : Conforms E) (hc : c.logURL ≠ "") (d : Database Tables)
    (m : Sessions.SessionManager) {es : List Event}
    (hes : (system stack E geo c a).Along (fun s e => Plain c a s e ∧ ∀ x, e = .node x → Moves x)
      ⟨Node.start (Datastore.wrap d), m⟩ es)
    (h : (system stack E geo c a).run ⟨Node.start (Datastore.wrap d), m⟩ es = some s') :
    s'.node.store.db = d ∧ s'.manager = m :=
  untouched_run (unwritable_follower (beq_false_of_ne hc) _) (fun _ _ _ hp => hp.reads hE) hes h

/-- A follower without authentication. -/
def followerCommand : ApiCommand := ⟨"http://primary", "none", ""⟩

def openAPI : API := ⟨fun _ _ _ => .ok ⟨"", []⟩, fun _ _ => true⟩

/-- The peers of an interface are asked for. -/
def findPeersRequest : Request := ⟨"/api/v1/peer/find", none, none, [("interface", ["wg0"])], fun _ => "", .error .json⟩

theorem follower_untouched_create : ∃ s', (system 129 miniEngine ⟨[]⟩ followerCommand openAPI).run rootServer
        [.request (faultless Time.zero) (createTokenRequest followerToken),
          .request (faultless Time.zero) findPeersRequest] = some s' ∧
    s'.node.store.db = Database.fresh rootTables ∧ s'.manager = ⟨[], .empty⟩ := by
  have hroute : ∀ n,
    admitted followerCommand (faultless Time.zero) (createTokenRequest followerToken) openAPI rootServer ≠
      some (.find n) := fun n hn => by
    have hroute := (admitted_eq_some.1 hn).1.symm.trans (route_createToken followerCommand.primary)
    cases hroute
  have hfind : ∀ s : Server, Plain followerCommand openAPI s (.request (faultless Time.zero) findPeersRequest) := by
    intro s n hn
    have hroute := (admitted_eq_some.1 hn).1.symm.trans
      (show (routes false).lookup "/api/v1/peer/find" = some (.find .peers) by decide)
    cases hroute
    decide
  obtain ⟨s', hs'⟩ : ∃ s', (system 129 miniEngine ⟨[]⟩ followerCommand openAPI).run rootServer
      [.request (faultless Time.zero) (createTokenRequest followerToken),
        .request (faultless Time.zero) findPeersRequest] = some s' :=
    ⟨_, rfl⟩
  have halong : (system 129 miniEngine ⟨[]⟩ followerCommand openAPI).Along
      (fun s e => Plain followerCommand openAPI s e ∧ ∀ x, e = .node x → Moves x) rootServer
      [.request (faultless Time.zero) (createTokenRequest followerToken),
        .request (faultless Time.zero) findPeersRequest] :=
    ⟨⟨fun n hn => absurd hn (hroute n), fun x hx => by cases hx⟩,
      fun s _ => ⟨⟨hfind s, fun x hx => by cases hx⟩, fun _ _ => trivial⟩⟩
  exact ⟨s', hs', follower_untouched miniEngine_conforms (by decide) _ _ halong hs'⟩

/-- Where nobody is an administrator at the start, no sequence of requests changes the database or the sessions; nobody
becomes one either. -/
theorem unadministered_untouched (hapi : c.api = .ok a) (hauth : c.authType ≠ "none") (d : Database Tables)
    (m : Sessions.SessionManager) (hno : NoAdmin a d.tables.tokens) {es : List Event}
    (hes : ∀ x, .node x ∈ es → Moves x)
    (h : (system stack E geo c a).run ⟨Node.start (Datastore.wrap d), m⟩ es = some s') :
    s'.node.store.db = d ∧ s'.manager = m ∧ NoAdmin a s'.tables.tokens := by
  have hauthz := api_authz hapi hauth
  have halong : (system stack E geo c a).Along (fun _ e => True ∧ ∀ x, e = .node x → Moves x)
      ⟨Node.start (Datastore.wrap d), m⟩ es :=
    System.along_of_mem es _ fun e he => ⟨trivial, fun x hx => hes x (hx ▸ he)⟩
  obtain ⟨hdb, hm⟩ := untouched_run (P := fun _ _ => True) (unwritable_noAdmin hauthz hno)
    (fun s e hs _ => reads_noAdmin hauthz (hs ▸ hno)) halong h
  exact ⟨hdb, hm, by rw [Server.tables, hdb]; exact hno⟩

/-- Tables whose only token is a follower's. -/
def followerTables : Tables := { Tables.empty with tokens := ⟨[followerToken.row], by simp⟩ }

theorem noAdmin_followerTables : NoAdmin bearerAPI followerTables.tokens := by
  intro env req creds hcreds
  obtain ⟨row, roles, hrow, -, hroles, rfl⟩ := authBearer_ok hcreds
  obtain ⟨hmem, -⟩ := Table.find?_eq_some.1 hrow
  obtain rfl := List.mem_singleton.1 hmem
  obtain rfl : "follower" = roles := Option.some.inj hroles
  rw [splitOn_role (by decide)]
  decide

theorem unadministered_untouched_create :
    ∃ s', (system 129 miniEngine ⟨[]⟩ bearerCommand bearerAPI).run
        ⟨Node.start (Datastore.wrap (Database.fresh followerTables)), ⟨[], .empty⟩⟩
        [.request (faultless Time.zero) (createTokenRequest rootToken)] = some s' ∧
      s'.node.store.db = Database.fresh followerTables ∧ s'.manager = ⟨[], .empty⟩ ∧
        NoAdmin bearerAPI s'.tables.tokens := by
  have hrun : ((system 129 miniEngine ⟨[]⟩ bearerCommand bearerAPI).run
      ⟨Node.start (Datastore.wrap (Database.fresh followerTables)), ⟨[], .empty⟩⟩
      [.request (faultless Time.zero) (createTokenRequest rootToken)]).isSome = true := by
    decide +kernel
  obtain ⟨s', hs'⟩ := Option.isSome_iff_exists.1 hrun
  exact ⟨s', hs', unadministered_untouched bearerCommand_api (by decide) (Database.fresh followerTables) _
    noAdmin_followerTables (by simp) hs'⟩

end Steps

end Wig.Api.Server
