/-
What credentials are worth against a server with bearer tokens. Somebody who has neither an administrator's nor
a follower's changes nothing and learns nothing, whatever they ask and whenever. A follower's credentials open
the log, and the log has the secrets of the tokens in it.
-/
import Wig.Api.Availability

namespace Wig.Api

open Wig.Lib Wig.Crud Wig.Model Wig.Crudlog Wig.Store Wig.Httpapi Wig.Httptransport

/-! ## What a document gives away -/

/-- A document has, at some depth, an object with the id and the secret of a token. -/
inductive Discloses (cr : String × String) : Json → Prop where
  | token {doc : Json} (hid : doc.field "id" = [.str cr.1]) (hsecret : doc.field "secret" = [.str cr.2]) :
      Discloses cr doc
  | bytes {doc : Json} (h : Discloses cr doc) : Discloses cr (.bytes doc)
  | arr {items : List Json} {doc : Json} (hmem : doc ∈ items) (h : Discloses cr doc) : Discloses cr (.arr items)
  | obj {fields : List (String × Json)} {name : String} {doc : Json} (hmem : (name, doc) ∈ fields)
      (h : Discloses cr doc) :
      Discloses cr (.obj fields)

/-- An answer gives credentials away; what comes on a stream is not in the answer. -/
def Output.Discloses (cr : String × String) : Output → Prop
  | .reply (.object doc) => Api.Discloses cr doc
  | .page r => ∃ doc, .doc doc ∈ r.body ∧ Api.Discloses cr doc
  | _ => False

/-! ## The world -/

/-- The server, the credentials that the attacker knows, and the streams that are theirs. -/
structure World where
  server : Server
  known : Set (String × String)
  channels : Set Nat

namespace World

inductive Event where
  /-- Whatever happens at the server without the attacker. -/
  | other (e : Api.Event)
  | ask (env : Env) (req : Request)
  /-- The next operation comes on a stream. -/
  | fetch (ch : Nat)

def Event.isAttack : Event → Bool
  | .other _ => false
  | .ask _ _ => true
  | .fetch _ => true

section Steps

variable (stack : Nat) (E : Engine (Database Tables) Row) (geo : Sessions.IPRefiner) (c : ApiCommand) (a : API)

/-- What an answer tells the attacker. -/
def told (w : World) (answer : Outcome Error Output) (s : Server) : World :=
  { server := s
    known := w.known ∪ {cr | ∃ out, answer = .ok out ∧ out.Discloses cr}
    channels := w.channels ∪ {ch | answer = .ok (.stream ch)} }

def afterFetch (w : World) (ch : Nat) (b : Subscriber Value) : Option World :=
  match b.out with
  | [] => none
  | op :: _ => (Node.step (crud stack) encoding w.server.node (.read ch)).map fun n =>
    { w with
      server := { w.server with node := n }
      known := w.known ∪ {cr | ∃ doc, op.marshalJSON encoding = .ok doc ∧ Api.Discloses cr doc} }

def step (w : World) : Event → Option World
  | .other e => (Server.step stack E geo c a w.server e).map fun s => { w with server := s }
  | .ask env req =>
    (Server.step stack E geo c a w.server (.request env req)).map (w.told (serve stack E geo c env req a w.server).1)
  | .fetch ch => (w.server.node.subs ch).bind (w.afterFetch stack ch)

def system : System World Event := ⟨step stack E geo c a⟩

end Steps

/-- The attacker has no credentials but those they know, and no streams but their own. -/
def Possible (w : World) : Event → Prop
  | .other _ => True
  | .ask _ req => ∀ cr, req.basicAuth = some cr → cr ∈ w.known
  | .fetch ch => ch ∈ w.channels

/-! ## Somebody without power -/

/-- The known credentials are of no token that may read the log or more. -/
def Powerless (known : Set (String × String)) (tokens : Table TokenRow.id) : Prop :=
  ∀ cr ∈ known, ∀ row roles, tokens.find? cr.1 = some row → row.secret = cr.2 → row.roles = some roles →
    "admin" ∉ roles.splitOn "," ∧ "follower" ∉ roles.splitOn ","

/-- A document that is no object and has none in it. -/
def Scalar : Json → Prop
  | .bytes _ => False
  | .arr _ => False
  | .obj _ => False
  | _ => True

theorem Scalar.not_discloses {cr : String × String} {doc : Json} (h : Scalar doc) : ¬ Api.Discloses cr doc := by
  intro hd
  cases hd with
  | token hid hsecret => cases doc <;> first | exact h | cases hid
  | bytes => exact h
  | arr => exact h
  | obj => exact h

theorem scalar_str (s : String) : Scalar (.str s) := trivial

theorem scalar_time (t : Time) : Scalar (.time t) := trivial

theorem scalar_cidr (p : Option CIDR) : Scalar (CIDR.marshalJSON p) := by
  cases p <;> trivial

/-- The documents of peers have no tokens in them. -/
theorem not_discloses_peer (cr : String × String) (p : Peer) : ¬ Api.Discloses cr p.marshalJSON := by
  intro h
  cases h with
  | token hid hsecret =>
    simp [Peer.marshalJSON, Json.field_cons, Json.sameName, Json.foldChar] at hid
  | obj hmem h =>
    simp only [List.mem_cons, List.not_mem_nil, or_false, Prod.mk.injEq] at hmem
    rcases hmem with ⟨-, rfl⟩ | ⟨-, rfl⟩ | ⟨-, rfl⟩ | ⟨-, rfl⟩ | ⟨-, rfl⟩
    · exact (scalar_str _).not_discloses h
    · exact (scalar_str _).not_discloses h
    · exact (scalar_cidr p.ip).not_discloses h
    · exact (scalar_cidr p.ip6).not_discloses h
    · exact (scalar_time _).not_discloses h

/-- An answer that gives nothing away. -/
structure Blank (out : Output) : Prop where
  discloses : ∀ cr, ¬ out.Discloses cr
  stream : ∀ ch, out ≠ .stream ch

section Confined

variable {stack : Nat} {E : Engine (Database Tables) Row} {geo : Sessions.IPRefiner} {c : ApiCommand} {a : API}

theorem bearer_api (h : c.authType = "bearer") (hapi : c.api = .ok a) :
    a = ⟨fun env tokens req => authBearer env.authOpens env.authCommits tokens ⟨req.basicAuth⟩,
      hasPermission rbacRules⟩ := by
  unfold ApiCommand.api at hapi
  rw [h, if_neg (by decide), if_pos rfl] at hapi
  cases hapi
  rfl

/-- A registration answers with a peer or an error. -/
theorem blank_register (hstack : 128 < stack) {s : Server}
    (hcan : ∀ name, Registration.CanonicalPeers s.tables name) (env : Env)
    (req : Request) : ∃ out, handleRegisterPeer stack env req s = (.ok out, s) ∧ Blank out := by
  have hblank : ∀ r : Reply, (∀ doc, r = .object doc → ∃ p : Peer, doc = p.marshalJSON) → Blank (.reply r) := by
    refine fun r hr => ⟨fun cr hd => ?_, fun ch h => by cases h⟩
    cases r with
    | object doc =>
      obtain ⟨p, rfl⟩ := hr doc rfl
      exact not_discloses_peer cr p hd
    | _ => exact hd
  unfold handleRegisterPeer
  cases hbody : req.body.bind Registration.RegisterPeerRequest.unmarshalJSON with
  | error e =>
    exact ⟨_, Proc.bind_of_ok (serveJSON_badRequest hbody), hblank _ fun doc h => by cases h⟩
  | ok rr =>
    have hreg := Registration.registerWithRanger_eq hstack (hcan (rr.call env.now env.opens env.commits).intfName)
    rcases hnew : Registration.registerNewPeer Registration.bruteContains (rr.call env.now env.opens env.commits)
      s.tables with ⟨peer, _ | e⟩
    · rw [hnew] at hreg
      refine ⟨.reply (.object peer.marshalJSON), Proc.bind_of_ok (serveJSON_object hbody ?_), hblank _ fun doc h => ?_⟩
      · simp only [hreg, Option.elim_none]
      · cases h
        exact ⟨peer, rfl⟩
    · rw [hnew] at hreg
      refine ⟨.reply (.failed e), Proc.bind_of_ok (serveJSON_failed hbody ?_), hblank _ fun doc h => by cases h⟩
      simp only [hreg, Option.elim_some]

/-- Credentials without power get to no handler but that of registrations. -/
theorem admitted_powerless (hbearer : c.authType = "bearer") (hapi : c.api = .ok a) {s : Server}
    {known : Set (String × String)} (hweak : Powerless known s.tables.tokens) {env : Env} {req : Request}
    (hreq : ∀ cr, req.basicAuth = some cr → cr ∈ known)
    {e : Endpoint} (h : admitted c env req a s = some e) : e = .registerPeer := by
  rw [bearer_api hbearer hapi] at h
  obtain ⟨creds, hcreds, hroles⟩ := Server.admitted_roles rfl h
  obtain ⟨row, roles, hrow, hbasic, hrowRoles, rfl⟩ := authBearer_ok hcreds
  obtain ⟨hadmin, hfollower⟩ := hweak _ (hreq _ hbasic) row roles hrow rfl hrowRoles
  rcases hroles with h | ⟨h, -⟩ | ⟨-, h⟩
  · exact absurd h hadmin
  · exact absurd h hfollower
  · exact h

variable (E geo) in
/-- Without power a request changes nothing and is told nothing. -/
theorem blank_serve (hbearer : c.authType = "bearer") (hapi : c.api = .ok a) (hstack : 128 < stack) {s : Server}
    (hcan : ∀ name, Registration.CanonicalPeers s.tables name) {known : Set (String × String)}
    (hweak : Powerless known s.tables.tokens) (env : Env) (req : Request)
    (hreq : ∀ cr, req.basicAuth = some cr → cr ∈ known) :
    ∃ out, serve stack E geo c env req a s = (.ok out, s) ∧ Blank out := by
  rcases serve_cases stack E geo c env req a s with ⟨e, he, hserve⟩ | ⟨-, out, hout, hserve⟩
  · cases admitted_powerless hbearer hapi hweak hreq he
    rw [hserve]
    exact blank_register hstack hcan env req
  · refine ⟨out, hserve, ?_⟩
    rcases hout with rfl | rfl | rfl <;> exact ⟨fun _ h => h, fun _ h => by cases h⟩

variable (E geo) in
theorem step_powerless (hbearer : c.authType = "bearer") (hapi : c.api = .ok a) (hstack : 128 < stack) {s : Server}
    (hcan : ∀ name, Registration.CanonicalPeers s.tables name) {known : Set (String × String)}
    (hweak : Powerless known s.tables.tokens) (env : Env) (req : Request)
    (hreq : ∀ cr, req.basicAuth = some cr → cr ∈ known) (halive : s.node.crashed = false) :
    Server.step stack E geo c a s (.request env req) = some s := by
  rw [Server.step_request halive]
  cases hadmitted : admitted c env req a s with
  | none => rfl
  | some e =>
    obtain rfl := admitted_powerless hbearer hapi hweak hreq hadmitted
    exact settle_register_canonical hstack hcan

theorem told_blank {out : Output} (h : Blank out) (w : World) : w.told (.ok out) w.server = w := by
  have hknown : {cr | ∃ out', (.ok out : Outcome Error Output) = .ok out' ∧ out'.Discloses cr} = ∅ := by
    refine Set.eq_empty_of_forall_notMem ?_
    rintro cr ⟨out', ⟨⟩, hd⟩
    exact h.discloses cr hd
  have hstreams : {ch | (.ok out : Outcome Error Output) = .ok (.stream ch)} = ∅ := by
    refine Set.eq_empty_of_forall_notMem fun ch hch => ?_
    exact h.stream ch (Outcome.ok.inj hch)
  simp only [told, hknown, hstreams, Set.union_empty]

/-- A world in which the attacker has no power, and no registration overflows the stack. -/
structure Safe (w : World) : Prop where
  powerless : Powerless w.known w.server.tables.tokens
  canonical : ∀ name, Registration.CanonicalPeers w.server.tables name

/-- What the attacker does in such a world has no effect on it. -/
theorem step_attack (hbearer : c.authType = "bearer") (hapi : c.api = .ok a) (hstack : 128 < stack)
    {w w' : World} {e : Event} (hsafe : w.Safe) (hchannels : w.channels = ∅) (he : w.Possible e)
    (hattack : e.isAttack = true) (h : step stack E geo c a w e = some w') : w' = w := by
  cases e with
  | other e => cases hattack
  | ask env req =>
    obtain ⟨out, hserve, hblank⟩ := blank_serve E geo hbearer hapi hstack hsafe.canonical hsafe.powerless env req he
    obtain ⟨s, hs, rfl⟩ := Option.map_eq_some_iff.1 h
    have hserver :=
      step_powerless E geo hbearer hapi hstack hsafe.canonical hsafe.powerless env req he (Server.step_alive hs)
    cases hs.symm.trans hserver
    rw [hserve, told_blank hblank]
  | fetch ch =>
    have hmem : ch ∈ w.channels := he
    rw [hchannels] at hmem
    exact hmem.elim

/-- What others do tells the attacker nothing. -/
theorem step_other {w w' : World} {e : Api.Event} (h : step stack E geo c a w (.other e) = some w') :
    w'.known = w.known ∧ w'.channels = w.channels := by
  obtain ⟨s, -, rfl⟩ := Option.map_eq_some_iff.1 h
  exact ⟨rfl, rfl⟩

/-- As long as no token that the attacker has credentials of may read the log or more, the attacker learns no others and
gets no stream; and the world is what it would be without them. -/
theorem confined (hbearer : c.authType = "bearer") (hapi : c.api = .ok a) (hstack : 128 < stack) {w w' : World}
    (hchannels : w.channels = ∅) {es : List Event} (hpossible : (system stack E geo c a).Along Possible w es)
    (hsafe : (system stack E geo c a).Throughout Safe w es) (h : (system stack E geo c a).run w es = some w') :
    w'.known = w.known ∧ w'.channels = ∅ ∧
      (system stack E geo c a).run w (es.filter fun e => !e.isAttack) = some w' := by
  have hstep : ∀ w e w', w.Possible e → w.Safe → w.channels = ∅ → step stack E geo c a w e = some w' →
      w'.known = w.known ∧ w'.channels = w.channels := by
    intro w e w' he hs hc hw
    cases e with
    | other e => exact step_other hw
    | ask env req =>
      rw [step_attack hbearer hapi hstack hs hc he rfl hw]
      exact ⟨rfl, rfl⟩
    | fetch ch =>
      rw [step_attack hbearer hapi hstack hs hc he rfl hw]
      exact ⟨rfl, rfl⟩
  have hboth : (system stack E geo c a).Along (fun v e => v.Possible e ∧ v.Safe ∧ v.channels = ∅) w es := by
    clear h
    induction es generalizing w with
    | nil => trivial
    | cons e es ih =>
      refine ⟨⟨hpossible.1, hsafe.1, hchannels⟩, fun v hv => ih ?_ (hpossible.2 v hv) (hsafe.2 v hv)⟩
      rw [(hstep w e v hpossible.1 hsafe.1 hchannels hv).2, hchannels]
  have hkept := System.invariant_run (S := system stack E geo c a) (I := fun v => v.known = w.known ∧ v.channels = ∅)
    (P := fun v e => v.Possible e ∧ v.Safe ∧ v.channels = ∅) (fun v e v' hI hP hv => by
      obtain ⟨hk, hc⟩ := hstep v e v' hP.1 hP.2.1 hP.2.2 hv
      exact ⟨hk.trans hI.1, hc.trans hI.2⟩) es w w' ⟨rfl, hchannels⟩ hboth h
  refine ⟨hkept.1, hkept.2, System.run_purge (fun v e v' hP hattack hv => ?_) es hboth h⟩
  exact step_attack hbearer hapi hstack hP.2.1 hP.2.2 hP.1 hattack hv

def registrarToken : Token := ⟨"g", "q", some ["registrar"]⟩

def registrarTables : Tables :=
  { Tables.empty with tokens := ⟨[rootToken.row, registrarToken.row], by simp [rootToken, registrarToken]⟩ }

/-- Somebody has the credentials of a registrar. -/
def registrarWorld : World :=
  ⟨⟨Node.start (Datastore.wrap (Database.fresh registrarTables)), ⟨[], .empty⟩⟩, {("g", "q")}, ∅⟩

theorem safe_registrarWorld : registrarWorld.Safe where
  powerless := by
    intro cr hcr row roles hrow _ hroles
    obtain rfl := Set.mem_singleton_iff.1 hcr
    obtain rfl : registrarToken.row = row := Option.some.inj hrow
    obtain rfl : "registrar" = roles := Option.some.inj hroles
    rw [splitOn_role (by decide)]
    decide
  canonical _ _ hrow := (List.not_mem_nil hrow).elim

/-- The registrar's requests. -/
def registrarRequest (path : String) : Request :=
  ⟨path, some ("g", "q"), none, [], fun _ => "", .ok rootToken.marshalJSON⟩

theorem possible_registrar (path : String) :
    registrarWorld.Possible (.ask (faultless Time.zero) (registrarRequest path)) := by
  intro cr hcr
  cases hcr
  exact Set.mem_singleton _

theorem step_registrar (path : String) : step 129 miniEngine ⟨[]⟩ bearerCommand bearerAPI registrarWorld
    (.ask (faultless Time.zero) (registrarRequest path)) = some registrarWorld := by
  obtain ⟨out, hserve, hblank⟩ :=
    blank_serve miniEngine ⟨[]⟩ (c := bearerCommand) (a := bearerAPI) rfl rfl (by decide : 128 < 129)
    safe_registrarWorld.canonical safe_registrarWorld.powerless (faultless Time.zero) (registrarRequest path)
      (possible_registrar path)
  have hserver := step_powerless miniEngine ⟨[]⟩ (c := bearerCommand) (a := bearerAPI) rfl rfl (by decide : 128 < 129)
    safe_registrarWorld.canonical safe_registrarWorld.powerless (faultless Time.zero) (registrarRequest path)
      (possible_registrar path) rfl
  show (Server.step _ _ _ _ _ registrarWorld.server _).map _ = _
  rw [hserver, hserve]
  exact congrArg some (told_blank hblank registrarWorld)

/-- The registrar registers a peer, and tries to create a token. -/
def registrarEvents : List Event :=
  [.ask (faultless Time.zero) (registrarRequest apiURLRegisterPeer),
    .ask (faultless Time.zero) (registrarRequest "/api/v1/token/create")]

theorem confined_registrar :
    (system 129 miniEngine ⟨[]⟩ bearerCommand bearerAPI).run registrarWorld registrarEvents = some registrarWorld ∧
    registrarWorld.channels = ∅ ∧
    (system 129 miniEngine ⟨[]⟩ bearerCommand bearerAPI).run registrarWorld
      (registrarEvents.filter fun e => !e.isAttack) = some registrarWorld := by
  have hstays : ∀ path w, step 129 miniEngine ⟨[]⟩ bearerCommand bearerAPI registrarWorld
      (.ask (faultless Time.zero) (registrarRequest path)) = some w → w = registrarWorld := fun path w hw =>
    Option.some.inj (hw.symm.trans (step_registrar path))
  have hpossible : (system 129 miniEngine ⟨[]⟩ bearerCommand bearerAPI).Along Possible
      registrarWorld registrarEvents := by
    refine ⟨possible_registrar _, fun w hw => ?_⟩
    rw [hstays _ w hw]
    exact ⟨possible_registrar _, fun _ _ => trivial⟩
  have hsafe : (system 129 miniEngine ⟨[]⟩ bearerCommand bearerAPI).Throughout Safe registrarWorld registrarEvents := by
    refine ⟨safe_registrarWorld, fun w hw => ?_⟩
    rw [hstays _ w hw]
    refine ⟨safe_registrarWorld, fun w hw => ?_⟩
    rw [hstays _ w hw]
    exact safe_registrarWorld
  have hrun : (system 129 miniEngine ⟨[]⟩ bearerCommand bearerAPI).run registrarWorld registrarEvents =
      some registrarWorld :=
    (System.run_of_step (step_registrar _) _).trans (System.run_of_step (step_registrar _) [])
  obtain ⟨-, hchannels, hpurged⟩ := confined rfl bearerCommand_api (by decide) rfl hpossible hsafe hrun
  exact ⟨hrun, hchannels, hpurged⟩

end Confined

/-! ## A follower -/

/-- The event at the server. -/
def Event.server : Event → Api.Event
  | .other e => e
  | .ask env req => .request env req
  | .fetch ch => .node (.read ch)

/-- Every commit succeeds, finds have fields for keys, and what is not a request is one of the events of a primary. -/
def Committed (c : ApiCommand) (a : API) (w : World) : Event → Prop
  | .other (.request env req) => env.commits = true ∧ Server.Plain c a w.server (.request env req)
  | .other (.node x) => w.server.node.PrimaryEvent x
  | .ask env req => env.commits = true ∧ Server.Plain c a w.server (.request env req)
  | .fetch _ => True

section Follower

variable {stack : Nat} {E : Engine (Database Tables) Row} {geo : Sessions.IPRefiner} {c : ApiCommand}
  {a : API} {t₀ : Tables}

theorem step_server {w w' : World} {e : Event} (h : step stack E geo c a w e = some w') :
    Server.step stack E geo c a w.server e.server = some w'.server := by
  cases e with
  | other e =>
    obtain ⟨s, hs, rfl⟩ := Option.map_eq_some_iff.1 h
    exact hs
  | ask env req =>
    obtain ⟨s, hs, rfl⟩ := Option.map_eq_some_iff.1 h
    exact hs
  | fetch ch =>
    obtain ⟨b, -, h⟩ := Option.bind_eq_some_iff.1 h
    unfold afterFetch at h
    split at h
    · cases h
    · obtain ⟨n, hn, rfl⟩ := Option.map_eq_some_iff.1 h
      rw [Event.server, Server.step, hn]
      rfl

/-- A server keeps the invariant of a primary while it runs. -/
theorem primary_step (hE : Conforms E) {s s' : Server} {e : Api.Event}
    (hs : Node.Primary (crud stack) encoding t₀ s.node)
    (hrequest : ∀ env req, e = .request env req → env.commits = true ∧ Server.Plain c a s (.request env req))
    (hnode : ∀ x, e = .node x → s.node.PrimaryEvent x) (h : Server.step stack E geo c a s e = some s')
    (halive : s'.node.crashed = false) : Node.Primary (crud stack) encoding t₀ s'.node := by
  have hplain : Server.Plain c a s e := by
    cases e with
    | request env req => exact (hrequest env req rfl).2
    | node x => trivial
  cases Server.step_cases (hplain.reads hE) h with
  | refused => exact hs
  | silent env req e s' hadmitted hasks hsilent => rw [hsilent.node_eq hs.alive halive]; exact hs
  | asked env req e x n hadmitted hasks hn =>
    refine hs.step (model_replayable stack) ?_ hn
    rcases asks_cases hasks with ⟨-, -, -, -, rfl, -⟩ | ⟨-, -, rfl, -⟩
    · exact rfl
    · exact (hrequest env req rfl).1
  | node x n hn => exact hs.step (model_replayable stack) (hnode x rfl) hn

theorem primary_of_reach (hE : Conforms E) {m : Sessions.SessionManager} {known : Set (String × String)} {w : World}
    (h : (system stack E geo c a).Reach (Committed c a)
      ⟨⟨Node.start (Datastore.wrap (Database.fresh t₀)), m⟩, known, ∅⟩ w)
    (halive : w.server.node.crashed = false) : Node.Primary (crud stack) encoding t₀ w.server.node := by
  refine h.invariant (I := fun w => w.server.node.crashed = false → Node.Primary (crud stack) encoding t₀ w.server.node)
    (fun _ => .start (crud stack) encoding t₀) (fun v e v' hv he hstep halive' => ?_) halive
  have hserver := step_server hstep
  refine primary_step hE (hv (Server.step_alive hserver)) ?_ ?_ hserver halive'
  · intro env req heq
    rcases e with ⟨env' | x⟩ | ⟨env', req'⟩ | ch <;> cases heq <;> exact he
  · intro x heq
    rcases e with ⟨env' | x'⟩ | ⟨env', req'⟩ | ch <;> cases heq
    · exact he
    · trivial

/-! ## The secrets in the log -/

theorem tokens_insert {t t' : Tables} {row : Row} (h : t.insert row = .ok t') {r : TokenRow} (hr : r ∈ t'.tokens.rows) :
    r ∈ t.tokens.rows ∨ row = .token r := by
  cases row with
  | interface i =>
    simp only [Tables.insert] at h
    split at h
    · cases h
    · cases h; exact .inl hr
  | peer p =>
    simp only [Tables.insert] at h
    split at h
    · cases h
    · split at h
      · cases h; exact .inl hr
      · cases h
  | token x =>
    simp only [Tables.insert] at h
    split at h
    · cases h
    · rename_i u hu
      cases h
      rcases (Table.mem_insert hu).1 hr with hold | rfl
      · exact .inl hold
      · exact .inr rfl

theorem tokens_update {t t' : Tables} {row : Row} (h : t.update row = .ok t') {r : TokenRow} (hr : r ∈ t'.tokens.rows) :
    r ∈ t.tokens.rows ∨ row = .token r := by
  cases row with
  | interface i => cases h; exact .inl hr
  | peer p =>
    simp only [Tables.update] at h
    split at h
    · cases h; exact .inl hr
    · cases h
  | token x =>
    cases h
    rcases Table.mem_replace.1 hr with ⟨rfl, -⟩ | ⟨hold, -⟩
    · exact .inr rfl
    · exact .inl hold

theorem tokens_delete {t : Tables} {row : Row} {r : TokenRow} (hr : r ∈ (t.delete row).tokens.rows) :
    r ∈ t.tokens.rows := by
  cases row with
  | interface i => exact hr
  | peer p => exact hr
  | token x => exact (Table.mem_erase.1 hr).1

theorem token_of_row {v : Value} {r : TokenRow} (h : v.row = .ok (.token r)) : ∃ tok, v = .token tok ∧ tok.row = r := by
  cases v with
  | token tok => cases h; exact ⟨tok, rfl, rfl⟩
  | _ => cases h

/-- A token that is in the tables after an operation was there before, or is the one of the operation. -/
theorem token_of_applyOp {op : Op Value} {t t' : Tables} (h : applyOp (crud stack) op t = (.ok (), t')) {r : TokenRow}
    (hr : r ∈ t'.tokens.rows) : r ∈ t.tokens.rows ∨ ∃ tok, op.value = .token tok ∧ tok.row = r := by
  obtain ⟨seq, type, ts, v⟩ := op
  have hrow : ∀ {stmt : Row → Stmt}, namedExec stmt v t = (.ok (), t') → ∃ row, v.row = .ok row ∧
      t.exec (stmt row) = .ok t' := by
    intro stmt hexec
    have hbind := namedExec_ok hexec
    cases hv : v.row with
    | error e => rw [hv] at hbind; cases hbind
    | ok row => rw [hv] at hbind; exact ⟨row, rfl, hbind⟩
  cases type with
  | create =>
    obtain ⟨row, hv, hexec⟩ := hrow (show namedExec .insert v t = _ from crud_create stack v ▸ h)
    rcases tokens_insert hexec hr with hold | rfl
    · exact .inl hold
    · exact .inr (token_of_row hv)
  | update =>
    obtain ⟨row, hv, hexec⟩ := hrow (show namedExec .update v t = _ from crud_update stack v ▸ h)
    rcases tokens_update hexec hr with hold | rfl
    · exact .inl hold
    · exact .inr (token_of_row hv)
  | delete =>
    obtain ⟨row, hv, hexec⟩ := hrow (show namedExec .delete v t = _ from crud_delete stack v ▸ h)
    cases hexec
    exact .inl (tokens_delete hr)
  | unknown code => cases h

/-- A token that the rows of a log lead to was there at the start, or is in one of them. -/
theorem token_of_replay {r : TokenRow} :
    ∀ (rows : List OpSerialized) {t t' : Tables}, replay (crud stack) encoding rows t = (.ok (), t') →
    r ∈ t'.tokens.rows → r ∈ t.tokens.rows ∨ ∃ row ∈ rows, ∃ op tok, row.decode encoding = .ok op ∧
      op.value = .token tok ∧ tok.row = r
  | [], t, t', h, hr => by cases h; exact .inl hr
  | row :: rows, t, t', h, hr => by
    obtain ⟨_, t₁, h₁, h₂⟩ := Proc.bind_ok h
    obtain ⟨op, t₂, hdecode, happly⟩ := Proc.bind_ok h₁
    have hop : row.decode encoding = .ok op ∧ t₂ = t := by
      rw [Proc.lift_apply, Prod.mk.injEq] at hdecode
      exact ⟨Outcome.ofExcept_eq_ok.1 hdecode.1, hdecode.2.symm⟩
    obtain ⟨hop, rfl⟩ := hop
    rcases token_of_replay rows h₂ hr with hmid | ⟨row', hmem, hrow'⟩
    · rcases token_of_applyOp happly hmid with hold | ⟨tok, hvalue, htok⟩
      · exact .inl hold
      · exact .inr ⟨row, List.mem_cons_self, op, tok, hop, hvalue, htok⟩
    · exact .inr ⟨row', List.mem_cons_of_mem _ hmem, hrow'⟩

/-- The document of a token has its secret. -/
theorem discloses_marshal (tok : Token) : Api.Discloses (tok.id, tok.secret) (Value.token tok).marshal := by
  refine .token ?_ ?_ <;>
    simp [Value.marshal, Token.marshalJSON, Json.field_cons, Json.sameName, Json.foldChar]

/-- The document of an operation on a token has its secret. -/
theorem discloses_of_token {op : Op Value} {row : OpSerialized} (hop : op.serialize encoding = .ok row) {tok : Token}
    (hvalue : encoding.marshalValue (.token tok) = .ok row.value) :
    ∃ doc, op.marshalJSON encoding = .ok doc ∧ Api.Discloses (tok.id, tok.secret) doc := by
  refine ⟨row.marshalJSON, by rw [Op.marshalJSON, hop]; rfl, ?_⟩
  have hcontainer : Api.Discloses (tok.id, tok.secret) row.value := by
    rw [← Except.ok.inj hvalue]
    exact .obj (List.mem_cons_of_mem _ List.mem_cons_self) (.bytes (discloses_marshal tok))
  exact .obj (List.mem_cons_of_mem _ (List.mem_cons_of_mem _ List.mem_cons_self)) (.bytes hcontainer)

/-! ## Reading the log -/

/-- A stream of the attacker, with operations that nobody has forwarded yet. -/
structure Listening (w : World) (ch : Nat) (ops : List (Op Value)) : Prop where
  alive : w.server.node.crashed = false
  mine : ch ∈ w.channels
  sub : ∃ b, w.server.node.subs ch = some b ∧ b.preload = ops ∧ b.hand = none ∧ b.out = []

/-- What the attacker gets to know leaves the database and their knowledge as they were, and adds to it. -/
structure Learned (w : World) (secrets : Set (String × String)) (w' : World) : Prop where
  db : w'.server.node.store.db = w.server.node.store.db
  kept : w.known ⊆ w'.known
  secrets : secrets ⊆ w'.known

def secretsOf (op : Op Value) : Set (String × String) :=
  {cr | ∃ doc, op.marshalJSON encoding = .ok doc ∧ Api.Discloses cr doc}

variable (stack E geo c a) in
/-- The goroutine of the stream forwards an operation, and the attacker reads it. -/
theorem listen_one {w₀ w : World} {ch : Nat} {op : Op Value} {ops : List (Op Value)}
    (hreach : (system stack E geo c a).Reach Possible w₀ w) (h : w.Listening ch (op :: ops)) :
    ∃ w', (system stack E geo c a).Reach Possible w₀ w' ∧ w'.Listening ch ops ∧ w.Learned (secretsOf op) w' := by
  obtain ⟨halive, hmine, b, hb, hpre, hhand, hout⟩ := h
  have hforward : Node.step (crud stack) encoding w.server.node (.forward ch) =
      some (w.server.node.setSub ch { b with preload := ops, out := [op] }) :=
        Node.step_forward_preload halive hb hpre hout
  generalize hn₁ : w.server.node.setSub ch { b with preload := ops, out := [op] } = n₁ at hforward
  have hb₁ : n₁.subs ch = some { b with preload := ops, out := [op] } := by rw [← hn₁]; exact Function.update_self _ _ _
  have halive₁ : n₁.crashed = false := by rw [← hn₁]; exact halive
  have hread : Node.step (crud stack) encoding n₁ (.read ch) = some _ := Node.step_read_out halive₁ hb₁ rfl
  have e₁ : step stack E geo c a w (.other (.node (.forward ch))) =
      some { w with server := { w.server with node := n₁ } } := by
    simp only [step, Server.step, hforward, Option.map_some]
  have e₂ : step stack E geo c a { w with server := { w.server with node := n₁ } } (.fetch ch) = some
      { w with
        server := { w.server with node := n₁.setSub ch { b with preload := ops, out := [], read := b.read ++ [op] } }
        known := w.known ∪ secretsOf op } := by
    simp only [step, hb₁, Option.bind_some, afterFetch, hread, Option.map_some]
    rfl
  have p₁ : w.Possible (.other (.node (.forward ch))) := trivial
  have p₂ : Possible { w with server := { w.server with node := n₁ } } (.fetch ch) := hmine
  have hreach₂ := (hreach.next p₁ e₁).next p₂ e₂
  refine ⟨_, hreach₂, ⟨halive₁, hmine, _, Function.update_self _ _ _, rfl, hhand, rfl⟩, ?_, ?_, ?_⟩
  · show n₁.store.db = _
    rw [← hn₁]
    rfl
  · exact Set.subset_union_left
  · exact Set.subset_union_right

variable (stack E geo c a) in
theorem listen_all {w₀ : World} {ch : Nat} :
    ∀ (ops : List (Op Value)) {w : World}, (system stack E geo c a).Reach Possible w₀ w →
    w.Listening ch ops → ∃ w', (system stack E geo c a).Reach Possible w₀ w' ∧
      w.Learned {cr | ∃ op ∈ ops, cr ∈ secretsOf op} w'
  | [], w, hreach, _ => ⟨w, hreach, rfl, subset_rfl, by rintro cr ⟨op, hop, -⟩; cases hop⟩
  | op :: ops, w, hreach, h => by
    obtain ⟨w₁, hreach₁, h₁, hone⟩ := listen_one stack E geo c a hreach h
    obtain ⟨w', hreach', hrest⟩ := listen_all ops hreach₁ h₁
    refine ⟨w', hreach', hrest.db.trans hone.db, hone.kept.trans hrest.kept, ?_⟩
    rintro cr ⟨x, hx, hcr⟩
    rcases List.mem_cons.1 hx with rfl | hx
    · exact hrest.kept (hone.secrets hcr)
    · exact hrest.secrets ⟨x, hx, hcr⟩

/-- The request of a follower that starts at the beginning. -/
def subscribeRequest (cr : String × String) : Request :=
  ⟨apiURLSubscribe, some cr, none, [], fun k => if k = "start" then "1" else "", .error .json⟩

theorem parseSequence_one : parseSequence "1" = some 1 := by decide

theorem route_subscribe (primary : Bool) : (routes primary).lookup apiURLSubscribe = some .subscribe := by
  cases primary <;> decide

/-- A follower is let in to subscribe. -/
theorem admitted_follower (hbearer : c.authType = "bearer") (hapi : c.api = .ok a) {s : Server} {row : TokenRow}
    {roles : String} (hrow : s.tables.tokens.find? row.id = some row) (hroles : row.roles = some roles)
    (hfollower : "follower" ∈ roles.splitOn ",") :
    admitted c (faultless Time.zero) (subscribeRequest (row.id, row.secret)) a s = some .subscribe := by
  refine admitted_eq_some.2 ⟨route_subscribe c.primary, runs_iff.2 ⟨⟨row.id, roles.splitOn ","⟩, ?_, ?_⟩⟩
  · rw [bearer_api hbearer hapi]
    exact authBearer_eq_ok.2 ⟨row, roles, hrow, rfl, hroles, rfl⟩
  · rw [bearer_api hbearer hapi]
    exact permits_iff.2 (.inr (.inl ⟨hfollower, rfl⟩))

theorem asks_subscribeRequest (cr : String × String) :
    asks c (faultless Time.zero) (subscribeRequest cr) .subscribe = some (.subscribe 1 true) := by
  simp only [asks, subscribeRequest, if_true, parseSequence_one]
  rfl

/-- The server with a subscriber from the first number on. -/
def subscribedServer (s : Server) (preload : List (Op Value)) : Server :=
  { s with
    node := (s.node.setPubsub s.node.store.pubsub.subscribed).setSub s.node.store.pubsub.next
      ⟨1, preload, none, [], [], false⟩ }

variable (E geo) in
/-- Credentials of a follower open the whole log. -/
theorem subscribe_opens (hbearer : c.authType = "bearer") (hapi : c.api = .ok a) {w : World}
    (hp : Node.Primary (crud stack) encoding t₀ w.server.node) (hm : w.server.node.emission = none)
    {row : TokenRow} {roles : String} (hrow : w.server.tables.tokens.find? row.id = some row)
    (hroles : row.roles = some roles) (hfollower : "follower" ∈ roles.splitOn ",") :
    ∃ w' ch ops, step stack E geo c a w (.ask (faultless Time.zero) (subscribeRequest (row.id, row.secret))) = some w' ∧
      w'.Listening ch ops ∧ w.Learned ∅ w' ∧ Encodes encoding ops (w.server.node.store.db.since 1) := by
  obtain ⟨preload, hq⟩ := hp.integral.query_ok (model_replayable stack) (show 1 < 2 ^ 63 by decide)
  have hencodes := hp.integral.query_encodes (model_replayable stack) hq
  have hsub := Datastore.subscribe_of_query (show 1 ≤ w.server.node.store.db.sequence + 1 by omega) hq
  have hadmitted := admitted_follower hbearer hapi hrow hroles hfollower
  have hhandle : handleSubscribeOn (faultless Time.zero) (subscribeRequest (row.id, row.secret)) w.server =
      (.ok (.stream w.server.node.store.pubsub.next), subscribedServer w.server preload) := by
    unfold handleSubscribeOn
    rw [show parseSequence ((subscribeRequest (row.id, row.secret)).form "start") = some 1 from parseSequence_one]
    simp only [show (faultless Time.zero).commits = true from rfl, hsub]
    rfl
  have hserver : Server.step stack E geo c a w.server
      (.request (faultless Time.zero) (subscribeRequest (row.id, row.secret))) =
        some (subscribedServer w.server preload) := by
    rw [Server.step_request hp.alive, hadmitted]
    simp only [asks_subscribeRequest, Node.step_subscribe hp.alive hm, hsub]
    rfl
  have hstep : step stack E geo c a w (.ask (faultless Time.zero) (subscribeRequest (row.id, row.secret))) =
      some (w.told (.ok (.stream w.server.node.store.pubsub.next)) (subscribedServer w.server preload)) := by
    rw [step, hserver, serve_of_admitted hadmitted]
    exact congrArg (fun r => some (w.told r.1 _)) hhandle
  refine ⟨_, w.server.node.store.pubsub.next, preload, hstep, ?_, ?_, hencodes⟩
  · exact ⟨hp.alive, .inr rfl, _, Function.update_self _ _ _, rfl, rfl, rfl⟩
  · exact ⟨rfl, Set.subset_union_left, Set.empty_subset _⟩

theorem mem_of_encodes {row : OpSerialized} :
    ∀ {ops : List (Op Value)} {rows : List OpSerialized}, Encodes encoding ops rows → row ∈ rows →
    ∃ op ∈ ops, op.serialize encoding = .ok row
  | _, _, .cons h hrest, hmem => by
    rcases List.mem_cons.1 hmem with rfl | hmem
    · exact ⟨_, List.mem_cons_self, h⟩
    · obtain ⟨op, hop, hser⟩ := mem_of_encodes hrest hmem
      exact ⟨op, List.mem_cons_of_mem _ hop, hser⟩

/-- Every token of the tables that was not there at the start is in the log, with its secret. -/
theorem secrets_logged {n : Node Tables Value} (hp : Node.Primary (crud stack) encoding t₀ n) {ops : List (Op Value)}
    (hops : Encodes encoding ops (n.store.db.since 1)) {r : TokenRow} (hr : r ∈ n.store.db.tables.tokens.rows) :
    r ∈ t₀.tokens.rows ∨ ∃ op ∈ ops, (r.id, r.secret) ∈ secretsOf op := by
  rcases token_of_replay n.store.db.log.rows hp.integral.replays hr with hold | ⟨row, hrow, op',
    tok, hdecode, hvalue, rfl⟩
  · exact .inl hold
  · obtain ⟨op₀, hop₀⟩ := hp.integral.encoded row hrow
    obtain ⟨op₁, hdecode₁, hser₁, -, -⟩ := (model_replayable stack).decode_serialize hop₀
    rw [hdecode, Except.ok.injEq] at hdecode₁
    subst hdecode₁
    have hmarshal : encoding.marshalValue (.token tok) = .ok row.value := hvalue ▸ (Op.serialize_eq_ok hser₁).1
    have hsince : row ∈ n.store.db.since 1 := by
      rw [hp.integral.since_eq]
      exact hrow
    obtain ⟨op, hop, hser⟩ := mem_of_encodes hops hsince
    exact .inr ⟨op, hop, discloses_of_token hser hmarshal⟩

/-- With these credentials the attacker gets to every handler of the server, unless the token lookup fails. -/
def Opens (c : ApiCommand) (a : API) (w : World) (cr : String × String) : Prop :=
  ∀ (env : Env) (req : Request) (e : Endpoint), env.authOpens = true → env.authCommits = true →
    req.basicAuth = some cr →
    (routes c.primary).lookup req.path = some e → w.Possible (.ask env req) ∧ admitted c env req a w.server = some e

theorem opens_admin (hbearer : c.authType = "bearer") (hapi : c.api = .ok a) {w : World} {r : TokenRow} {roles : String}
    (hr : r ∈ w.server.tables.tokens.rows) (hroles : r.roles = some roles) (hadmin : "admin" ∈ roles.splitOn ",")
    (hknown : (r.id, r.secret) ∈ w.known) : Opens c a w (r.id, r.secret) := by
  intro env req e hopens hcommits hbasic hroute
  refine ⟨fun cr hcr => ?_, admitted_eq_some.2 ⟨hroute, runs_iff.2 ⟨⟨r.id, roles.splitOn ","⟩, ?_, ?_⟩⟩⟩
  · rw [hbasic, Option.some.injEq] at hcr
    exact hcr ▸ hknown
  · rw [bearer_api hbearer hapi]
    show authBearer env.authOpens env.authCommits w.server.tables.tokens ⟨req.basicAuth⟩ = _
    rw [hopens, hcommits]
    exact authBearer_eq_ok.2 ⟨r, roles, Table.find?_eq_some.2 ⟨hr, rfl⟩, hbasic, hroles, rfl⟩
  · rw [bearer_api hbearer hapi]
    exact permits_iff.2 (.inl hadmin)

/-- In whatever run of a primary whose commits succeed and whose finds have fields for keys, and unless an
`Apply` is in progress: somebody with the credentials of a follower can get those of every token that was not
there at the start, without a change to the database; with an administrator's among them everything is open to
them. -/
theorem follower_reads_secrets (hE : Conforms E) (hbearer : c.authType = "bearer") (hapi : c.api = .ok a)
    {m : Sessions.SessionManager} {known : Set (String × String)} {w : World}
    (h : (system stack E geo c a).Reach (Committed c a)
      ⟨⟨Node.start (Datastore.wrap (Database.fresh t₀)), m⟩, known, ∅⟩ w)
    (halive : w.server.node.crashed = false) (hm : w.server.node.emission = none) {row : TokenRow} {roles : String}
    (hrow : w.server.tables.tokens.find? row.id = some row)
    (hroles : row.roles = some roles) (hfollower : "follower" ∈ roles.splitOn ",")
    (hknown : (row.id, row.secret) ∈ w.known) :
    ∃ w', (system stack E geo c a).Reach Possible w w' ∧ w'.server.node.store.db = w.server.node.store.db ∧
      ∀ r ∈ w.server.tables.tokens.rows, r ∉ t₀.tokens.rows → (r.id, r.secret) ∈ w'.known ∧
        ∀ roles, r.roles = some roles → "admin" ∈ roles.splitOn "," → Opens c a w' (r.id, r.secret) := by
  have hp := primary_of_reach hE h halive
  obtain ⟨w₁, ch, ops, hstep, hlistening, hfirst, hops⟩ :=
    subscribe_opens E geo hbearer hapi hp hm hrow hroles hfollower
  have hpossible : w.Possible (.ask (faultless Time.zero) (subscribeRequest (row.id, row.secret))) := by
    rintro cr hcr
    cases hcr
    exact hknown
  have hstart : (system stack E geo c a).Reach Possible w w := ⟨[], trivial, rfl⟩
  obtain ⟨w', hreach, hlearned⟩ := listen_all stack E geo c a ops (hstart.next hpossible hstep) hlistening
  have hdb : w'.server.node.store.db = w.server.node.store.db := hlearned.db.trans hfirst.db
  refine ⟨w', hreach, hdb, fun r hr hnew => ?_⟩
  have hr' : (r.id, r.secret) ∈ w'.known := hlearned.secrets ((secrets_logged hp hops hr).resolve_left hnew)
  refine ⟨hr', fun roles' hroles' hadmin => opens_admin hbearer hapi ?_ hroles' hadmin hr'⟩
  rw [Server.tables, hdb]
  exact hr

def secondToken : Token := ⟨"x", "y", some ["admin"]⟩

/-- The administrator creates a follower's token and another administrator's. -/
def tokenRequests : List Event := (createToken followerToken ++ createToken secondToken).map .other

theorem run_other (E : Engine (Database Tables) Row) (geo : Sessions.IPRefiner) : ∀ (es : List Api.Event) (w : World),
    (system stack E geo c a).run w (es.map .other) = ((Server.system stack E geo c a).run w.server es).map fun s =>
      { w with server := s }
  | [], w => rfl
  | e :: es, w => by
    have hstep : (system stack E geo c a).step w (.other e) =
      ((Server.system stack E geo c a).step w.server e).map fun s => { w with server := s } := rfl
    rw [List.map_cons, System.run_cons, System.run_cons, hstep]
    cases (Server.system stack E geo c a).step w.server e with
    | none => rfl
    | some s => exact run_other E geo es { w with server := s }

theorem rootServer_creates_both (E : Engine (Database Tables) Row) (geo : Sessions.IPRefiner)
    (known : Set (String × String)) :
    ∃ s, (system 129 E geo bearerCommand bearerAPI).run ⟨rootServer, known, ∅⟩ tokenRequests = some ⟨s, known, ∅⟩ ∧
      s.node.crashed = false ∧ s.node.emission.isNone = true ∧
      s.tables.tokens.rows = [rootToken.row, followerToken.row, secondToken.row] := by
  have hnodes : ((Node.system (crud 129) encoding).run rootServer.node (applyToken followerToken ++
    applyToken secondToken)).map
      (fun n => (n.crashed, n.emission.isNone, n.store.db.tables.tokens.rows)) =
        some (false, true, [rootToken.row, followerToken.row, secondToken.row]) := by
    decide +kernel
  obtain ⟨n₂, hn₂, heq⟩ := Option.map_eq_some_iff.1 hnodes
  rw [Prod.mk.injEq, Prod.mk.injEq] at heq
  obtain ⟨halive, hm, hrows⟩ := heq
  obtain ⟨n₁, h₁, halive₁, -, hrows₁, -⟩ := rootServer_applies
  rw [System.run_append _ _ h₁] at hn₂
  have hroot : n₁.store.db.tables.tokens.find? "root" = some rootToken.row :=
    Table.find?_eq_some.2 ⟨by simp [hrows₁], rfl⟩
  have hfirst := run_createToken E geo (s := rootServer) rfl rfl h₁
  have hsecond := run_createToken E geo (s := { rootServer with node := n₁ }) halive₁ hroot hn₂
  refine ⟨{ rootServer with node := n₂ }, ?_, halive, hm, hrows⟩
  rw [tokenRequests, run_other, System.run_append _ _ hfirst, hsecond]
  rfl

theorem committed_createToken (stack : Nat) (E : Engine (Database Tables) Row) (geo : Sessions.IPRefiner)
    (tok : Token) (es : List Event) (h : ∀ w, (system stack E geo c a).Along (Committed c a) w es) (w : World) :
    (system stack E geo c a).Along (Committed c a) w ((createToken tok).map .other ++ es) :=
  ⟨⟨rfl, (Server.plain_createToken stack E geo tok w.server).1⟩, fun _ _ => ⟨rfl, fun w' _ => h w'⟩⟩

theorem follower_reads_secrets_root :
    ∃ w w', (system 129 miniEngine ⟨[]⟩ bearerCommand bearerAPI).run
        ⟨rootServer, {("f", "s")}, ∅⟩ tokenRequests = some w ∧
      w.known = {("f", "s")} ∧ (system 129 miniEngine ⟨[]⟩ bearerCommand bearerAPI).Reach Possible w w' ∧
      ("x", "y") ∈ w'.known ∧ Opens bearerCommand bearerAPI w' ("x", "y") := by
  obtain ⟨s, hrun, halive, hm, hrows⟩ := rootServer_creates_both miniEngine ⟨[]⟩ {("f", "s")}
  have hcommitted : (system 129 miniEngine ⟨[]⟩ bearerCommand bearerAPI).Along (Committed bearerCommand bearerAPI)
      ⟨rootServer, {("f", "s")}, ∅⟩ tokenRequests := by
    rw [tokenRequests, List.map_append]
    refine committed_createToken 129 _ _ _ _ (fun w => ?_) _
    have hsecond := committed_createToken 129 (c := bearerCommand) (a := bearerAPI) miniEngine ⟨[]⟩ secondToken []
      (fun _ => trivial) w
    rwa [List.append_nil] at hsecond
  have hrow : s.tables.tokens.find? followerToken.row.id = some followerToken.row :=
    Table.find?_eq_some.2 ⟨by simp [hrows], rfl⟩
  obtain ⟨w', hreach, -, hsecrets⟩ :=
    follower_reads_secrets miniEngine_conforms rfl bearerCommand_api ⟨_, hcommitted, hrun⟩ halive
    (Option.isNone_iff_eq_none.1 hm) hrow rfl (by rw [splitOn_role (by decide)]; decide) rfl
  obtain ⟨hx, hopens⟩ := hsecrets secondToken.row (by simp [hrows]) (by decide)
  exact ⟨_, w', hrun, rfl, hreach, hx, hopens _ rfl (by rw [splitOn_role (by decide)]; decide)⟩

end Follower

end World

end Wig.Api
