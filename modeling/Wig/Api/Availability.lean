/-
What a request can wait for, and what can end the process. With fields for the keys of a find the handlers
return, but for three things: a call waits while an `Apply` is in progress, a write waits while a subscriber's
channel is full, and a registration can overflow the stack where a peer has host bits in its network.
-/
import Wig.Api.Runs
import Wig.Crudlog.Source

namespace Wig.Crudlog.Pubsub

open Wig.Lib

variable {V : Type}

/-- A send to one of the channels waits only if the channel is full. -/
theorem full_of_forEach_send (op : Op V) :
    ∀ (ids : List Nat) {p p' : Pubsub V}, Proc.forEach (send op) ids p = (.block, p') →
    ids.Nodup → (∀ c ∈ ids, (p.chan c).closed = false) → ∃ c ∈ ids, chanBufSize ≤ (p.chan c).buf.length
  | [], _, _, h, _, _ => by cases h
  | ch :: ids, p, p', h, hn, ho => by
    obtain ⟨hch, hn⟩ := List.nodup_cons.1 hn
    have hopen := ho ch List.mem_cons_self
    rw [Proc.forEach_cons] at h
    by_cases hfull : chanBufSize ≤ (p.chan ch).buf.length
    · exact ⟨ch, List.mem_cons_self, hfull⟩
    · have hsend : send op ch p = (.ok (), p.sending op [ch]) := by
        rcases send_cases op ch p hopen with hblock | hok
        · rw [send, hopen, if_neg Bool.false_ne_true, if_neg hfull] at hblock
          cases hblock
        · exact hok
      rw [Proc.bind_of_ok hsend] at h
      obtain ⟨c, hc, hle⟩ := full_of_forEach_send op ids h hn fun c hc => ho c (List.mem_cons_of_mem _ hc)
      -- the send has left the other channels alone
      have hne : c ≠ ch := fun heq => hch (heq ▸ hc)
      have hsame : ((p.sending op [ch]).chan c).buf = (p.chan c).buf := by simp [sending, hne]
      exact ⟨c, List.mem_cons_of_mem _ hc, hsame ▸ hle⟩

theorem full_of_emit {p p' : Pubsub V} (hp : p.Live) (hq : p.Pending) {op : Op V} (h : emit op p = (.block, p')) :
    ∃ c ∈ p.subscribers, chanBufSize ≤ (p.chan c).buf.length := by
  rw [emit_of_cleared (closeRemoved_ok hq)] at h
  have hfull := full_of_forEach_send op p.subscribers h hp.nodup hp.cleared_opened
  exact hfull

end Wig.Crudlog.Pubsub

namespace Wig.Api

open Wig.Lib Wig.Crud Wig.Model Wig.Crudlog Wig.Store Wig.Httpapi Wig.Httptransport

/-! ## Handlers answer -/

theorem serveJSON_ne_err {σ ρ : Type} {decode : Json → Except Error ρ} {f : ρ → Proc σ Error (Option Json)}
    {body : Except Error Json} {s : σ} (e : Error) : (serveJSON decode f body s).1 ≠ .err e := by
  unfold serveJSON
  split
  · exact fun h => by cases h
  · split <;> exact fun h => by cases h

theorem bind_ne_err {α : Type} {x : Proc Server Error α} {s : Server} (h : ∀ e, (x s).1 ≠ .err e)
    (f : α → Output) (e : Error) : ((do return f (← x) : Proc Server Error Output) s).1 ≠ .err e := by
  rcases hx : x s with ⟨(r | e' | _ | _), s'⟩
  · rw [Proc.bind_of_ok hx]; exact fun h => by cases h
  · exact absurd (by rw [hx]) (h e')
  · rw [Proc.bind_of_crash hx]; exact fun h => by cases h
  · rw [Proc.bind_of_block hx]; exact fun h => by cases h

variable {stack : Nat} {E : Engine (Database Tables) Row} {geo : Sessions.IPRefiner}
  {c : ApiCommand} {a : API} {env : Env} {req : Request} {s s' : Server}

theorem handle_ne_err (x : Endpoint) (e : Error) : (handle stack E geo c env req x s).1 ≠ .err e := by
  rcases x with ⟨n, verb⟩ | n | _ | _ | _ | _ | _
  · refine bind_ne_err (fun e => ?_) _ e
    rw [Proc.zoom_apply, newTypeHTTPHandler_eq]
    exact serveJSON_ne_err e
  · exact fun h => by cases h
  · show (handleSnapshot stack s).1 ≠ _
    unfold handleSnapshot
    split <;> exact fun h => by cases h
  · show (handleSubscribeOn env req s).1 ≠ _
    unfold handleSubscribeOn
    split
    · exact fun h => by cases h
    · split <;> exact fun h => by cases h
  · show (handleGetSessions env req s).1 ≠ _
    unfold handleGetSessions
    split <;> exact fun h => by cases h
  · refine bind_ne_err (fun e => ?_) _ e
    rw [Proc.zoom_apply]
    exact serveJSON_ne_err e
  · exact bind_ne_err (fun e => serveJSON_ne_err e) _ e

theorem serve_ne_err (e : Error) : (serve stack E geo c env req a s).1 ≠ .err e := by
  rcases serve_cases stack E geo c env req a s with ⟨x, -, hserve⟩ | ⟨-, out, -, hserve⟩
  · rw [hserve]
    exact handle_ne_err x e
  · rw [hserve]
    exact fun h => by cases h

/-- A request that leaves the process running was answered. -/
theorem answered_of_settle (h : Server.settle (serve stack E geo c env req a s) = some s')
    (halive : s'.node.crashed = false) : ∃ out, serve stack E geo c env req a s = (.ok out, s') := by
  rcases hserve : serve stack E geo c env req a s with ⟨(out | e | _ | _), s₁⟩ <;> rw [hserve] at h
  · cases h
    exact ⟨out, rfl⟩
  · have hanswer : (serve stack E geo c env req a s).1 ≠ .err e := serve_ne_err e
    rw [hserve] at hanswer
    exact absurd rfl hanswer
  · cases h
    cases halive
  · cases h

namespace Server

/-! ## The channels of a running server -/

/-- The events on a running primary that are no requests: nothing loads a snapshot there, and a subscription
ends once. -/
def Regular (n : Node Tables Value) : Crudlog.Event Value → Prop
  | .loadSnapshot _ _ => False
  | .close ch => ∀ b, n.subs ch = some b → b.closed = false
  | _ => True

theorem wired_step {n n' : Node Tables Value} (h : n.Wired) {x : Crudlog.Event Value} (hx : Regular n x)
    (hstep : Node.step (crud stack) encoding n x = some n') : n'.Wired := by
  obtain ⟨-, hstepped⟩ := Node.step_cases h.live h.unsent hstep
  refine h.step hstepped (h.not_crashed (model_replayable stack) ?_ hstepped) ?_
  · rintro snap commit rfl
    exact hx
  · rintro ch b rfl hb
    exact hx b hb

variable (stack) in
/-- A call of `Apply` waits only while a subscriber's channel is full, and does not end the process. -/
theorem apply_returns {n : Node Tables Value} (h : n.Wired) (op : Op Value) (commit : Bool) :
    (∃ n', n.returned (fun _ n => n) (Datastore.apply (crud stack) encoding op false commit n.store) = some n' ∧
      n'.crashed = false) ∨
      ∃ ch ∈ n.store.pubsub.subscribers, chanBufSize ≤ (n.store.pubsub.chan ch).buf.length := by
  have hcase := Datastore.apply_cases (crud stack) encoding h.live op false commit
  have hrecord := Database.record_returned (model_replayable stack) (op.assign false n.store.db) n.store.db
  revert hcase
  generalize Datastore.apply (crud stack) encoding op false commit n.store = r
  intro hcase
  cases hcase with
  | rejected => exact .inl ⟨_, rfl, h.alive⟩
  | committed => exact .inl ⟨_, rfl, h.alive⟩
  | lost => exact .inl ⟨_, rfl, h.alive⟩
  | crashed p hs hw =>
    exfalso
    rcases hw with hw | hw
    · rw [hw] at hrecord
      exact hrecord
    · rcases Pubsub.emit_not_crash h.live h.pending (op.assign false n.store.db) with ⟨p',
        he⟩ | he <;> rw [he] at hw <;> cases hw
  | blocked s' hw =>
    rcases hw with hw | hw
    · rw [hw] at hrecord
      exact hrecord.elim
    · obtain ⟨p', hp'⟩ : ∃ p', Pubsub.emit (op.assign false n.store.db) n.store.pubsub = (.block, p') :=
        ⟨_, Prod.ext hw rfl⟩
      exact .inr (Pubsub.full_of_emit h.live h.pending hp')

variable (stack) in
/-- A call of `Subscribe` returns. -/
theorem subscribe_returns {n : Node Tables Value} (h : n.Wired) (hm : n.emission = none) (start : Nat) (commit : Bool) :
    ∃ n', Node.step (crud stack) encoding n (.subscribe start commit) = some n' ∧ n'.crashed = false := by
  rw [Node.step_subscribe h.alive hm]
  have hcase := Datastore.subscribe_cases encoding start commit n.store
  revert hcase
  generalize Datastore.subscribe encoding start commit n.store = r
  intro hcase
  cases hcase <;> exact ⟨_, rfl, h.alive⟩

/-! ## Requests are answered -/

/-- The events of a running primary: a find has fields for keys, and a registration finds no host bits in the
networks of the peers. -/
def Proper (c : ApiCommand) (a : API) (s : Server) : Event → Prop
  | .request env req => Plain c a s (.request env req) ∧
      (admitted c env req a s = some .registerPeer → ∀ name, Registration.CanonicalPeers s.tables name)
  | .node x => Regular s.node x

theorem regular_of_asks {x : Endpoint} {y : Crudlog.Event Value} (h : asks c env req x = some y)
    (n : Node Tables Value) : Regular n y := by
  rcases asks_cases h with ⟨-, -, -, -, rfl, -⟩ | ⟨-, -, rfl, -⟩ <;> trivial

variable (geo) in
/-- A handler that asks nothing of the log returns, and the process goes on. -/
theorem silent_returns (hE : Conforms E) (hstack : 128 < stack) (halive : s.node.crashed = false) {x : Endpoint}
    (hasks : asks c env req x = none) (hadmitted : admitted c env req a s = some x)
    (hproper : Proper c a s (.request env req)) :
    ∃ s', settle (handle stack E geo c env req x s) = some s' ∧ s'.node = s.node := by
  obtain ⟨hplain, hcan⟩ := hproper
  by_cases hregister : x = .registerPeer
  · subst hregister
    exact ⟨s, settle_register_canonical hstack (hcan hadmitted), rfl⟩
  · obtain ⟨s', hs', hsilent⟩ := settle_silent (s := s) hasks
      (fun n hn => hplain.reads hE env req n rfl (hn ▸ hadmitted)) hregister
    exact ⟨s', hs', hsilent.node_eq halive ((hsilent.crashed hregister).trans halive)⟩

theorem wired_of_step (hE : Conforms E) (hstack : 128 < stack) (hs : s.node.Wired) {e : Event} (he : Proper c a s e)
    (h : step stack E geo c a s e = some s') : s'.node.Wired := by
  cases e with
  | node x =>
    obtain ⟨n, hn, rfl⟩ := Option.map_eq_some_iff.1 h
    exact wired_step hs he hn
  | request env req =>
    rw [step_request hs.alive] at h
    cases hadmitted : admitted c env req a s with
    | none =>
      rw [hadmitted] at h
      cases h
      exact hs
    | some x =>
      cases hasks : asks c env req x with
      | some y =>
        simp only [hadmitted, hasks] at h
        obtain ⟨n, hn, rfl⟩ := Option.map_eq_some_iff.1 h
        exact wired_step hs (regular_of_asks hasks _) hn
      | none =>
        simp only [hadmitted, hasks] at h
        obtain ⟨s₁, hs₁, hnode⟩ := silent_returns geo hE hstack hs.alive hasks hadmitted he
        cases h.symm.trans hs₁
        rw [hnode]
        exact hs

/-- On a server that was started on any database, whatever has been asked of it since, as long as finds have
fields for keys and no peer has host bits in its network: unless an `Apply` is in progress, a request is
answered and the process goes on, or it is a write and a subscriber's channel is full. -/
theorem request_answered (hE : Conforms E) (hstack : 128 < stack) (d : Database Tables) (m : Sessions.SessionManager)
    (h : (system stack E geo c a).Reach (Proper c a) ⟨Node.start (Datastore.wrap d), m⟩ s) (hm : s.node.emission = none)
    (env : Env) (req : Request) (hreq : Proper c a s (.request env req)) :
    (∃ out s', serve stack E geo c env req a s = (.ok out, s') ∧ s'.node.crashed = false) ∨
      (∃ n verb, admitted c env req a s = some (.write n verb)) ∧
        ∃ ch ∈ s.node.store.pubsub.subscribers, chanBufSize ≤ (s.node.store.pubsub.chan ch).buf.length := by
  have hwired : s.node.Wired :=
    h.invariant (I := fun s => s.node.Wired) (Node.Wired.start d) fun _ _ _ hs he hstep =>
      wired_of_step hE hstack hs he hstep
  have hanswered : ∀ s', settle (serve stack E geo c env req a s) = some s' → s'.node.crashed = false →
      ∃ out s', serve stack E geo c env req a s = (.ok out, s') ∧ s'.node.crashed = false := fun s' hs' halive => by
    obtain ⟨out, hout⟩ := answered_of_settle hs' halive
    exact ⟨out, s', hout, halive⟩
  have hsettle : settle (serve stack E geo c env req a s) = _ := settle_serve
  cases hadmitted : admitted c env req a s with
  | none =>
    rw [hadmitted] at hsettle
    exact .inl (hanswered s hsettle hwired.alive)
  | some x =>
    rw [hadmitted] at hsettle
    have hsettle : settle (serve stack E geo c env req a s) = settle (handle stack E geo c env req x s) := hsettle
    cases hasks : asks c env req x with
    | none =>
      obtain ⟨s', hs', hnode⟩ := silent_returns geo hE hstack hwired.alive hasks hadmitted hreq
      exact .inl (hanswered s' (hsettle.trans hs') (hnode ▸ hwired.alive))
    | some y =>
      rcases asks_cases hasks with ⟨n, verb, obj, rfl, -, hprimary, hbody⟩ | ⟨start, rfl, -, hstart⟩
      · rw [settle_apply hprimary hbody] at hsettle
        rcases apply_returns stack hwired (newOp (asks.opType verb) env.now obj) env.commits
          with ⟨n', hn', halive⟩ | hfull
        · rw [hn'] at hsettle
          exact .inl (hanswered _ hsettle halive)
        · exact .inr ⟨⟨n, verb, rfl⟩, hfull⟩
      · rw [settle_subscribe hwired.alive hm hstart] at hsettle
        obtain ⟨n', hn', halive⟩ := subscribe_returns stack hwired hm start env.commits
        rw [hn'] at hsettle
        exact .inl (hanswered _ hsettle halive)


/-- A primary without authentication. -/
def openCommand : ApiCommand := ⟨"", "none", ""⟩

/-- A server with an interface and a peer. -/
def onePeerServer : Server := ⟨Node.start (Datastore.wrap Registration.onePeer.store.db), ⟨[], .empty⟩⟩

def streamRequest : Request := ⟨apiURLSubscribe, none, none, [], fun k => if k = "start" then "1" else "", .error .json⟩

def registerRequest : Request := ⟨apiURLRegisterPeer, none, none, [], fun _ => "",
  .ok (.obj [("interface", .str "wg0"), ("public_key", .str "a"), ("ttl", .num 60)])⟩

theorem canonicalPeers_onePeerServer {t : Tables} (h : t.peers.rows = Registration.onePeer.store.db.tables.peers.rows)
    (name : String) : Registration.CanonicalPeers t name := by
  intro r hr hname
  have hr' : r ∈ Registration.onePeer.store.db.tables.peers.rows := h ▸ hr
  refine Registration.canonicalPeers_onePeer r hr' ?_
  rw [Registration.onePeer_rows, List.mem_singleton] at hr'
  rw [hr']

/-- A stream is opened, and a second peer is registered. -/
theorem request_answered_register : ∃ s out s', (system 129 miniEngine ⟨[]⟩ openCommand openAPI).run onePeerServer
      [.request (faultless Time.zero) streamRequest] = some s ∧ s.node.store.pubsub.subscribers = [0] ∧
        s.tables.peers.rows.length = 1 ∧
    serve 129 miniEngine ⟨[]⟩ openCommand (faultless Time.zero) registerRequest openAPI s = (.ok out, s') ∧
      s'.node.crashed = false := by
  have hrun : ((system 129 miniEngine ⟨[]⟩ openCommand openAPI).run onePeerServer
    [.request (faultless Time.zero) streamRequest]).map
      (fun s => (s.node.emission.isNone, s.node.store.pubsub.subscribers, s.tables.peers.rows)) =
        some (true, [0], Registration.onePeer.store.db.tables.peers.rows) := by decide +kernel
  obtain ⟨s, hs, heq⟩ := Option.map_eq_some_iff.1 hrun
  rw [Prod.mk.injEq, Prod.mk.injEq] at heq
  obtain ⟨hm, hsubs, hpeers⟩ := heq
  have hroutes : ∀ (req : Request) (x : Endpoint) (s : Server), (routes true).lookup req.path = some x →
      ∀ y, admitted openCommand (faultless Time.zero) req openAPI s = some y → y = x := fun req x s hx y hy =>
    Option.some.inj ((admitted_eq_some.1 hy).1.symm.trans hx)
  have hproper : Proper openCommand openAPI s (.request (faultless Time.zero) registerRequest) :=
    ⟨fun n hn => (by cases (hroutes _ .registerPeer s (by decide) _ hn)), fun _ => canonicalPeers_onePeerServer hpeers⟩
  have hreach : (system 129 miniEngine ⟨[]⟩ openCommand openAPI).Reach (Proper openCommand openAPI)
      onePeerServer s := by
    refine ⟨[.request (faultless Time.zero) streamRequest], ⟨⟨fun n hn => ?_, fun hn => ?_⟩, fun _ _ => trivial⟩, hs⟩
    · cases hroutes streamRequest .subscribe _ (by decide) _ hn
    · cases hroutes streamRequest .subscribe _ (by decide) _ hn
  rcases request_answered miniEngine_conforms (by decide) _ _ hreach (Option.isNone_iff_eq_none.1 hm)
    (faultless Time.zero) registerRequest hproper with ⟨out, s', hserve, halive⟩ | ⟨⟨n, verb, hwrite⟩, -⟩
  · exact ⟨s, out, s', hs, hsubs, by rw [hpeers, Registration.onePeer_rows]; rfl, hserve, halive⟩
  · cases hroutes _ .registerPeer s (by decide) _ hwrite

end Server

end Wig.Api
