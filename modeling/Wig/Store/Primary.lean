/-
The primary datastore of the program: the generic log over the registered model and a freshly
migrated database.
-/
import Wig.Crudlog.Stream
import Wig.Model.Registered

namespace Wig.Store

open Wig.Lib Wig.Crudlog Wig.Model

/-- The CRUD and the encoding of the model replay each other's values. -/
theorem model_replayable (stack : Nat) : Replayable (crud stack) encoding where
  reread v b h := by
    refine ⟨v.reread, unmarshalValue_marshalValue h, by rw [Value.marshalValue_reread]; exact h, ?_, ?_, ?_⟩
    · rw [crud_create, crud_create, namedExec_of_row_eq v.row_reread]
    · rw [crud_update, crud_update, namedExec_of_row_eq v.row_reread]
    · rw [crud_delete, crud_delete, namedExec_of_row_eq v.row_reread]
  returned v t := by
    refine ⟨?_, ?_, ?_⟩
    · rw [crud_create]; exact namedExec_returned _ v t
    · rw [crud_update]; exact namedExec_returned _ v t
    · rw [crud_delete]; exact namedExec_returned _ v t

/-- A freshly migrated database, wrapped. -/
def fresh : Datastore Tables Value := Datastore.wrap (Database.fresh Tables.empty)

/-- After any requests on a fresh datastore, every one of which returned: the log is numbered
`1, …, N` for the value `N` of the sequence table, which is the number of requests that succeeded;
its rows, decoded and applied to empty tables, give the current ones; and a further request that
fails leaves the database as it is. -/
theorem log_integrity (stack : Nat) (reqs : List (Request Value)) :
    let r := Datastore.requests (crud stack) encoding reqs fresh
    (∀ x ∈ r.1, x.Returned) ∧
      r.2.db.log.rows.map OpSerialized.seq = List.range' 1 r.2.db.sequence ∧
      r.2.db.sequence = r.1.count (.ok ()) ∧
      replay (crud stack) encoding r.2.db.log.rows Tables.empty = (.ok (), r.2.db.tables) ∧
      ∀ (req : Request Value) (e : Error), (Datastore.request (crud stack) encoding req r.2).1 = .err e →
        (Datastore.request (crud stack) encoding req r.2).2.db = r.2.db := by
  intro r
  have hR := model_replayable stack
  obtain ⟨hq, hi, hseq, hret⟩ := Datastore.requests_spec hR reqs (s := fresh) Pubsub.Quiet.new
    (Database.Integral.fresh (crud stack) encoding Tables.empty)
  refine ⟨hret, hi.numbered, hseq.trans (Nat.zero_add _), hi.replays, ?_⟩
  intro req e he
  obtain ⟨-, -, ⟨e', -, hdb⟩ | ⟨hok, -⟩⟩ := Datastore.request_cases hR req hq hi
  · exact hdb
  · rw [he] at hok; cases hok

/-! ## Subscriptions -/

/-- In every state of a primary with any number of subscribers: `Subscribe` reports the horizon
exactly when asked to start past the next number; what a subscriber has read is a first part of the
committed rows from its starting number on, with the row of the `Apply` in progress after them, if there
is one, and has consecutive numbers; and no channel is closed twice or sent to after closing. -/
theorem subscription_stream (stack : Nat) {n : Node Tables Value}
    (h : (Node.system (crud stack) encoding).Reach Node.PrimaryEvent (Node.start fresh) n) :
    (∀ start commit, (Datastore.subscribe encoding start commit n.store).1 = .err .horizon ↔
        n.store.db.sequence + 1 < start) ∧
      (∀ ch b, n.subs ch = some b →
        (∃ rows, Encodes encoding b.read rows ∧ rows <+: n.store.db.rowsSince b.start ++ n.inProgress encoding) ∧
          (n.emission = none → ∃ rows, Encodes encoding b.read rows ∧ rows <+: n.store.db.rowsSince b.start) ∧
          b.read.map Op.seq = List.range' (max b.start 1) b.read.length) ∧
      n.crashed = false ∧ ∀ op, (Pubsub.emit op n.store.pubsub).1 ≠ .crash := by
  have hR := model_replayable stack
  have hp := Node.Primary.reach hR h
  refine ⟨hp.horizon_iff hR, fun ch b hb => ?_, hp.alive, fun op hc => ?_⟩
  · have hread := hp.read_prefix hb
    rw [hp.ahead_since (hp.streaming ch b hb).start_le, ← hp.integral.rowsSince_eq] at hread
    refine ⟨hread, fun hm => ?_, hp.read_seqs hR hb⟩
    rwa [Node.inProgress_of_none hm, List.append_nil] at hread
  · rcases Pubsub.emit_not_crash hp.live hp.pending op with ⟨p', he⟩ | he <;> rw [he] at hc <;> cases hc

/-- A token is created, read by a subscriber from the preload, and deleted. -/
def tokenRun : List (Event Value) :=
  [.apply (newOp .create Time.zero (.token ⟨"id", "secret", none⟩)) false, .commit true,
    .subscribe 1 true, .forward 0, .read 0, .apply (newOp .delete Time.zero (.token ⟨"id", "", none⟩)) false,
    .send, .commit true]

theorem subscription_stream_tokenRun : ∃ n b, (Node.system (crud 8) encoding).run (Node.start fresh) tokenRun = some n ∧
    n.subs 0 = some b ∧ b.read.length = 1 ∧ n.store.db.log.rows.length = 2 ∧
    (∃ rows, Encodes encoding b.read rows ∧ rows <+: n.store.db.rowsSince b.start) ∧
    b.read.map Op.seq = List.range' (max b.start 1) b.read.length := by
  refine ⟨_, _, rfl, rfl, rfl, rfl, ?_⟩
  have halong : (Node.system (crud 8) encoding).Along Node.PrimaryEvent (Node.start fresh) tokenRun :=
    ⟨rfl, fun _ _ => ⟨rfl, fun _ _ => ⟨rfl, fun _ _ => ⟨trivial, fun _ _ => ⟨trivial, fun _ _ =>
      ⟨rfl, fun _ _ => ⟨trivial, fun _ _ => ⟨rfl, fun _ _ => trivial⟩⟩⟩⟩⟩⟩⟩⟩
  exact ((subscription_stream 8 ⟨tokenRun, halong, rfl⟩).2.1 0 _ rfl).2.imp_left (· rfl)

/-- A subscriber reads the token that is being created: `Emit` has sent it, and the transaction is not
committed yet. -/
def earlyRun : List (Event Value) :=
  [.subscribe 1 true, .apply (newOp .create Time.zero (.token ⟨"id", "secret", none⟩)) false, .send,
    .forward 0, .forward 0, .read 0]

theorem subscription_ahead_of_commit : ¬ ∀ n : Node Tables Value,
    (Node.system (crud 8) encoding).Reach Node.PrimaryEvent (Node.start fresh) n →
      ∀ ch b, n.subs ch = some b → ∃ rows, Encodes encoding b.read rows ∧ rows <+: n.store.db.rowsSince b.start := by
  intro h
  have halong : (Node.system (crud 8) encoding).Along Node.PrimaryEvent (Node.start fresh) earlyRun :=
    ⟨rfl, fun _ _ =>
      ⟨rfl, fun _ _ => ⟨trivial, fun _ _ => ⟨trivial, fun _ _ => ⟨trivial, fun _ _ => ⟨trivial, fun _ _ => trivial⟩⟩⟩⟩⟩⟩
  -- one operation has been read, and the log is empty
  obtain ⟨rows, henc, hpre⟩ := h _ ⟨earlyRun, halong, rfl⟩ 0 _ rfl
  obtain rfl : rows = [] := List.prefix_nil.1 hpre
  cases henc

end Wig.Store
