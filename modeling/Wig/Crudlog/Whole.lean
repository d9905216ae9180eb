/-
An `Apply` that no other event comes between. Its events in a row, the writes, a send for each subscriber
and the commit, leave the node as the call itself does; where the call waits for a full channel, so does
one of the sends.
-/
import Wig.Crudlog.Stream

namespace Wig.Crudlog.Node

open Wig.Lib Wig.Crud

variable {T V : Type} {crud : CRUD T V} {enc : Encoding V} {n : Node T V}

/-- The events of a whole `Apply`; one whose writes fail ends with them. -/
def applyEvents (crud : CRUD T V) (enc : Encoding V) (n : Node T V) (op : Op V)
    (fromLog commit : Bool) : List (Event V) :=
  .apply op fromLog :: match Datastore.applyWrites crud enc op fromLog n.store with
    | (.ok _, s) => List.replicate s.pubsub.subscribers.length .send ++ [.commit commit]
    | _ => []

theorem step_apply (halive : n.crashed = false) (hm : n.emission = none) (op : Op V) (fromLog : Bool) :
    step crud enc n (.apply op fromLog) = n.apply crud enc op fromLog := by
  unfold step
  rw [halive, if_neg Bool.false_ne_true, hm]

theorem step_send (halive : n.crashed = false) {m : Emission T V} (hm : n.emission = some m) :
    step crud enc n .send = n.send m := by
  unfold step
  rw [halive, if_neg Bool.false_ne_true, hm]

theorem step_commit (halive : n.crashed = false) {m : Emission T V} (hm : n.emission = some m) (ok : Bool) :
    step crud enc n (.commit ok) = n.commit m ok := by
  unfold step
  rw [halive, if_neg Bool.false_ne_true, hm]

/-- What the sends of `Emit` and the commit make of a node whose `Apply` is in progress. -/
def finish (n : Node T V) (d : Database T) (commit : Bool) : Outcome Error Unit × Pubsub V → Option (Node T V)
  | (.ok _, p) => some { n with store := ⟨if commit then d else n.store.db, p⟩, emission := none }
  | (.err _, _) => none
  | (.crash, _) => none
  | (.block, _) => none

/-- The rest of `Emit` as events, with the commit after it. -/
theorem run_sends (commit : Bool) {op : Op V} {d : Database T} :
    ∀ (unsent : List Nat) {reached : List Nat} {n : Node T V},
    n.crashed = false → n.emission = some ⟨op, d, reached, unsent⟩ → unsent.Nodup →
    (∀ c ∈ unsent, (n.store.pubsub.chan c).closed = false) →
      (system crud enc).run n (List.replicate unsent.length .send ++ [.commit commit]) =
        n.finish d commit (Proc.forEach (Pubsub.send op) unsent n.store.pubsub)
  | [], reached, n, halive, hm, _, _ => by
    have hcommit : step crud enc n (.commit commit) = some _ := step_commit halive hm commit
    exact System.run_of_step hcommit []
  | ch :: unsent, reached, n, halive, hm, hnodup, hopen => by
    obtain ⟨hch, hnodup⟩ := List.nodup_cons.1 hnodup
    have hsend : step crud enc n .send = _ := step_send halive hm
    rw [Proc.forEach_cons]
    rcases Pubsub.send_cases op ch n.store.pubsub (hopen ch List.mem_cons_self) with hblock | hok
    · -- the channel is full: the call waits, and so does the send
      rw [Proc.bind_of_block hblock]
      have hnone : step crud enc n .send = none := by
        rw [hsend, send]
        simp only [hblock]
      rw [List.length_cons, List.replicate_succ, List.cons_append, System.run_cons]
      exact congrArg (Option.bind · _) hnone
    · rw [Proc.bind_of_ok hok]
      have hsome : step crud enc n .send = some { n.setPubsub (n.store.pubsub.sending op [ch]) with
          emission := some ⟨op, d, reached ++ [ch], unsent⟩ } := by
        rw [hsend, send]
        simp only [hok]
      rw [List.length_cons, List.replicate_succ, List.cons_append, System.run_of_step hsome]
      refine (run_sends commit unsent ?_ rfl hnodup fun c hc => ?_).trans rfl
      · exact halive
      · exact hopen c (List.mem_cons_of_mem _ hc)

variable (crud enc) in
/-- What is left of the transaction after the first part of `Emit` are the sends. -/
theorem applyTx_eq_sends (op : Op V) (fromLog : Bool) (s : Datastore T V) :
    Datastore.applyTx crud enc op fromLog s = (do
      Datastore.applyWrites crud enc op fromLog
      let s' ← Proc.get
      Datastore.onPubsub (Proc.forEach (Pubsub.send (op.assign fromLog s.db)) s'.pubsub.subscribers) :
        Proc (Datastore T V) Error Unit) s := by
  have hwrites : Datastore.applyWrites crud enc op fromLog s =
      (do
        Datastore.onDB (Database.record crud enc (op.assign fromLog s.db))
        Datastore.onPubsub Pubsub.closeRemoved : Proc (Datastore T V) Error Unit) s := rfl
  rw [Datastore.applyTx_eq]
  rcases hdb : Datastore.onDB (Database.record crud enc (op.assign fromLog s.db)) s with ⟨(_ | e | _ | _), s₁⟩
  · rw [Proc.bind_of_ok hdb] at hwrites ⊢
    rcases hclose : Pubsub.closeRemoved s₁.pubsub with ⟨(_ | e | _ | _), p⟩ <;>
      rw [Datastore.onPubsub_apply, hclose] at hwrites <;> rw [Datastore.onPubsub_apply, Pubsub.emit]
    · rw [Proc.bind_of_ok hwrites, Proc.bind_of_ok hclose]
      rfl
    · rw [Proc.bind_of_err hwrites, Proc.bind_of_err hclose]
    · rw [Proc.bind_of_crash hwrites, Proc.bind_of_crash hclose]
    · rw [Proc.bind_of_block hwrites, Proc.bind_of_block hclose]
  · rw [Proc.bind_of_err hdb] at hwrites ⊢
    rw [Proc.bind_of_err hwrites]
  · rw [Proc.bind_of_crash hdb] at hwrites ⊢
    rw [Proc.bind_of_crash hwrites]
  · rw [Proc.bind_of_block hdb] at hwrites ⊢
    rw [Proc.bind_of_block hwrites]

variable (crud enc) in
/-- The call and its events in a row. -/
theorem run_applyEvents (halive : n.crashed = false) (hm : n.emission = none) (hp : n.store.pubsub.Live)
    (op : Op V) (fromLog commit : Bool) : (system crud enc).run n (n.applyEvents crud enc op fromLog commit) =
      n.returned (fun _ n => n) (Datastore.apply crud enc op fromLog commit n.store) := by
  have happly : step crud enc n (.apply op fromLog) = _ := step_apply halive hm op fromLog
  have htx := applyTx_eq_sends crud enc op fromLog n.store
  have hcase := Datastore.applyWrites_cases crud enc op fromLog n.store
  unfold Node.apply at happly
  unfold applyEvents Datastore.apply
  rcases hwrites : Datastore.applyWrites crud enc op fromLog n.store with ⟨(_ | e | _ | _), s⟩ <;>
    rw [hwrites] at happly hcase
  · cases hcase with
    | written row d h =>
      have hsends : ∀ {r}, Proc.forEach (Pubsub.send (op.assign fromLog n.store.db)) n.store.pubsub.subscribers
          n.store.pubsub.cleared = r → Datastore.applyTx crud enc op fromLog n.store = (r.1, ⟨d, r.2⟩) := by
        rintro _ rfl
        rw [htx, Proc.bind_of_ok hwrites]
        rfl
      rw [System.run_of_step happly]
      refine (run_sends (n := { n with
        store := ⟨n.store.db, n.store.pubsub.cleared⟩
        emission := some ⟨op.assign fromLog n.store.db, d, [], n.store.pubsub.subscribers⟩ })
          commit _ halive rfl hp.nodup hp.cleared_opened).trans ?_
      rcases Pubsub.forEach_send (op.assign fromLog n.store.db) _ _ hp.nodup hp.cleared_opened with ⟨p', hblock⟩ | hok
      · rw [hblock, Datastore.withTransaction_block (hsends hblock)]
        rfl
      · rw [hok, Datastore.withTransaction_ok (hsends hok)]
        cases commit <;> simp [finish, returned, hm]
  -- without the writes there is nothing to send
  · rw [Proc.bind_of_err hwrites] at htx
    rw [System.run_of_step happly, Datastore.withTransaction_err htx]
    rfl
  · rw [Proc.bind_of_crash hwrites] at htx
    rw [System.run_of_step happly, Datastore.withTransaction_crash htx]
    rfl
  · rw [Proc.bind_of_block hwrites] at htx
    rw [System.run_cons, Datastore.withTransaction_block htx]
    exact congrArg (Option.bind · _) happly

end Wig.Crudlog.Node
