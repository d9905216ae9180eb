/-
Incremental replication of the program's datastore.
-/
import Wig.Crudlog.Agreement
import Wig.Store.Primary

namespace Wig.Store

open Wig.Lib Wig.Crudlog Wig.Model

/-- A primary and a follower, both over freshly migrated databases, with `Follow` between them over
either transport. In every reachable state where no snapshot was loaded and no commit has failed, and for
`k` the follower's sequence: the follower's tables and sequence are the primary's after its first `k`
operations, its log is the first `k` rows of the primary's, and the next operation delivered is applied.
The operations are those committed, of which the history has the databases, and the one of an `Apply` in
progress after them; without one, `k` is the number of a committed operation. -/
theorem replication_agreement (stack : Nat) (tr : Transport Value) {r : Replica Tables Value}
    (h : (Replica.system (crud stack) encoding tr).Reach Replica.Admitted (Replica.fresh Tables.empty) r)
    (hs : r.snapshotLoaded = false) (hc : r.commitFailed = false) :
    (r.history.length = r.primary.store.db.sequence + 1 ∧
        r.history[r.primary.store.db.sequence]? = some r.primary.store.db) ∧
      (∃ d, r.known[r.follower.db.sequence]? = some d ∧ r.follower.db.tables = d.tables ∧
        r.follower.db.sequence = d.sequence) ∧
      (r.primary.emission = none → ∃ d, r.history[r.follower.db.sequence]? = some d ∧ r.follower.db.tables = d.tables ∧
        r.follower.db.sequence = d.sequence ∧
        r.follower.db.log.rows = r.primary.store.db.log.rows.take r.follower.db.sequence) ∧
      r.follower.db.log.rows = (r.primary.store.db.log.rows ++ r.primary.inProgress encoding).take
        r.follower.db.sequence ∧
      ∀ ch op wire up, r.phase = .following ch (op :: wire) up →
        (Datastore.apply (crud stack) encoding op true true r.follower).1 = .ok () := by
  have hR := model_replayable stack
  have hA := Replica.Agrees.reach hR h ⟨hs, hc⟩
  have hlog : r.follower.db.log.rows = r.primary.ahead.log.rows.take r.follower.db.sequence :=
    (hA.history_known.prefixes _ _ hA.follower).2
  refine ⟨⟨hA.history.length, hA.history.last⟩, ⟨r.follower.db, hA.follower, rfl, rfl⟩, fun hm => ?_, ?_, ?_⟩
  · refine ⟨r.follower.db, ?_, rfl, rfl, ?_⟩
    · rw [← Node.known_of_none hm r.history]
      exact hA.follower
    · rwa [Node.ahead_of_none hm] at hlog
  · rwa [hA.primary.ahead_rows] at hlog
  · intro ch op wire up hph
    obtain ⟨y, -, -, happ⟩ := hA.deliverable hR hph
    rw [happ]

/-- A token is created, replicated over HTTP, and deleted while the connection is up. -/
def replicationRun : List (FollowEvent Value) :=
  [.primary (.apply (newOp .create Time.zero (.token ⟨"id", "secret", some ["admin"]⟩)) false),
    .primary (.commit true), .start, .subscribe true, .primary (.forward 0), .fetch, .deliver true,
    .primary (.apply (newOp .delete Time.zero (.token ⟨"id", "", none⟩)) false), .primary .send,
    .primary (.commit true), .primary (.forward 0), .primary (.forward 0), .fetch]

theorem replication_agreement_replicationRun : ∃ r op,
    (Replica.system (crud 8) encoding (.http fun _ => .other)).run (Replica.fresh Tables.empty)
      replicationRun = some r ∧
      r.follower.db.sequence = 1 ∧ r.primary.emission = none ∧
      (∃ d, r.history[r.follower.db.sequence]? = some d ∧ r.follower.db.tables = d.tables) ∧
      r.phase = .following 0 [op] true ∧ (Datastore.apply (crud 8) encoding op true true r.follower).1 = .ok () := by
  have halong : (Replica.system (crud 8) encoding (.http fun _ => .other)).Along Replica.Admitted
    (Replica.fresh Tables.empty)
      replicationRun :=
    ⟨rfl, fun _ _ => ⟨trivial, fun _ _ => ⟨trivial, fun _ _ => ⟨trivial, fun _ _ => ⟨trivial, fun _ _ => ⟨trivial,
      fun _ _ => ⟨trivial, fun _ _ => ⟨rfl, fun _ _ => ⟨trivial, fun _ _ => ⟨trivial, fun _ _ => ⟨trivial, fun _ _ =>
        ⟨trivial, fun _ _ => ⟨trivial, fun _ _ => trivial⟩⟩⟩⟩⟩⟩⟩⟩⟩⟩⟩⟩⟩
  have hrun : ((Replica.system (crud 8) encoding (.http fun _ => .other)).run (Replica.fresh Tables.empty)
      replicationRun).map (fun r =>
        (r.follower.db.sequence, r.snapshotLoaded, r.commitFailed, r.primary.emission.isNone, r.phase)) =
      some (1, false, false, true, .following 0 [⟨2, .delete, Time.zero, .token ⟨"id", "", none⟩⟩] true) := by
    decide +kernel
  obtain ⟨r, hr, hflags⟩ := Option.map_eq_some_iff.1 hrun
  rw [Prod.mk.injEq, Prod.mk.injEq, Prod.mk.injEq, Prod.mk.injEq] at hflags
  obtain ⟨hseq, hs, hc, hm, hph⟩ := hflags
  have hm := Option.isNone_iff_eq_none.1 hm
  obtain ⟨-, -, hcommitted, -, happ⟩ :=
    replication_agreement 8 (.http fun _ => .other) ⟨replicationRun, halong, hr⟩ hs hc
  obtain ⟨d, hd, ht, -, -⟩ := hcommitted hm
  exact ⟨r, _, hr, hseq, hm, ⟨d, hd, ht⟩, hph, happ 0 _ [] true hph⟩

/-- The follower has applied the token that is being created on the primary: `Emit` has sent it, and the
transaction is not committed yet. -/
def overtakingRun : List (FollowEvent Value) :=
  [.start, .subscribe true, .primary (.apply (newOp .create Time.zero (.token ⟨"id", "secret", some ["admin"]⟩)) false),
    .primary .send, .primary (.forward 0), .primary (.forward 0), .fetch, .deliver true]

theorem follower_ahead_of_commit : ¬ ∀ r : Replica Tables Value,
    (Replica.system (crud 8) encoding .inProcess).Reach Replica.Admitted (Replica.fresh Tables.empty) r →
      r.snapshotLoaded = false → r.commitFailed = false → ∃ d, r.history[r.follower.db.sequence]? = some d := by
  intro h
  have halong : (Replica.system (crud 8) encoding .inProcess).Along Replica.Admitted
      (Replica.fresh Tables.empty) overtakingRun :=
    ⟨trivial,
      fun _ _ => ⟨trivial, fun _ _ => ⟨rfl, fun _ _ => ⟨trivial, fun _ _ => ⟨trivial, fun _ _ => ⟨trivial, fun _ _ =>
      ⟨trivial, fun _ _ => ⟨trivial, fun _ _ => trivial⟩⟩⟩⟩⟩⟩⟩⟩
  -- the follower's sequence is 1, and the primary has committed nothing
  have hrun : ((Replica.system (crud 8) encoding .inProcess).run (Replica.fresh Tables.empty) overtakingRun).map
      (fun r => (r.follower.db.sequence, r.snapshotLoaded, r.commitFailed, r.history.length)) =
        some (1, false, false, 1) := by
    decide +kernel
  obtain ⟨r, hr, hflags⟩ := Option.map_eq_some_iff.1 hrun
  rw [Prod.mk.injEq, Prod.mk.injEq, Prod.mk.injEq] at hflags
  obtain ⟨hseq, hs, hc, hlen⟩ := hflags
  obtain ⟨d, hd⟩ := h r ⟨overtakingRun, halong, hr⟩ hs hc
  have hlt := (List.getElem?_eq_some_iff.1 hd).1
  rw [hseq, hlen] at hlt
  exact absurd hlt (Nat.lt_irrefl 1)

end Wig.Store
