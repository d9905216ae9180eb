/-
What the datastore tells its subscribers, and when it is true: the operations sent against the log,
and the preload of a subscription against the numbers it stands for.
-/
import Wig.Crudlog.Horizon
import Wig.Crudlog.Phantom
import Wig.Store.Primary

namespace Wig.Store

open Wig.Lib Wig.Crud Wig.Crudlog Wig.Model

/-! ## Operations sent before the commit -/

/-- A datastore over any database, in a run where no `Apply` fails to commit once it has sent its operation
to a channel: every operation sent is in the log, or is the one of the `Apply` in progress, and two with the
same number are the same. Without an `Apply` in progress, which may wait on a full channel or be about to
commit, every operation sent is in the log. -/
theorem sent_committed {T V : Type} (crud : CRUD T V) (enc : Encoding V) (d : Database T) {n : Node T V}
    (h : (Node.system crud enc).Reach Node.CommitsToSubscribers (Node.start (Datastore.wrap d)) n) :
    n.Accounted enc ∧ (n.emission = none → n.Backed enc) :=
  have hA := (Node.Honest.reach d h).accounted
  ⟨hA, hA.backed⟩

/-- A subscription, and two tokens; the commit of the first may fail. -/
def twoTokens (commit : Bool) : List (Event Value) :=
  [.subscribe 1 true, .apply (newOp .create Time.zero (.token ⟨"a", "", none⟩)) false, .send, .commit commit,
    .apply (newOp .create Time.zero (.token ⟨"b", "", none⟩)) false, .send, .commit true]

theorem sent_committed_twoTokens :
    ∃ n, (Node.system (crud 8) encoding).run (Node.start fresh) (twoTokens true) = some n ∧
    n.store.pubsub.sent.length = 2 ∧ n.Backed encoding := by
  refine ⟨_, rfl, rfl, ?_⟩
  have halong : (Node.system (crud 8) encoding).Along Node.CommitsToSubscribers (Node.start fresh) (twoTokens true) :=
    ⟨trivial, fun _ _ => ⟨trivial, fun _ _ => ⟨trivial, fun _ _ => ⟨.inl rfl, fun _ _ =>
      ⟨trivial, fun _ _ => ⟨trivial, fun _ _ => ⟨.inl rfl, fun _ _ => trivial⟩⟩⟩⟩⟩⟩⟩
  exact (sent_committed (crud 8) encoding _ ⟨twoTokens true, halong, rfl⟩).2 rfl

/-- With a failed commit, the two tokens go out under one number, and the first is not in the log. -/
theorem sent_uncommitted : ¬ ∀ (es : List (Event Value)) (n : Node Tables Value),
    (Node.system (crud 8) encoding).run (Node.start fresh) es = some n → n.Backed encoding := by
  intro h
  have hb := h (twoTokens false) _ rfl
  obtain ⟨-, hm⟩ := hb.distinct _ List.mem_cons_self _ (List.mem_cons_of_mem _ List.mem_cons_self) rfl
  have hm : encoding.marshalValue (.token ⟨"a", "", none⟩) = encoding.marshalValue (.token ⟨"b", "", none⟩) := hm
  have hab := (unmarshalValue_marshalValue (hm.trans rfl)).symm.trans
    (unmarshalValue_marshalValue (v := .token ⟨"b", "", none⟩) rfl)
  exact absurd (Except.ok.inj hab) (by decide)

/-! ## Subscriptions over a loaded snapshot -/

theorem encoding_readsBack : ReadsBack encoding := fun v _ h => ⟨v.reread, unmarshalValue_marshalValue h⟩

/-- Over any CRUD and fresh tables, in a run whose operations come in sequence and whose snapshots
are not older than the datastore: a subscription has no hole exactly when it starts above the last
snapshot that moved the sequence, if there was one. -/
theorem subscribe_no_hole {T : Type} (crud : CRUD T Value) (t : T) {w : Watched T Value}
    (h : (Watched.system crud encoding).Reach Watched.InSequence (Watched.start (Database.fresh t)) w) (start : Nat) :
    w.node.store.NoHole encoding start ↔ w.base = 0 ∨ w.base < start :=
  (Watched.Gapped.reach t h).noHole_iff encoding_readsBack start

/-- The objects in a list. -/
def listCRUD : CRUD (List Value) Value where
  create v := Proc.modify fun l => l ++ [v]
  update _ := pure ()
  delete v := Proc.modify fun l => l.filter fun x => decide (x ≠ v)
  deleteAll := Proc.modify fun _ => []
  each := Proc.get

/-- A follower that loads a snapshot and goes on from there. -/
def snapshotRun : List (Event Value) :=
  [.loadSnapshot ⟨100, []⟩ true, .apply ⟨101, .create, Time.zero, .token ⟨"a", "", none⟩⟩ true, .commit true]

theorem subscribe_no_hole_snapshotRun :
    ∃ w, (Watched.system listCRUD encoding).run (Watched.start (Database.fresh [])) snapshotRun =
    some w ∧ w.node.store.NoHole encoding 101 ∧ ¬ w.node.store.NoHole encoding 100 := by
  refine ⟨_, rfl, ?_⟩
  have halong : (Watched.system listCRUD encoding).Along Watched.InSequence
      (Watched.start (Database.fresh [])) snapshotRun := by
    refine ⟨Nat.zero_le _, fun w hw => ⟨fun _ => ?_, fun _ _ => ⟨trivial, fun _ _ => trivial⟩⟩⟩
    cases hw
    rfl
  have hiff := subscribe_no_hole listCRUD [] ⟨snapshotRun, halong, rfl⟩
  exact ⟨(hiff 101).2 (.inr (by decide)), fun hno => absurd ((hiff 100).1 hno) (by decide)⟩

/-- After a snapshot at 100 the log is empty, and yet a subscription from 1 is accepted. -/
theorem subscribe_hole : ¬ ∀ (es : List (Event Value)) (w : Watched (List Value) Value),
    (Watched.system listCRUD encoding).run (Watched.start (Database.fresh [])) es = some w →
      ∀ start, w.node.store.NoHole encoding start := by
  intro h
  have hno := h [.loadSnapshot ⟨100, []⟩ true] _ rfl 1
  have hpre := hno.preload _ rfl
  exact absurd hpre (by decide)

end Wig.Store
