/-
What subscribers are sent and what the log has. `Apply` sends an operation before its transaction
commits: while it waits for a full channel, or is about to commit, some subscribers have an operation
that is in no log yet; and a commit that fails then leaves it out for good, and the next operation goes
out under the same number.
-/
import Wig.Crudlog.Stream

namespace Wig.Crudlog

open Wig.Lib Wig.Crud

variable {T V : Type} {crud : CRUD T V} {enc : Encoding V}

namespace Node

/-- Every operation sent is in the log, with its number, type and value; so that operations sent
with one number are one operation. -/
structure Backed (enc : Encoding V) (n : Node T V) : Prop where
  logged : ∀ x ∈ n.store.pubsub.sent, ∃ row ∈ n.store.db.log.rows, x.2.serialize enc = .ok row
  distinct : ∀ x ∈ n.store.pubsub.sent, ∀ y ∈ n.store.pubsub.sent, x.2.seq = y.2.seq →
    x.2.type = y.2.type ∧ enc.marshalValue x.2.value = enc.marshalValue y.2.value

/-- Every operation sent is in the log or is that of the `Apply` in progress, and operations sent with
one number are one operation. -/
structure Accounted (enc : Encoding V) (n : Node T V) : Prop where
  sent : ∀ x ∈ n.store.pubsub.sent, (∃ row ∈ n.store.db.log.rows, x.2.serialize enc = .ok row) ∨
    ∃ m, n.emission = some m ∧ x.2 = m.op
  distinct : ∀ x ∈ n.store.pubsub.sent, ∀ y ∈ n.store.pubsub.sent, x.2.seq = y.2.seq →
    x.2.type = y.2.type ∧ enc.marshalValue x.2.value = enc.marshalValue y.2.value

theorem Accounted.backed {n : Node T V} (h : n.Accounted enc) (hm : n.emission = none) : n.Backed enc := by
  refine ⟨fun x hx => (h.sent x hx).resolve_right ?_, h.distinct⟩
  rintro ⟨m, hm', -⟩
  rw [hm] at hm'
  cases hm'

/-- No commit of an `Apply` fails once its operation has been sent to a channel. -/
def CommitsToSubscribers (n : Node T V) : Event V → Prop
  | .commit ok => ok = true ∨ ∀ m, n.emission = some m → m.reached = []
  | _ => True

/-- The invariant: the channels are in order, and what was sent and is not in the log is the operation
of the `Apply` in progress. -/
structure Honest (crud : CRUD T V) (enc : Encoding V) (n : Node T V) : Prop where
  ordered : n.Ordered
  writing : n.Writing crud enc
  sent : ∀ x ∈ n.store.pubsub.sent, (∃ row ∈ n.store.db.log.rows, x.2.serialize enc = .ok row) ∨
    ∃ m, n.emission = some m ∧ x.1 ∈ m.reached ∧ x.2 = m.op

namespace Honest

variable {n n' : Node T V}

theorem start (crud : CRUD T V) (enc : Encoding V) (d : Database T) :
    (Node.start (Datastore.wrap d) : Node T V).Honest crud enc :=
  ⟨.start d, writing_of_none rfl, fun _ h => (List.not_mem_nil h).elim⟩

/-- Without an `Apply` in progress, all that was sent is in the log. -/
theorem logged (h : n.Honest crud enc) (hm : n.emission = none) :
    ∀ x ∈ n.store.pubsub.sent, ∃ row ∈ n.store.db.log.rows, x.2.serialize enc = .ok row := by
  intro x hx
  refine (h.sent x hx).resolve_right ?_
  rintro ⟨m, hm', -⟩
  rw [hm] at hm'
  cases hm'

theorem step {e : Event V} (h : n.Honest crud enc) (he : n.CommitsToSubscribers e)
    (hs : Node.step crud enc n e = some n') : n'.Honest crud enc := by
  obtain ⟨-, hst⟩ := h.ordered.cases hs
  refine ⟨h.ordered.step hs, hst.writing h.writing, ?_⟩
  cases hst with
  | unchanged => exact h.sent
  | crashed e p hm hp hw => intro x hx; exact .inl (h.logged hm x (hp ▸ hx))
  | written op fromLog row d' hm hr => exact fun x hx => .inl (h.logged hm x hx)
  | sent m ch unsent hm hu =>
    intro x hx
    rcases List.mem_append.1 hx with hx | hx
    · refine (h.sent x hx).imp_right ?_
      rintro ⟨m', hm', hreached, hop⟩
      rw [hm] at hm'
      cases hm'
      exact ⟨_, rfl, List.mem_append_left _ hreached, hop⟩
    · rw [List.map_singleton, List.mem_singleton] at hx
      subst hx
      exact .inr ⟨_, rfl, List.mem_append_right _ List.mem_cons_self, rfl⟩
  | committed m hm hu =>
    obtain ⟨row, hr⟩ := h.writing m hm
    intro x hx
    refine .inl ?_
    show ∃ row ∈ m.db.log.rows, _
    rw [hr.rows]
    rcases h.sent x hx with ⟨r, hr', hs'⟩ | ⟨m', hm', -, hop⟩
    · exact ⟨r, List.mem_append_left _ hr', hs'⟩
    · rw [hm] at hm'
      cases hm'
      exact ⟨row, List.mem_append_right _ List.mem_cons_self, hop ▸ hr.serialized⟩
  | lost m hm hu =>
    -- the operation was sent to nobody, so all that was sent is in the log
    have hnobody : m.reached = [] := he.resolve_left Bool.false_ne_true m hm
    intro x hx
    refine .inl ((h.sent x hx).resolve_right ?_)
    rintro ⟨m', hm', hreached, -⟩
    rw [hm] at hm'
    cases hm'
    rw [hnobody] at hreached
    cases hreached
  | loaded snap commit d' hm hl hq =>
    intro x hx
    show (∃ row ∈ d'.log.rows, _) ∨ _
    rw [hl]
    exact h.sent x hx
  | subscribed start preload hm hle hq => exact h.sent
  | leaked start hm => exact h.sent
  | moved e n' ch b b' hb hm hr => rw [hm.sent, hm.db, hm.emission]; exact h.sent
  | closed ch b hb hu => exact h.sent

theorem reach (d : Database T)
    (h : (Node.system crud enc).Reach CommitsToSubscribers (Node.start (Datastore.wrap d)) n) : n.Honest crud enc :=
  h.invariant (.start crud enc d) fun _ _ _ hi he hs => hi.step he hs

/-- The number of an operation that is being applied is in no row yet. -/
theorem accounted (h : n.Honest crud enc) : n.Accounted enc := by
  have hfresh : ∀ (op : Op V) (row : OpSerialized) (m : Emission T V), n.emission = some m → row ∈ n.store.db.log.rows →
      op.serialize enc = .ok row → op.seq ≠ m.op.seq := by
    intro op row m hm hrow hs heq
    obtain ⟨_, hr⟩ := h.writing m hm
    refine hr.fresh ?_
    rw [← heq, ← (Op.serialize_eq_ok hs).2.1]
    exact Table.key_mem_keys hrow
  constructor
  · intro x hx
    refine (h.sent x hx).imp_right ?_
    rintro ⟨m, hm, -, hop⟩
    exact ⟨m, hm, hop⟩
  · intro x hx y hy hxy
    rcases h.sent x hx with ⟨row, hr, hs⟩ | ⟨m, hm, -, hop⟩ <;> rcases h.sent y hy with ⟨row',
      hr', hs'⟩ | ⟨m', hm', -, hop'⟩
    · obtain ⟨hv, hseq, hty, -⟩ := Op.serialize_eq_ok hs
      obtain ⟨hv', hseq', hty', -⟩ := Op.serialize_eq_ok hs'
      have hrow : row = row' := Table.row_unique hr hr' (by rw [hseq, hseq', hxy])
      subst hrow
      exact ⟨hty.symm.trans hty', hv.trans hv'.symm⟩
    · exact absurd (hop' ▸ hxy) (hfresh x.2 row m' hm' hr hs)
    · exact absurd (hop ▸ hxy.symm) (hfresh y.2 row' m hm hr' hs')
    · rw [hm] at hm'
      cases hm'
      rw [hop, hop']
      exact ⟨rfl, rfl⟩

end Honest

end Node

end Wig.Crudlog
