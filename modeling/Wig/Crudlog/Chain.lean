/-
Replication in a chain: a primary A, a datastore B that follows it, and a sink C that follows B, in
any interleaving of the steps of the two links. A process that ends is started again on its database,
with its subscribers gone. `GetSequence` answers 0 when its read fails, and `Subscribe` then sends
the follower back to a snapshot.
-/
import Wig.Crudlog.Link

namespace Wig.Crudlog

open Wig.Lib Wig.Crud

variable {T V : Type} {crud : CRUD T V} {enc : Encoding V} {t₀ : T} {Good : T → Prop}

/-! ## The chain -/

/-- The three parties, where `doFollow` is on B and on C, and A's database after each operation it has
committed. -/
structure Chain (T V : Type) where
  a : Node T V
  b : Node T V
  bPhase : Phase V
  c : Datastore T V
  cPhase : Phase V
  history : List (Database T)

inductive ChainEvent (V : Type) where
  /-- An event of the link from A to B, A's writes among them. -/
  | up (e : FollowEvent V)
  /-- An event of the link from B to C. -/
  | down (e : FollowEvent V)
  /-- A's process ends, and starts again. -/
  | restartA
  /-- `Subscribe` on A cannot read the sequence. -/
  | misreadB
  /-- `Subscribe` on B cannot read the sequence. -/
  | misreadC

/-- `GetSequence` answers 0 when the read fails, and every start after the first is past that. -/
def Phase.misread : Phase V → Option (Phase V)
  | .starting start restartFromSnapshot =>
    if 0 + 1 < (start + 1) % 2 ^ 64 then some (Replica.subscribed restartFromSnapshot (.err .horizon)) else none
  | _ => none

theorem Phase.misread_continues {phase phase' : Phase V} (hs : phase.misread = some phase')
    {rows : List OpSerialized} {n : Node T V} {f : Nat} : phase'.Continues enc rows n f := by
  cases phase with
  | starting start restart =>
    simp only [Phase.misread] at hs
    split at hs
    · cases hs
      cases restart <;> trivial
    · cases hs
  | _ => cases hs

/-- The follower's process ends: it is restarted, or a call crashed it. -/
def FollowEvent.endsProcess : FollowEvent V → Phase V → Bool
  | .restart, _ => true
  | .deliver _, .idle => true
  | .snapshot _, .idle => true
  | _, _ => false

namespace Chain

/-- Three fresh datastores, and no `Follow` started. -/
def fresh (t₀ : T) : Chain T V :=
  ⟨Node.start (Datastore.wrap (Database.fresh t₀)), Node.start (Datastore.wrap (Database.fresh t₀)), .idle,
    Datastore.wrap (Database.fresh t₀), .idle, [Database.fresh t₀]⟩

/-- The link from A to B. -/
def up (x : Chain T V) : Replica T V := ⟨x.a, x.b.store, x.bPhase, x.history, false, false⟩

/-- The link from B to C. -/
def down (x : Chain T V) : Replica T V := ⟨x.b, x.c, x.cPhase, [], false, false⟩

/-- A is started again on its database: the connection to B is gone. -/
def restartA (x : Chain T V) : Chain T V :=
  { x with a := Node.start (Datastore.wrap x.a.store.db), bPhase := x.bPhase.hangUp }

/-- B is started again on its database: the connection to C is gone. -/
def restartB (x : Chain T V) : Chain T V :=
  { x with b := Node.start (Datastore.wrap x.b.store.db), cPhase := x.cPhase.hangUp }

def setUp (x : Chain T V) (r : Replica T V) : Chain T V :=
  { x with a := r.primary, b := { x.b with store := r.follower }, bPhase := r.phase, history := r.history }

def setDown (x : Chain T V) (r : Replica T V) : Chain T V :=
  { x with b := r.primary, c := r.follower, cPhase := r.phase }

variable (crud : CRUD T V) (enc : Encoding V) (trA trB : Transport V)

def step (x : Chain T V) : ChainEvent V → Option (Chain T V)
  | .up e => (Replica.step crud enc trA x.up e).map fun r =>
    if e.endsProcess r.phase then (x.setUp r).restartB else x.setUp r
  | .down e => (Replica.step crud enc trB x.down e).map fun r =>
    if e.endsProcess r.phase then x.setDown { r with follower := Datastore.wrap r.follower.db } else x.setDown r
  | .restartA => some x.restartA
  | .misreadB => x.bPhase.misread.map fun phase => { x with bPhase := phase }
  | .misreadC => x.cPhase.misread.map fun phase => { x with cPhase := phase }

def system : System (Chain T V) (ChainEvent V) := ⟨step crud enc trA trB⟩

/-- A's database after each of its operations, that of an `Apply` in progress being the last. -/
def operations (x : Chain T V) : List (Database T) := x.a.known x.history

/-- The events of the two links, with every commit succeeding, so that A's process does not end in the
middle of an `Apply`; B is written by its `Follow` only. -/
def Admitted (x : Chain T V) : ChainEvent V → Prop
  | .up e => x.up.Admitted e ∧ e.commits = true
  | .down e => x.down.Admitted e ∧ e.commits = true ∧ e.isWrite = false
  | .restartA => x.a.emission.isNone = true
  | .misreadB => True
  | .misreadC => True

/-- B loads a snapshot only while C is not connected, or when it is not behind A; and C subscribes
only where B's log reaches back to. -/
def InOrder (x : Chain T V) : ChainEvent V → Prop
  | .up e => e.isSnapshot = true → x.cPhase.connected = false ∨ x.a.store.db.sequence = x.b.store.db.sequence
  | .down e => e.isSubscribe = true → x.b.store.db.ReachesBack (x.c.db.sequence + 1)
  | .restartA => True
  | .misreadB => True
  | .misreadC => True

/-! The conditions on an event can be evaluated, so that a run is checked by computing it. -/

instance (d : Database T) (start : Nat) : Decidable (d.ReachesBack start) :=
  decidable_of_iff (∀ k ≤ d.sequence, max start 1 ≤ k → k ∈ d.log.keys) ⟨fun h k hs hk => h k hk hs,
    fun h k hk hs => h k hs hk⟩

instance (ch : Nat) : ∀ phase : Phase V, Decidable (∀ wire, phase ≠ .following ch wire true)
  | .following c wire true =>
    decidable_of_iff (c ≠ ch) ⟨fun hne _ h => hne (by cases h; rfl), fun h hc => h wire (by rw [hc])⟩
  | .following _ _ false | .idle | .starting _ _ | .snapshotting | .stopped _ => isTrue fun _ h => nomatch h

instance (r : Replica T V) : ∀ e, Decidable (r.Admitted e)
  | .primary (.apply _ fromLog) => inferInstanceAs (Decidable (fromLog = false))
  | .primary (.loadSnapshot _ _) => inferInstanceAs (Decidable False)
  | .primary (.close ch) => inferInstanceAs (Decidable (∀ b ∈ r.primary.subs ch, b.closed = false))
  | .primary (.read ch) => inferInstanceAs (Decidable (∀ wire, r.phase ≠ .following ch wire true))
  | .primary .send | .primary (.commit _) | .primary (.subscribe _ _) | .primary (.forward _) | .start | .subscribe
    _ | .snapshot _ | .fetch | .deliver _ | .disconnect _
  | .eof | .restart => isTrue trivial

instance (x : Chain T V) : ∀ e, Decidable (x.Admitted e)
  | .up e => inferInstanceAs (Decidable (x.up.Admitted e ∧ e.commits = true))
  | .down e => inferInstanceAs (Decidable (x.down.Admitted e ∧ e.commits = true ∧ e.isWrite = false))
  | .restartA => inferInstanceAs (Decidable (x.a.emission.isNone = true))
  | .misreadB | .misreadC => isTrue trivial

instance (x : Chain T V) : ∀ e, Decidable (x.InOrder e)
  | .up e => inferInstanceAs (Decidable (e.isSnapshot = true → _ ∨ _))
  | .down e => inferInstanceAs (Decidable (e.isSubscribe = true → x.b.store.db.ReachesBack _))
  | .restartA | .misreadB | .misreadC => isTrue trivial

/-! ## The invariant -/

/-- Both links go on from where their followers are in A's history. -/
structure Consistent (crud : CRUD T V) (enc : Encoding V) (t₀ : T) (Good : T → Prop) (x : Chain T V) : Prop where
  origin : x.a.Origin crud enc t₀ Good x.history
  middle : x.b.Source x.operations x.a.ahead.log.rows
  settled : x.b.emission = none
  up : Linked enc x.operations x.a.ahead.log.rows x.a x.b.store.db x.bPhase
  down : Linked enc x.operations x.a.ahead.log.rows x.b x.c.db x.cPhase
  live : x.c.pubsub.Live
  pending : x.c.pubsub.Pending

variable {crud enc trA trB}

theorem Consistent.fresh (crud : CRUD T V) (enc : Encoding V) (h₀ : Good t₀) :
    (Chain.fresh t₀).Consistent crud enc t₀ Good := by
  have hT := Timeline.fresh crud enc h₀
  have hO := Node.Origin.fresh crud enc h₀
  exact ⟨hO, hO.source, rfl, ⟨hT.at_last, trivial⟩, ⟨hT.at_last, trivial⟩, .new, .new⟩

namespace Consistent

variable {x : Chain T V} {r : Replica T V}

theorem link_up (h : x.Consistent crud enc t₀ Good) : Link enc x.operations x.a.ahead.log.rows x.up :=
  ⟨h.origin.source, h.middle.live, h.middle.pending, h.up⟩

theorem link_down (h : x.Consistent crud enc t₀ Good) : Link enc x.operations x.a.ahead.log.rows x.down :=
  ⟨h.middle, h.live, h.pending, h.down⟩

/-- An event of A: its history goes on, and B is sent what is emitted. -/
theorem primary (hR : Replayable crud enc) (hC : Copies crud Good) (h : x.Consistent crud enc t₀ Good) {e : Event V}
    (ha : x.up.Admitted (.primary e)) (hc : e.commits = true) (hs : x.up.primaryStep crud enc e = some r) :
    (x.setUp r).Consistent crud enc t₀ Good := by
  obtain ⟨n, hn, rfl⟩ := Option.map_eq_some_iff.1 hs
  have hp : x.a.PrimaryEvent e := Replica.primaryEvent_of_admitted ha hc
  have hO := h.origin.step hR hC.applied hp hn
  obtain ⟨hist', rows', hhist, hrows⟩ := h.origin.grows hp (h.origin.stepped hn)
  have hoperations : (x.setUp { x.up with
      primary := n
      history := x.a.grown n x.history }).operations = x.operations ++ hist' := hhist
  refine ⟨hO, ?_, h.settled, ?_, ?_, h.live, h.pending⟩
  · show x.b.Source _ n.ahead.log.rows
    rw [hrows]
    exact hoperations ▸ h.middle.extend hist' rows'
  · refine ⟨?_, ?_⟩
    · exact hoperations ▸ h.up.tables.append hist'
    · have hcont := h.up.continues
      show Phase.Continues enc n.ahead.log.rows n x.b.store.db.sequence x.bPhase
      cases hph : x.bPhase with
      | following ch wire up =>
        rw [hph] at hcont
        refine h.origin.feed hR hp hn ?_ hcont
        rintro rfl rfl
        exact ha wire hph
      | _ => rw [hph] at hcont; exact hcont
  · show Linked enc _ n.ahead.log.rows x.b x.c.db x.cPhase
    rw [hrows]
    exact hoperations ▸ h.down.extend hist' rows'

/-- An event of the upper link that is not one of A's own. -/
theorem setUp (h : x.Consistent crud enc t₀ Good) {e : FollowEvent V}
    (hst : Link.Stepped crud enc x.operations x.a.ahead.log.rows e x.up r)
    (hquiet : e.isSnapshot = true → x.a.emission = none)
    (ho : x.InOrder (.up e)) : (x.setUp r).Consistent crud enc t₀ Good := by
  obtain ⟨hO, hknown, hahead⟩ := h.origin.served hst.source hst.db hst.emission
  have hhist : r.history = x.history := hst.history
  have hoperations : (x.setUp r).operations = x.operations := by
    show r.primary.known r.history = _
    rw [hhist]
    exact hknown
  -- B has no number that A does not have, so no snapshot of A takes it back
  have hle : e.isSnapshot = true → x.b.store.db.sequence ≤ x.a.store.db.sequence := by
    intro he
    have hle := h.origin.timeline.le h.up.tables
    rwa [Node.ahead_of_none (hquiet he)] at hle
  have hmid := hst.advanced.source h.middle h.settled hst.linked.tables hle
  have hlow := hst.advanced.linked h.middle h.settled h.down ho
  refine ⟨?_, ?_, h.settled, ?_, ?_, h.live, h.pending⟩
  · show r.primary.Origin crud enc t₀ Good r.history
    rw [hhist]
    exact hO
  · show Node.Source _ r.primary.ahead.log.rows _
    rw [hoperations, hahead]
    exact hmid
  · show Linked enc _ r.primary.ahead.log.rows r.primary r.follower.db r.phase
    rw [hoperations, hahead]
    exact hst.linked
  · show Linked enc _ r.primary.ahead.log.rows _ x.c.db x.cPhase
    rw [hoperations, hahead]
    exact hlow

theorem restartA (h : x.Consistent crud enc t₀ Good) (hm : x.a.emission = none) :
    x.restartA.Consistent crud enc t₀ Good := by
  have hoperations : x.restartA.operations = x.operations := by
    show (Node.start _).known x.history = x.a.known x.history
    rw [Node.known_of_none rfl, Node.known_of_none hm]
  have hahead : x.restartA.a.ahead = x.a.ahead := (Node.ahead_of_none rfl).trans (Node.ahead_of_none hm).symm
  refine ⟨h.origin.restart hm, ?_, h.settled, ?_, ?_, h.live, h.pending⟩ <;> rw [hoperations, hahead]
  · exact h.middle
  · exact h.up.hangUp
  · exact h.down

theorem restartB (h : x.Consistent crud enc t₀ Good) : x.restartB.Consistent crud enc t₀ Good :=
  ⟨h.origin, .start h.middle.tables h.middle.logged, rfl, h.up, h.down.hangUp, h.live, h.pending⟩

/-- An event of the lower link. -/
theorem setDown (h : x.Consistent crud enc t₀ Good) {e : FollowEvent V}
    (hst : Link.Stepped crud enc x.operations x.a.ahead.log.rows e x.down r) :
    (x.setDown r).Consistent crud enc t₀ Good := by
  have hdb : r.primary.store.db = x.b.store.db := hst.db
  refine ⟨h.origin, hst.source, hst.emission.trans h.settled, ?_, hst.linked, hst.advanced.live h.live,
    hst.advanced.pending h.pending⟩
  show Linked enc x.operations x.a.ahead.log.rows x.a r.primary.store.db x.bPhase
  rw [hdb]
  exact h.up

theorem step (hR : Replayable crud enc) (hC : Copies crud Good) (hA : trA.Faithful crud) (hB : trB.Faithful crud)
    (h : x.Consistent crud enc t₀ Good) {e : ChainEvent V} (ha : x.Admitted e) (ho : x.InOrder e) {x' : Chain T V}
    (hs : Chain.step crud enc trA trB x e = some x') : x'.Consistent crud enc t₀ Good := by
  cases e with
  | up e =>
    obtain ⟨r, hr, rfl⟩ := Option.map_eq_some_iff.1 hs
    obtain ⟨hadm, hcommit⟩ := ha
    have hset : (x.setUp r).Consistent crud enc t₀ Good := by
      cases hw : e.isWrite with
      | true =>
        cases e with
        | primary e => exact h.primary hR hC hadm hcommit hr
        | _ => cases hw
      | false =>
        have hback : e.isSubscribe = true → x.up.primary.store.db.ReachesBack (x.up.follower.db.sequence + 1) :=
          fun _ => h.origin.reachesBack _
        exact h.setUp (h.link_up.step hR hC h.origin.timeline hA hadm hcommit hw hback hr) (Replica.step_snapshot hr) ho
    split
    · exact hset.restartB
    · exact hset
  | down e =>
    obtain ⟨r, hr, rfl⟩ := Option.map_eq_some_iff.1 hs
    obtain ⟨hadm, hcommit, hw⟩ := ha
    have hst := h.link_down.step hR hC h.origin.timeline hB hadm hcommit hw ho hr
    have hset := h.setDown hst
    split
    · exact ⟨hset.origin, hset.middle, hset.settled, hset.up, hset.down, .new, .new⟩
    · exact hset
  | restartA =>
    cases hs
    exact h.restartA (Option.isNone_iff_eq_none.1 ha)
  | misreadB =>
    obtain ⟨phase, hph, rfl⟩ := Option.map_eq_some_iff.1 hs
    exact ⟨h.origin, h.middle, h.settled, ⟨h.up.tables, Phase.misread_continues hph⟩, h.down, h.live, h.pending⟩
  | misreadC =>
    obtain ⟨phase, hph, rfl⟩ := Option.map_eq_some_iff.1 hs
    exact ⟨h.origin, h.middle, h.settled, h.up, ⟨h.down.tables, Phase.misread_continues hph⟩, h.live, h.pending⟩

/-- What the sink has, and what it is about to take. -/
theorem sink (h : x.Consistent crud enc t₀ Good) :
    (∃ y, x.operations[x.c.db.sequence]? = some y ∧ y.sequence = x.c.db.sequence ∧ y.tables = x.c.db.tables) ∧
      ∀ ch op wire up, x.cPhase = .following ch (op :: wire) up → op.seq = x.c.db.sequence + 1 := by
  obtain ⟨y, hy, ht⟩ := h.down.tables
  refine ⟨⟨y, hy, (h.origin.timeline.history.prefixes _ y hy).1, ht⟩, fun ch op wire up hph => ?_⟩
  have hc := h.down.continues
  rw [hph] at hc
  obtain ⟨⟨row, hrow, ho⟩, -⟩ := Feed.delivered hc
  exact (Op.serialize_eq_ok ho).2.1.symm.trans (h.origin.timeline.seq_eq hrow)

theorem reach (hR : Replayable crud enc) (hC : Copies crud Good) (h₀ : Good t₀) (hA : trA.Faithful crud)
    (hB : trB.Faithful crud)
    (h : (Chain.system crud enc trA trB).Reach (fun x e => x.Admitted e ∧ x.InOrder e) (Chain.fresh t₀) x) :
    x.Consistent crud enc t₀ Good :=
  h.invariant (.fresh crud enc h₀) fun _ _ _ hi he hs => hi.step hR hC hA hB he.1 he.2 hs

end Consistent

end Chain

end Wig.Crudlog
