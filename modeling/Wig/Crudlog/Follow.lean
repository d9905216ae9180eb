/-
Replication: a primary with its subscribers, a follower datastore, and the `Follow` loop between
them, in any interleaving. The connection can break at any point, with any number of the operations
under way still arriving, and the follower can be restarted at any point; what the server does with
a subscription whose client is gone is up to the primary's own events.
-/
import Wig.Crudlog.Node
import Wig.Crudlog.Remote

namespace Wig.Crudlog

open Wig.Lib Wig.Crud

variable {T V : Type}

/-- Where `doFollow` is: not running, about to subscribe, sent back to a snapshot, reading the
operations that have arrived on a connection that is still up or not, or returned an error. -/
inductive Phase (V : Type) where
  | idle
  | starting (start : Nat) (restartFromSnapshot : Bool)
  | snapshotting
  | following (ch : Nat) (wire : List (Op V)) (up : Bool)
  | stopped (e : Error)
  deriving DecidableEq

/-- `history` has the primary's database after each of its committed operations, from the first
state on. -/
structure Replica (T V : Type) where
  primary : Node T V
  follower : Datastore T V
  phase : Phase V
  history : List (Database T)
  snapshotLoaded : Bool
  commitFailed : Bool

inductive FollowEvent (V : Type) where
  /-- An event of the primary: a write, the server's side of a subscription, or another subscriber. -/
  | primary (e : Event V)
  /-- `doFollow` starts and asks for the latest sequence. -/
  | start
  | subscribe (commit : Bool)
  /-- `Snapshot` and `LoadSnapshot`. -/
  | snapshot (commit : Bool)
  /-- The next operation leaves the subscription and goes on the wire. -/
  | fetch
  /-- The next operation on the wire is applied. -/
  | deliver (commit : Bool)
  /-- The connection breaks, and the first `keep` operations on the wire still arrive. -/
  | disconnect (keep : Nat)
  /-- The channel is closed and drained: `doFollow` returns nil and `Follow` calls it again. -/
  | eof
  /-- The follower is started again. -/
  | restart

def Event.commits : Event V → Bool
  | .commit ok => ok
  | .loadSnapshot _ ok => ok
  | .subscribe _ ok => ok
  | _ => true

namespace Replica

/-- Two fresh datastores, and `Follow` not yet started. -/
def fresh (t₀ : T) : Replica T V :=
  ⟨Node.start (Datastore.wrap (Database.fresh t₀)), Datastore.wrap (Database.fresh t₀), .idle,
    [Database.fresh t₀], false, false⟩

variable (crud : CRUD T V) (enc : Encoding V) (tr : Transport V)

/-- The follower after `LoadSnapshot` or `Apply`: an error ends `Follow`, a crash ends the process. -/
def returned (r : Replica T V) (commit : Bool) (ok : Replica T V → Replica T V) :
    Outcome Error Unit × Datastore T V → Option (Replica T V)
  | (.ok (), f) => some (ok { r with follower := f })
  | (.err e, f) => some { r with follower := f, phase := .stopped e, commitFailed := r.commitFailed || !commit }
  | (.crash, f) => some { r with follower := f, phase := .idle }
  | (.block, _) => none

def primaryStep (r : Replica T V) (e : Event V) : Option (Replica T V) :=
  (Node.step crud enc r.primary e).map fun n =>
    { r with
      primary := n
      history := if n.store.db.sequence = r.primary.store.db.sequence then r.history else r.history ++ [n.store.db]
      commitFailed := r.commitFailed || !e.commits }

/-- Where a call of `Subscribe` leads. -/
def subscribed (restartFromSnapshot : Bool) : Outcome Error (Subscription V) → Phase V
  | .ok sub => .following sub.ch [] true
  | .err e => if e = .horizon ∧ restartFromSnapshot = true then .snapshotting else .stopped e
  | .crash => .idle
  | .block => .idle

def subscribeStep (r : Replica T V) (start : Nat) (restartFromSnapshot commit : Bool) : Option (Replica T V) :=
  (Node.step crud enc r.primary (.subscribe ((start + 1) % 2 ^ 64) commit)).map fun n =>
    { r with
      primary := n
      phase := subscribed restartFromSnapshot (r.primary.store.subscribe enc ((start + 1) % 2 ^ 64) commit).1
      commitFailed := r.commitFailed || !commit }

/-- `Snapshot` waits for the lock while an `Apply` of the primary is in progress. -/
def snapshotStep (r : Replica T V) (commit : Bool) : Option (Replica T V) :=
  if r.primary.emission.isSome then none
  else match r.primary.store.snapshot crud with
  | .ok snap =>
    r.returned commit (fun r => { r with phase := .starting snap.seq false, snapshotLoaded := true })
      (r.follower.loadSnapshot crud (tr.carrySnapshot snap) commit)
  | .err e => some { r with phase := .stopped e }
  | .crash => none
  | .block => none

/-- An operation that cannot be written or read back ends the connection. -/
def fetchStep (r : Replica T V) (ch : Nat) (wire : List (Op V)) : Option (Replica T V) :=
  match r.primary.subs ch with
  | none => none
  | some b =>
    match b.out with
    | [] => none
    | op :: _ =>
      (Node.step crud enc r.primary (.read ch)).map fun n =>
        { r with
          primary := n
          phase := match tr.carry enc op with
            | .ok op' => .following ch (wire ++ [op']) true
            | .error _ => .following ch wire false }

def step (r : Replica T V) (e : FollowEvent V) : Option (Replica T V) :=
  match e, r.phase with
  | .primary e, _ => r.primaryStep crud enc e
  | .start, .idle => some { r with phase := .starting r.follower.latestSequence true }
  | .subscribe commit, .starting start restartFromSnapshot => r.subscribeStep crud enc start restartFromSnapshot commit
  | .snapshot commit, .snapshotting => r.snapshotStep crud tr commit
  | .fetch, .following ch wire true => r.fetchStep crud enc tr ch wire
  | .deliver commit, .following ch (op :: wire) up =>
    r.returned commit (fun r => { r with phase := .following ch wire up }) (r.follower.apply crud enc op true commit)
  | .disconnect keep, .following ch wire true => some { r with phase := .following ch (wire.take keep) false }
  | .eof, .following _ [] false => some { r with phase := .idle }
  | .restart, _ => some { r with phase := .idle }
  | _, _ => none

def system : System (Replica T V) (FollowEvent V) := ⟨step crud enc tr⟩

/-! ## What a step of the link can do -/

section Steps

variable {crud enc tr} {r r' : Replica T V}

/-- The ways a call of `Subscribe` whose commit succeeds leaves the link. -/
inductive Subscribing (enc : Encoding V) (r : Replica T V) (start : Nat) : Node T V → Phase V → Prop where
  | snapshotting : Subscribing enc r start r.primary .snapshotting
  | stopped (e : Error) : Subscribing enc r start r.primary (.stopped e)
  | following (preload : List (Op V)) (hle : start ≤ r.primary.store.db.sequence + 1)
      (hq : r.primary.store.db.queryLogSince enc start = .ok preload) :
      Subscribing enc r start
        ((r.primary.setPubsub r.primary.store.pubsub.subscribed).setSub r.primary.store.pubsub.next ⟨start,
          preload, none, [], [], false⟩)
        (.following r.primary.store.pubsub.next [] true)

theorem subscribeStep_cases (halive : r.primary.crashed = false) {start : Nat} {restart : Bool}
    (hs : r.subscribeStep crud enc start restart true = some r') :
    ∃ n phase, Node.step crud enc r.primary (.subscribe ((start + 1) % 2 ^ 64) true) = some n ∧
      r' = { r with primary := n, phase := phase } ∧ Subscribing enc r ((start + 1) % 2 ^ 64) n phase := by
  obtain ⟨n, hn, rfl⟩ := Option.map_eq_some_iff.1 hs
  refine ⟨n, subscribed restart (r.primary.store.subscribe enc ((start + 1) % 2 ^ 64) true).1, hn,
    by rw [Bool.not_true, Bool.or_false], ?_⟩
  rw [Node.step_subscribe halive (Node.step_subscribe_some hn).2] at hn
  have hcase := Datastore.subscribe_cases enc ((start + 1) % 2 ^ 64) true r.primary.store
  revert hn hcase
  generalize r.primary.store.subscribe enc ((start + 1) % 2 ^ 64) true = x
  rintro hn (hh | ⟨e, hle, hq⟩ | ⟨preload, hle, hq, hc⟩ | ⟨preload, hle, hq, hc⟩)
  · cases hn
    cases restart
    · exact .stopped _
    · exact .snapshotting
  · cases hn
    simp only [subscribed]
    split
    · exact .snapshotting
    · exact .stopped e
  · cases hn
    exact .following preload hle hq
  · cases hc

theorem snapshotStep_some {commit : Bool} (hs : r.snapshotStep crud tr commit = some r') :
    r.primary.emission = none := by
  unfold snapshotStep at hs
  split at hs
  · cases hs
  · rename_i hm
    exact Option.not_isSome_iff_eq_none.1 hm

theorem snapshotStep_eq {commit : Bool} (hm : r.primary.emission = none) :
    r.snapshotStep crud tr commit = match r.primary.store.snapshot crud with
      | .ok snap =>
        r.returned commit (fun r => { r with phase := .starting snap.seq false, snapshotLoaded := true })
          (r.follower.loadSnapshot crud (tr.carrySnapshot snap) commit)
      | .err e => some { r with phase := .stopped e }
      | .crash => none
      | .block => none := by
  unfold snapshotStep
  rw [hm, Option.isSome_none, if_neg Bool.false_ne_true]

/-- The operation at the front of the subscription goes on the wire, or the connection ends. -/
theorem fetchStep_cases (halive : r.primary.crashed = false) {ch : Nat} {wire : List (Op V)} {b : Subscriber V}
    (hb : r.primary.subs ch = some b) (hs : r.fetchStep crud enc tr ch wire = some r') :
    ∃ op out, b.out = op :: out ∧
      Node.step crud enc r.primary (.read ch) =
        some (r.primary.setSub ch { b with out := out, read := b.read ++ [op] }) ∧
      ∀ op', tr.carry enc op = .ok op' →
        r' = { r with primary := r.primary.setSub ch { b with out := out, read := b.read ++ [op] },
                      phase := .following ch (wire ++ [op']) true } := by
  unfold fetchStep at hs
  rw [hb] at hs
  simp only at hs
  split at hs
  · cases hs
  · rename_i op out hout
    have hread : Node.step crud enc r.primary (.read ch) =
        some (r.primary.setSub ch { b with out := out, read := b.read ++ [op] }) := by
      rw [Node.step_read halive, hb]
      simp [Node.read, hout]
    refine ⟨op, out, hout, hread, fun op' hop => ?_⟩
    rw [hread, hop] at hs
    cases hs
    rfl

end Steps

/-- The primary is written through its own writer only, closes a subscription at most once, and
leaves it to the connection to read the subscription behind it. -/
def Admitted (r : Replica T V) : FollowEvent V → Prop
  | .primary (.apply _ fromLog) => fromLog = false
  | .primary (.loadSnapshot _ _) => False
  | .primary (.close ch) => ∀ b, r.primary.subs ch = some b → b.closed = false
  | .primary (.read ch) => ∀ wire, r.phase ≠ .following ch wire true
  | _ => True

end Replica

end Wig.Crudlog
