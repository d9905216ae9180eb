/-
The gateway node: `Follow` over HTTP, from a primary to a gateway, in any interleaving with the
primary's writes, its other subscribers, broken and refused connections, calls of the host that fail, and
restarts of either process. The gateway keeps nothing but its devices: it starts again at the beginning of
the log, after an orderly stop on a clean host, after a kill among the devices it had.
-/
import Wig.Crudlog.Link
import Wig.Gateway.Sequence
import Wig.Store.Accepted

namespace Wig.Gateway

open Wig.Lib Wig.Net Wig.Model Wig.Crudlog Wig.Store Kernel

/-! ## The system -/

/-- `history` has the primary's database after each of its committed operations, from the first
state on. -/
structure Deployment where
  primary : Node Tables Value
  gateway : Gateway
  phase : Phase Value
  history : List (Database Tables)

namespace Deployment

inductive Event where
  /-- An event of the primary: a write, the server's side of a subscription, or another subscriber. -/
  | primary (e : Crudlog.Event Value)
  /-- The primary is started again on its database: its connections are gone. -/
  | restartPrimary
  /-- `doFollow` starts and asks for the latest sequence. -/
  | start
  | subscribe
  /-- `Subscribe` or `Snapshot` fails on its way: there is no connection, or no answer of the server's. -/
  | refuse (e : Error)
  /-- `Snapshot` and `LoadSnapshot`. -/
  | snapshot
  /-- The next operation leaves the subscription and goes on the wire. -/
  | fetch
  /-- The next operation on the wire is applied. -/
  | deliver
  /-- The connection breaks, and the first `keep` operations on the wire still arrive. -/
  | disconnect (keep : Nat)
  /-- The channel is closed and drained: `doFollow` returns nil and `Follow` calls it again. -/
  | eof
  /-- The calls of the gateway's host fail as `faults` says from here on. -/
  | faults (faults : List Bool)
  /-- The gateway's process ends through `Close`, and is started again. -/
  | stop
  /-- The gateway's process is killed, and is started again. -/
  | kill

/-- A primary on a freshly migrated database, and a gateway on a host without devices. -/
def fresh (validName : String → Bool) (driver : Driver) : Deployment :=
  ⟨Node.start Store.fresh, new (Kernel.host validName driver), .idle, [Database.fresh Tables.empty]⟩

/-- A new process on a host that is left like this. -/
def started (x : Deployment) (k : Kernel) : Deployment := { x with gateway := new k, phase := .idle }

/-- The gateway after `LoadSnapshot` or `Apply`: an error ends `Follow`, a panic ends the process
without `Close`. -/
def returned (x : Deployment) (ok : Deployment → Deployment) : Outcome Error Unit × Gateway → Option Deployment
  | (.ok (), g) => some (ok { x with gateway := g })
  | (.err e, g) => some { x with gateway := g, phase := .stopped e }
  | (.crash, g) => some (x.started g.kernel)
  | (.block, _) => none

variable (stack : Nat) (untyped : Value → Value)

def primaryStep (x : Deployment) (e : Crudlog.Event Value) : Option Deployment :=
  (Node.step (crud stack) encoding x.primary e).map fun n =>
    { x with primary := n, history := x.primary.grown n x.history }

def subscribeStep (x : Deployment) (start : Nat) (restartFromSnapshot : Bool) : Option Deployment :=
  (Node.step (crud stack) encoding x.primary (.subscribe ((start + 1) % 2 ^ 64) true)).map fun n =>
    { x with
      primary := n
      phase :=
        Replica.subscribed restartFromSnapshot (x.primary.store.subscribe encoding ((start + 1) % 2 ^ 64) true).1 }

/-- `Snapshot` waits for the lock while an `Apply` of the primary is in progress. -/
def snapshotStep (x : Deployment) : Option Deployment :=
  if x.primary.emission.isSome then none
  else match x.primary.store.snapshot (crud stack) with
  | .ok snap =>
    x.returned (fun x => { x with phase := .starting snap.seq false })
      (loadSnapshot ((Transport.http untyped).carrySnapshot snap) x.gateway)
  | .err e => some { x with phase := .stopped e }
  | .crash => none
  | .block => none

/-- An operation that cannot be written or read back ends the connection. -/
def fetchStep (x : Deployment) (ch : Nat) (wire : List (Op Value)) : Option Deployment :=
  match x.primary.subs ch with
  | none => none
  | some b =>
    match b.out with
    | [] => none
    | op :: _ =>
      (Node.step (crud stack) encoding x.primary (.read ch)).map fun n =>
        { x with
          primary := n
          phase := match (Transport.http untyped).carry encoding op with
            | .ok op' => .following ch (wire ++ [op']) true
            | .error _ => .following ch wire false }

def step (x : Deployment) (e : Event) : Option Deployment :=
  match e, x.phase with
  | .primary e, _ => x.primaryStep stack e
  | .restartPrimary, phase =>
    some { x with primary := Node.start (Datastore.wrap x.primary.store.db), phase := phase.hangUp }
  | .start, .idle => some { x with phase := .starting x.gateway.latestSequence true }
  | .subscribe, .starting start restartFromSnapshot => x.subscribeStep stack start restartFromSnapshot
  | .refuse e, .starting _ restartFromSnapshot =>
    some { x with phase := Replica.subscribed restartFromSnapshot (.err e) }
  | .refuse e, .snapshotting => some { x with phase := .stopped e }
  | .snapshot, .snapshotting => x.snapshotStep stack untyped
  | .fetch, .following ch wire true => x.fetchStep stack untyped ch wire
  | .deliver, .following ch (op :: wire) up =>
    x.returned (fun x => { x with phase := .following ch wire up }) (apply op true x.gateway)
  | .disconnect keep, .following ch wire true => some { x with phase := .following ch (wire.take keep) false }
  | .eof, .following _ [] false => some { x with phase := .idle }
  | .faults faults, _ =>
    some { x with gateway := { x.gateway with kernel := { x.gateway.kernel with faults := faults } } }
  | .stop, _ => some (x.started (closeAllInterfaces x.gateway.intfs.rows x.gateway.kernel).2)
  | .kill, _ => some (x.started x.gateway.kernel)
  | _, _ => none

def system : System Deployment Event := ⟨step stack untyped⟩

/-- The primary is written through its own writer, and every commit succeeds; it closes a subscription
at most once, leaves it to the connection to read the subscription behind it, and is not stopped in the
middle of an `Apply`. -/
def Admitted (x : Deployment) : Event → Prop
  | .primary (.apply op fromLog) => fromLog = false ∧ ∃ (c : Call Value) (now : Time), op = c.newOp now
  | .primary (.commit ok) => ok = true
  | .primary (.loadSnapshot _ _) => False
  | .primary (.subscribe _ commit) => commit = true
  | .primary (.close ch) => ∀ b, x.primary.subs ch = some b → b.closed = false
  | .primary (.read ch) => ∀ wire, x.phase ≠ .following ch wire true
  | .restartPrimary => x.primary.emission = none
  | .refuse e => e ≠ .horizon
  | _ => True

/-- The primary's databases after each of its operations, that of an `Apply` in progress being the last. -/
def operations (x : Deployment) : List (Database Tables) := x.primary.known x.history

/-- A write to the primary, while nobody is subscribed. -/
def writing (c : Call Value) : List Event := [.primary (.apply (c.newOp Time.zero) false), .primary (.commit true)]

/-- An operation goes through the subscription and over the wire to the gateway. -/
def round (ch : Nat) : List Event := [.primary (.forward ch), .fetch, .deliver]

/-! ## The link to the primary -/

/-- The link as it would be with a datastore in the gateway's place. -/
def link (x : Deployment) (s : Datastore Tables Value) : Replica Tables Value :=
  ⟨x.primary, s, x.phase, x.history, false, false⟩

def setLink (x : Deployment) (r : Replica Tables Value) : Deployment :=
  { x with primary := r.primary, phase := r.phase, history := r.history }

variable {stack untyped} {x : Deployment}

theorem subscribeStep_eq (s : Datastore Tables Value) (start : Nat) (restart : Bool) :
    x.subscribeStep stack start restart =
      ((x.link s).subscribeStep (crud stack) encoding start restart true).map x.setLink := by
  unfold subscribeStep Replica.subscribeStep
  rw [Option.map_map]
  rfl

theorem fetchStep_eq (s : Datastore Tables Value) (ch : Nat) (wire : List (Op Value)) :
    x.fetchStep stack untyped ch wire =
      ((x.link s).fetchStep (crud stack) encoding (.http untyped) ch wire).map x.setLink := by
  have hp : (x.link s).primary = x.primary := rfl
  unfold fetchStep Replica.fetchStep
  rw [hp]
  cases x.primary.subs ch with
  | none => rfl
  | some b =>
    cases hout : b.out with
    | nil => simp only [hout, Option.map_none]
    | cons op out =>
      simp only [hout, Option.map_map]
      cases (Transport.http untyped).carry encoding op <;> rfl

/-! ## The invariant of the link -/

/-- What has arrived are the rows after the first `f`, decoded. -/
def Arrived (rows : List OpSerialized) (f : Nat) (wire : List (Op Value)) : Prop :=
  ∀ (i : Nat) op, wire[i]? = some op → ∃ row, rows[f + i]? = some row ∧ row.decode encoding = .ok op

section Arrived

variable {rows : List OpSerialized} {f : Nat} {wire : List (Op Value)}

theorem Arrived.nil (rows : List OpSerialized) (f : Nat) : Arrived rows f [] := fun i op h => by simp at h

theorem Arrived.extend (h : Arrived rows f wire) (more : List OpSerialized) : Arrived (rows ++ more) f wire := by
  intro i op hop
  obtain ⟨row, hrow, hdec⟩ := h i op hop
  exact ⟨row, by rw [List.getElem?_append_left (List.getElem?_eq_some_iff.1 hrow).1, hrow], hdec⟩

theorem Arrived.take (h : Arrived rows f wire) (keep : Nat) : Arrived rows f (wire.take keep) := by
  intro i op hop
  rw [List.getElem?_take] at hop
  split at hop
  · exact h i op hop
  · cases hop

theorem Arrived.concat (h : Arrived rows f wire) {row : OpSerialized} {op : Op Value}
    (hrow : rows[f + wire.length]? = some row) (hdec : row.decode encoding = .ok op) :
    Arrived rows f (wire ++ [op]) := by
  intro i op' hop
  rw [List.getElem?_append] at hop
  split at hop
  · exact h i op' hop
  · rename_i hge
    have hi : i = wire.length := by
      have := (List.getElem?_eq_some_iff.1 hop).1
      rw [List.length_singleton] at this
      omega
    subst hi
    rw [Nat.sub_self, List.getElem?_cons_zero, Option.some.injEq] at hop
    subst hop
    exact ⟨row, hrow, hdec⟩

theorem Arrived.head {op : Op Value} (h : Arrived rows f (op :: wire)) :
    ∃ row, rows[f]? = some row ∧ row.decode encoding = .ok op :=
  h 0 op rfl

theorem Arrived.tail {op : Op Value} (h : Arrived rows f (op :: wire)) : Arrived rows (f + 1) wire := by
  intro i op' hop
  obtain ⟨row, hrow, hdec⟩ := h (i + 1) op' hop
  exact ⟨row, by rw [show f + 1 + i = f + (i + 1) by omega]; exact hrow, hdec⟩

end Arrived

/-- `doFollow` goes on from the gateway's number, and is not sent back to a snapshot. -/
def Runs (rows : List OpSerialized) (n : Node Tables Value) (f : Nat) : Phase Value → Prop
  | .idle => True
  | .starting start _ => start = f
  | .snapshotting => False
  | .following ch wire up => Feed encoding rows n f ch wire up ∧ Arrived rows f wire
  | .stopped _ => True

namespace Runs

variable {rows rows' : List OpSerialized} {n n' : Node Tables Value} {f : Nat} {phase : Phase Value}

theorem continues (h : Runs rows n f phase) : phase.Continues encoding rows n f := by
  cases phase with
  | following ch wire up => exact h.1
  | starting start restart => exact h
  | _ => trivial

/-- The primary has news, and the link goes on as before. -/
theorem congr (h : Runs rows n f phase) (hc : phase.Continues encoding rows' n' f)
    (ha : ∀ wire, Arrived rows f wire → Arrived rows' f wire) : Runs rows' n' f phase := by
  cases phase with
  | following ch wire up => exact ⟨hc, ha wire h.2⟩
  | snapshotting => exact h
  | starting start restart => exact h
  | _ => trivial

theorem hangUp (h : Runs rows n f phase) : Runs rows n' f phase.hangUp := by
  cases phase with
  | following ch wire up => exact ⟨⟨h.1.arriving, fun hup => by cases hup⟩, h.2⟩
  | _ => exact h

end Runs

/-- The gateway has no number that the primary does not have, and what it is sent goes on from there. -/
structure Fed (stack : Nat) (x : Deployment) : Prop where
  origin : x.primary.Origin (crud stack) encoding Tables.empty (fun _ => True) x.history
  le : x.gateway.seq ≤ x.primary.ahead.sequence
  runs : Runs x.primary.ahead.log.rows x.primary x.gateway.seq x.phase

/-- What an event can do. -/
inductive Stepped (stack : Nat) (x : Deployment) : Event → Deployment → Prop where
  /-- The link moves, or the primary goes on with what it has begun. -/
  | moved (e : Event) (x' : Deployment) (ho : x'.operations = x.operations) (ha : x'.primary.ahead = x.primary.ahead)
      (hg : x'.gateway = x.gateway) : Stepped stack x e x'
  /-- The primary begins its next operation. -/
  | wrote (op : Op Value) (row : OpSerialized) (x' : Deployment) (hm : x.primary.emission = none)
      (hr : Database.Recorded (crud stack) encoding (op.assign false x.primary.ahead) row
        x.primary.ahead x'.primary.ahead)
      (ho : x'.operations = x.operations ++ [x'.primary.ahead]) (hg : x'.gateway = x.gateway) :
      Stepped stack x (.primary (.apply op false)) x'
  /-- The gateway is given the operation of its next row. -/
  | delivered (op : Op Value) (row : OpSerialized) (ch : Nat) (wire : List (Op Value)) (up : Bool) (x' : Deployment)
      (hph : x.phase = .following ch (op :: wire) up) (hrow : x.primary.ahead.log.rows[x.gateway.seq]? = some row)
      (hdec : row.decode encoding = .ok op)
      (hs : x.returned (fun x => { x with phase := .following ch wire up }) (apply op true x.gateway) = some x') :
      Stepped stack x .deliver x'
  | faulted (faults : List Bool) : Stepped stack x (.faults faults)
      { x with gateway := { x.gateway with kernel := { x.gateway.kernel with faults := faults } } }
  | stopped : Stepped stack x .stop (x.started (closeAllInterfaces x.gateway.intfs.rows x.gateway.kernel).2)
  | killed : Stepped stack x .kill (x.started x.gateway.kernel)

namespace Fed

theorem fresh (stack : Nat) (validName : String → Bool) (driver : Driver) :
    (Deployment.fresh validName driver).Fed stack :=
  ⟨.fresh (crud stack) encoding trivial, Nat.zero_le _, trivial⟩

theorem length_rows (h : x.Fed stack) : x.primary.ahead.log.rows.length = x.primary.ahead.sequence :=
  h.origin.timeline.integral.length_rows

/-- The database that the primary had at the gateway's number. -/
theorem behind (h : x.Fed stack) : ∃ y, x.operations[x.gateway.seq]? = some y ∧ y.sequence = x.gateway.seq := by
  have hlen : x.operations.length = x.primary.ahead.sequence + 1 := h.origin.timeline.history.length
  have hle := h.le
  have hy : x.operations[x.gateway.seq]? = some _ := List.getElem?_eq_getElem (by omega)
  exact ⟨_, hy, (h.origin.timeline.history.prefixes _ _ hy).1⟩

/-- A datastore in the gateway's place would be linked. -/
theorem link (h : x.Fed stack) : ∃ y : Database Tables, y.sequence = x.gateway.seq ∧
    Link encoding x.operations x.primary.ahead.log.rows (x.link (Datastore.wrap y)) := by
  obtain ⟨y, hy, hseq⟩ := h.behind
  refine ⟨y, hseq, h.origin.source, .new, .new, ⟨y, ?_, rfl⟩, ?_⟩
  · show x.operations[y.sequence]? = some y
    rw [hseq]; exact hy
  · show x.phase.Continues encoding x.primary.ahead.log.rows x.primary y.sequence
    rw [hseq]; exact h.runs.continues

/-- What an event of the link leaves that does not touch the gateway. -/
theorem linked (h : x.Fed stack) {y : Database Tables} {e : FollowEvent Value} {r : Replica Tables Value}
    (hst : Link.Stepped (crud stack) encoding x.operations x.primary.ahead.log.rows e (x.link (Datastore.wrap y)) r)
    (hr : Runs x.primary.ahead.log.rows r.primary x.gateway.seq r.phase) (e' : Event) :
    (x.setLink r).Fed stack ∧ Stepped stack x e' (x.setLink r) := by
  obtain ⟨horigin, hknown, hahead⟩ := h.origin.served hst.source hst.db hst.emission
  have hhist : r.history = x.history := hst.history
  have hset : x.setLink r = { x with primary := r.primary, phase := r.phase } := by unfold setLink; rw [hhist]
  rw [hset]
  refine ⟨⟨horigin, ?_, ?_⟩, .moved e' _ hknown hahead rfl⟩
  · show x.gateway.seq ≤ r.primary.ahead.sequence
    rw [hahead]
    exact h.le
  · show Runs r.primary.ahead.log.rows r.primary x.gateway.seq r.phase
    rw [hahead]
    exact hr

/-- An event of the primary: its history goes on, and the gateway is sent what is emitted. -/
theorem primary (h : x.Fed stack) {e : Crudlog.Event Value} (he : x.primary.PrimaryEvent e)
    (hread : ∀ ch wire, e = .read ch → x.phase ≠ .following ch wire true) {x' : Deployment}
    (hs : x.primaryStep stack e = some x') : x'.Fed stack ∧ Stepped stack x (.primary e) x' := by
  have hR := model_replayable stack
  obtain ⟨n, hn, rfl⟩ := Option.map_eq_some_iff.1 hs
  have hst := h.origin.stepped hn
  have horigin := h.origin.step hR (fun _ _ _ _ _ => trivial) he hn
  obtain ⟨hist', rows', -, hrows⟩ := h.origin.grows he hst
  have hlen := horigin.timeline.integral.length_rows
  have hlen' := h.length_rows
  have hle := h.le
  rw [hrows, List.length_append] at hlen
  refine ⟨⟨horigin, by show x.gateway.seq ≤ n.ahead.sequence; omega, ?_⟩, ?_⟩
  · refine h.runs.congr ?_ fun wire ha => hrows ▸ ha.extend rows'
    have hc := h.runs.continues
    show x.phase.Continues encoding n.ahead.log.rows n x.gateway.seq
    cases hph : x.phase with
    | following ch wire up =>
      rw [hph] at hc
      refine h.origin.feed hR he hn ?_ hc
      rintro rfl rfl
      exact hread ch wire rfl hph
    | starting start restart => rw [hph] at hc; exact hc
    | _ => trivial
  · rcases hst.known he h.origin.writing h.origin.next x.history with ⟨hk, ha⟩ | ⟨op, row, rfl, hm, hr, hk⟩
    · exact .moved _ _ hk ha rfl
    · exact .wrote op row _ hm hr hk rfl

/-- Every row of the log can be read back. -/
theorem queryLogSince_ok (h : x.Fed stack) {start : Nat} (hs : start < 2 ^ 63) :
    ∃ preload, x.primary.store.db.queryLogSince encoding start = .ok preload := by
  obtain ⟨ops, ho, -⟩ := mapM_decode (model_replayable stack) (x.primary.store.db.rowsSince start) fun row hr =>
    h.origin.integral.encoded row (List.mem_filter.1 (List.mem_insertionSort _ |>.1 hr)).1
  exact ⟨ops, by unfold Database.queryLogSince; rw [if_pos hs, ho]⟩

/-- Where a subscription from the gateway's number leads, with no `Apply` in progress. -/
theorem subscribing (h : x.Fed stack) (hm : x.primary.emission = none) (restart : Bool) :
    (∃ e, Replica.subscribed restart (x.primary.store.subscribe encoding (x.gateway.seq + 1) true).1 = .stopped e) ∨
      ∃ ch, Replica.subscribed restart (x.primary.store.subscribe encoding (x.gateway.seq + 1) true).1 =
        .following ch [] true := by
  have hle := h.le
  rw [Node.ahead_of_none hm] at hle
  have hcase := Datastore.subscribe_cases encoding (x.gateway.seq + 1) true x.primary.store
  revert hcase
  generalize x.primary.store.subscribe encoding (x.gateway.seq + 1) true = o
  rintro (hh | ⟨e, -, hq⟩ | ⟨preload, -, -, -⟩ | ⟨preload, -, -, hf⟩)
  · omega
  · -- only a number that the driver does not take is refused
    have hne : ¬ (e = .horizon ∧ restart = true) := by
      rintro ⟨rfl, -⟩
      by_cases hlt : x.gateway.seq + 1 < 2 ^ 63
      · obtain ⟨preload, hok⟩ := h.queryLogSince_ok hlt
        rw [hok] at hq
        cases hq
      · unfold Database.queryLogSince at hq
        rw [if_neg hlt] at hq
        cases hq
    exact .inl ⟨e, if_neg hne⟩
  · exact .inr ⟨_, rfl⟩
  · cases hf

/-- The gateway is never ahead of the primary, so that a subscription is never sent back to a snapshot. -/
theorem subscribed (h : x.Fed stack) {start : Nat} {restart : Bool} (hph : x.phase = .starting start restart)
    {x' : Deployment} (hs : x.subscribeStep stack start restart = some x') :
    x'.Fed stack ∧ Stepped stack x .subscribe x' := by
  obtain ⟨y, hseq, hlink⟩ := h.link
  have hstart : start = x.gateway.seq := by
    have hr := h.runs
    rw [hph] at hr
    exact hr
  have hle := h.le
  have hlt := x.primary.ahead.sequence_lt
  have hmod : (start + 1) % 2 ^ 64 = x.gateway.seq + 1 := by omega
  have hnone : x.primary.emission = none := by
    obtain ⟨n, hn, -⟩ := Option.map_eq_some_iff.1 hs
    exact (Node.step_subscribe_some hn).2
  rw [subscribeStep_eq (Datastore.wrap y)] at hs
  obtain ⟨r, hr, rfl⟩ := Option.map_eq_some_iff.1 hs
  have hst := hlink.subscribeStep (model_replayable stack) h.origin.timeline hph (h.origin.reachesBack _) hr
  obtain ⟨n, -, rfl⟩ := Option.map_eq_some_iff.1 hr
  have hc : (Replica.subscribed restart
      (x.primary.store.subscribe encoding ((start + 1) % 2 ^ 64) true).1).Continues encoding x.primary.ahead.log.rows n
      y.sequence := hst.linked.continues
  rw [hmod, hseq] at hc
  refine h.linked hst ?_ _
  show Runs _ n _ (Replica.subscribed restart (x.primary.store.subscribe encoding ((start + 1) % 2 ^ 64) true).1)
  rw [hmod]
  rcases h.subscribing hnone restart with ⟨e, heq⟩ | ⟨ch, heq⟩ <;> rw [heq] at hc ⊢
  · trivial
  · exact ⟨hc, .nil _ _⟩

theorem fetched (h : x.Fed stack) {ch : Nat} {wire : List (Op Value)} (hph : x.phase = .following ch wire true)
    {x' : Deployment} (hs : x.fetchStep stack untyped ch wire = some x') :
    x'.Fed stack ∧ Stepped stack x .fetch x' := by
  have hR := model_replayable stack
  obtain ⟨y, hseq, hlink⟩ := h.link
  have hrun := h.runs
  rw [hph] at hrun
  obtain ⟨hfeed, harr⟩ := hrun
  obtain ⟨b, hb, hseg, -⟩ := hfeed.reader rfl
  rw [fetchStep_eq (Datastore.wrap y)] at hs
  obtain ⟨r, hr, rfl⟩ := Option.map_eq_some_iff.1 hs
  have hst := hlink.fetchStep hR h.origin.timeline hph hr
  obtain ⟨op, out, hout, -, hr'⟩ := Replica.fetchStep_cases (r := x.link (Datastore.wrap y)) h.origin.source.alive hb hr
  -- what arrives of the next operation is its row, decoded
  rw [Node.pending, hout] at hseg
  obtain ⟨⟨row, hrow, ho⟩, -⟩ := hseg
  obtain ⟨op', hcarry, hdec⟩ := h.origin.timeline.arrives hR untyped hrow ho
  have hc := hst.linked.continues
  refine h.linked hst ?_ _
  rw [hr' op' hcarry] at hc ⊢
  refine ⟨?_, harr.concat hrow hdec⟩
  rw [← hseq]
  exact hc

/-- A gateway that is started again asks for everything. -/
theorem started (h : x.Fed stack) (k : Kernel) : (x.started k).Fed stack := ⟨h.origin, Nat.zero_le _, trivial⟩

/-- The operation on top of the wire is the one of the gateway's next row. -/
theorem next (h : x.Fed stack) {ch : Nat} {op : Op Value} {wire : List (Op Value)} {up : Bool}
    (hph : x.phase = .following ch (op :: wire) up) :
    ∃ row, x.primary.ahead.log.rows[x.gateway.seq]? = some row ∧ row.decode encoding = .ok op ∧
      op.seq = x.gateway.seq + 1 := by
  have hrun := h.runs
  rw [hph] at hrun
  obtain ⟨row, hrow, hdec⟩ := hrun.2.head
  exact ⟨row, hrow, hdec, (Database.decode_seq hdec).symm.trans (h.origin.timeline.seq_eq hrow)⟩

theorem delivered (h : x.Fed stack) {ch : Nat} {op : Op Value} {wire : List (Op Value)} {up : Bool}
    (hph : x.phase = .following ch (op :: wire) up) {x' : Deployment}
    (hs : x.returned (fun x => { x with phase := .following ch wire up }) (apply op true x.gateway) = some x') :
    x'.Fed stack := by
  obtain ⟨row, hrow, -, hopseq⟩ := h.next hph
  have hrun := h.runs
  rw [hph] at hrun
  obtain ⟨hfeed, harr⟩ := hrun
  have hlt := (List.getElem?_eq_some_iff.1 hrow).1
  have hlen := h.length_rows
  rcases ho : apply op true x.gateway with ⟨(_ | e | _ | _), g'⟩ <;> rw [ho] at hs <;> cases hs
  · have hseq : g'.seq = x.gateway.seq + 1 := ((apply_seq op true x.gateway g').1 ho).trans hopseq
    refine ⟨h.origin, by show g'.seq ≤ x.primary.ahead.sequence; omega, ?_⟩
    show Runs _ _ g'.seq _
    rw [hseq]
    exact ⟨hfeed.delivered.2, harr.tail⟩
  · have hseq : g'.seq = x.gateway.seq := (apply_seq op true x.gateway g').2 e ho
    exact ⟨h.origin, by show g'.seq ≤ _; rw [hseq]; exact h.le, trivial⟩
  · exact h.started g'.kernel

/-- The primary is started again, with no `Apply` in progress. -/
theorem restarted (h : x.Fed stack) (hm : x.primary.emission = none) :
    Fed stack { x with primary := Node.start (Datastore.wrap x.primary.store.db), phase := x.phase.hangUp } ∧
      Stepped stack x .restartPrimary
        { x with primary := Node.start (Datastore.wrap x.primary.store.db), phase := x.phase.hangUp } := by
  have hahead : (Node.start (Datastore.wrap x.primary.store.db) : Node Tables Value).ahead = x.primary.ahead :=
    (Node.ahead_of_none rfl).trans (Node.ahead_of_none hm).symm
  have hknown : (Node.start (Datastore.wrap x.primary.store.db) : Node Tables Value).known x.history = x.operations :=
    (Node.known_of_none rfl _).trans (Node.known_of_none hm _).symm
  refine ⟨⟨h.origin.restart hm, ?_, ?_⟩, .moved _ _ hknown hahead rfl⟩
  · show x.gateway.seq ≤ (Node.start (Datastore.wrap x.primary.store.db) : Node Tables Value).ahead.sequence
    rw [hahead]
    exact h.le
  · show Runs (Node.start (Datastore.wrap x.primary.store.db) : Node Tables Value).ahead.log.rows _ _ _
    rw [hahead]
    exact h.runs.hangUp

theorem primaryEvent {e : Crudlog.Event Value} (ha : x.Admitted (.primary e)) :
    x.primary.PrimaryEvent e ∧ ∀ ch wire, e = .read ch → x.phase ≠ .following ch wire true := by
  cases e with
  | apply op fromLog => exact ⟨ha.1, fun _ _ he => by cases he⟩
  | send => exact ⟨trivial, fun _ _ he => by cases he⟩
  | commit ok => exact ⟨ha, fun _ _ he => by cases he⟩
  | loadSnapshot snap commit => exact ha.elim
  | subscribe start commit => exact ⟨ha, fun _ _ he => by cases he⟩
  | forward ch => exact ⟨trivial, fun _ _ he => by cases he⟩
  | read ch => exact ⟨trivial, fun _ wire he => by cases he; exact ha wire⟩
  | close ch => exact ⟨ha, fun _ _ he => by cases he⟩

theorem step (h : x.Fed stack) {e : Event} (ha : x.Admitted e) {x' : Deployment}
    (hs : Deployment.step stack untyped x e = some x') : x'.Fed stack ∧ Stepped stack x e x' := by
  unfold Deployment.step at hs
  split at hs
  · obtain ⟨he, hread⟩ := primaryEvent ha
    exact h.primary he hread hs
  · cases hs
    exact h.restarted ha
  · cases hs
    exact ⟨⟨h.origin, h.le, rfl⟩, .moved _ _ rfl rfl rfl⟩
  · rename_i hph
    exact h.subscribed hph hs
  · rename_i e _ restart hph
    cases hs
    have hstop : Replica.subscribed (V := Value) restart (.err e) = .stopped e := if_neg fun hh => ha hh.1
    rw [hstop]
    exact ⟨⟨h.origin, h.le, trivial⟩, .moved _ _ rfl rfl rfl⟩
  · cases hs
    exact ⟨⟨h.origin, h.le, trivial⟩, .moved _ _ rfl rfl rfl⟩
  · rename_i hph
    have hr := h.runs
    rw [hph] at hr
    exact hr.elim
  · rename_i hph
    exact h.fetched hph hs
  · rename_i ch op wire up hph
    obtain ⟨row, hrow, hdec, -⟩ := h.next hph
    exact ⟨h.delivered hph hs, .delivered op row ch wire up x' hph hrow hdec hs⟩
  · rename_i keep ch wire hph
    cases hs
    have hr := h.runs
    rw [hph] at hr
    exact ⟨⟨h.origin, h.le, hr.1.down keep, hr.2.take keep⟩, .moved _ _ rfl rfl rfl⟩
  · cases hs
    exact ⟨⟨h.origin, h.le, trivial⟩, .moved _ _ rfl rfl rfl⟩
  · cases hs
    exact ⟨⟨h.origin, h.le, h.runs⟩, .faulted _⟩
  · cases hs
    exact ⟨h.started _, .stopped⟩
  · cases hs
    exact ⟨h.started _, .killed⟩
  · cases hs

end Fed

end Deployment

end Wig.Gateway
