/-
The stream a subscription delivers from a primary: the preload taken in the transaction that also
registers the live channel, and then the channel, are together the rows of the log from the starting
number on, in order, and at last the row of an `Apply` that has not committed yet. The invariant of a run
is that what was read, followed by what is on its way, is exactly the rows that the channel has been told
of, or a first part of them once the subscription is closed.
-/
import Wig.Lib.Collect
import Wig.Crudlog.Integrity
import Wig.Crudlog.Node

namespace Wig.Crudlog

open Wig.Lib Wig.Crud

variable {T V : Type} {crud : CRUD T V} {enc : Encoding V} {t₀ : T}

/-! ## Operations and rows -/

/-- The operations are written as the rows. -/
def Encodes (enc : Encoding V) : List (Op V) → List OpSerialized → Prop :=
  List.Forall₂ fun op row => op.serialize enc = .ok row

theorem Encodes.append {ops ops' : List (Op V)} {rows rows' : List OpSerialized} (h : Encodes enc ops rows)
    (h' : Encodes enc ops' rows') : Encodes enc (ops ++ ops') (rows ++ rows') := List.rel_append h h'

theorem Encodes.concat {ops : List (Op V)} {rows : List OpSerialized} {op : Op V} {row : OpSerialized}
    (h : Encodes enc ops rows) (hr : op.serialize enc = .ok row) : Encodes enc (ops ++ [op]) (rows ++ [row]) :=
  h.append (.cons hr .nil)

theorem Encodes.map_seq {ops : List (Op V)} {rows : List OpSerialized} (h : Encodes enc ops rows) :
    ops.map Op.seq = rows.map OpSerialized.seq :=
  map_eq_of_forall₂ (fun _ _ hr => (Op.serialize_eq_ok hr).2.1.symm) h

/-- A first part of the operations is written as a first part of the rows. -/
theorem Encodes.of_append {ops ops' : List (Op V)} {rows : List OpSerialized} (h : Encodes enc (ops ++ ops') rows) :
    Encodes enc ops (rows.take ops.length) ∧ Encodes enc ops' (rows.drop ops.length) := by
  refine ⟨?_, ?_⟩
  · have := List.forall₂_take ops.length h
    rwa [List.take_left] at this
  · have := List.forall₂_drop ops.length h
    rwa [List.drop_left] at this

theorem mapM_decode (hR : Replayable crud enc) (rows : List OpSerialized)
    (h : ∀ row ∈ rows, ∃ op : Op V, op.serialize enc = .ok row) :
    ∃ ops, rows.mapM (OpSerialized.decode enc) = .ok ops ∧ Encodes enc ops rows := by
  have hback : ∀ row ∈ rows, ∃ op' : Op V, row.decode enc = .ok op' ∧ op'.serialize enc = .ok row := by
    intro row hr
    obtain ⟨op, hop⟩ := h row hr
    obtain ⟨op', hd, hs, -, -⟩ := hR.decode_serialize hop
    exact ⟨op', hd, hs⟩
  obtain ⟨ops, ho, he⟩ := exists_mapM_forall₂ hback
  exact ⟨ops, ho, he.flip⟩

/-! ## The preload -/

/-- The rows of the log from a number on. -/
def Database.since (d : Database T) (start : Nat) : List OpSerialized :=
  d.log.rows.filter fun r => decide (start ≤ r.seq)

namespace Database

theorem filter_numbered (start : Nat) : ∀ (rows : List OpSerialized) (a n : Nat),
    rows.map OpSerialized.seq = List.range' a n →
      rows.filter (fun r => decide (start ≤ r.seq)) = rows.drop (start - a)
  | [], _, _, _ => by simp
  | r :: rows, a, 0, h => by simp at h
  | r :: rows, a, n + 1, h => by
    rw [List.map_cons, List.range'_succ, List.cons.injEq] at h
    obtain ⟨ha, htl⟩ := h
    have ih := filter_numbered start rows (a + 1) n htl
    by_cases hs : start ≤ a
    · rw [List.filter_cons_of_pos (by simpa [ha] using hs), ih, show start - (a + 1) = 0 by omega,
        show start - a = 0 by omega, List.drop_zero, List.drop_zero]
    · rw [List.filter_cons_of_neg (by simpa [ha] using hs), ih, show start - a = (start - (a + 1)) + 1 by omega,
        List.drop_succ_cons]

namespace Integral

variable {d : Database T}

theorem since_eq (h : Integral crud enc t₀ d) (start : Nat) : d.since start = d.log.rows.drop (start - 1) :=
  filter_numbered start _ _ _ h.numbered

theorem map_seq_since (h : Integral crud enc t₀ d) (start : Nat) :
    (d.since start).map OpSerialized.seq = List.range' (max start 1) (d.sequence - (start - 1)) := by
  rw [h.since_eq, List.map_drop, h.numbered, List.drop_range', Nat.mul_one]
  congr 1
  omega

theorem rowsSince_eq (h : Integral crud enc t₀ d) (start : Nat) : d.rowsSince start = d.since start := by
  apply List.Pairwise.insertionSort_eq
  have hp : ((d.since start).map OpSerialized.seq).Pairwise (· ≤ ·) := by
    rw [h.map_seq_since]
    exact (List.pairwise_lt_range' (s := max start 1) (n := d.sequence - (start - 1))).imp Nat.le_of_lt
  exact List.pairwise_map.1 hp

/-- The preload is the rows from the starting number on. -/
theorem query_encodes (hR : Replayable crud enc) (h : Integral crud enc t₀ d) {start : Nat} {preload : List (Op V)}
    (hq : d.queryLogSince enc start = .ok preload) : Encodes enc preload (d.since start) := by
  unfold queryLogSince at hq
  split at hq
  · rw [h.rowsSince_eq] at hq
    obtain ⟨ops, ho, he⟩ := mapM_decode hR (d.since start) fun row hr => h.encoded row (List.mem_filter.1 hr).1
    rw [ho] at hq; cases hq
    exact he
  · cases hq

theorem query_ok (hR : Replayable crud enc) (h : Integral crud enc t₀ d) {start : Nat} (hs : start < 2 ^ 63) :
    ∃ preload, d.queryLogSince enc start = .ok preload := by
  obtain ⟨ops, ho, -⟩ := mapM_decode hR (d.since start) fun row hr => h.encoded row (List.mem_filter.1 hr).1
  refine ⟨ops, ?_⟩
  unfold queryLogSince
  rw [if_pos hs, h.rowsSince_eq, ho]

end Integral

theorem since_recorded {d d' : Database T} {op : Op V} {row : OpSerialized} (hr : Recorded crud enc op row d d')
    {start : Nat} (hs : start ≤ op.seq) : d'.since start = d.since start ++ [row] := by
  have hrow : row.seq = op.seq := (Op.serialize_eq_ok hr.serialized).2.1
  unfold since
  rw [hr.rows, List.filter_append, List.filter_singleton, hrow, decide_eq_true hs]
  rfl

end Database

/-! ## The invariant of a primary -/

namespace Node

/-- A subscription and the log it reads. -/
structure Streaming (enc : Encoding V) (n : Node T V) (ch : Nat) (b : Subscriber V) : Prop where
  lt : ch < n.store.pubsub.next
  start_le : b.start ≤ n.store.db.sequence + 1
  registered : ch ∈ n.store.pubsub.subscribers ↔ b.closed = false
  stream : ∃ rows, Encodes enc (b.read ++ n.pending ch b) rows ∧ rows <+: (n.told ch).since b.start ∧
    (b.closed = false → rows = (n.told ch).since b.start)

/-- A primary: written through its own writer only, with every commit succeeding and every
subscription closed at most once. -/
structure Primary (crud : CRUD T V) (enc : Encoding V) (t₀ : T) (n : Node T V) : Prop where
  alive : n.crashed = false
  integral : n.store.db.Integral crud enc t₀
  writing : n.Writing crud enc
  next : ∀ m, n.emission = some m → m.op.seq = n.store.db.sequence + 1
  live : n.store.pubsub.Live
  pending : n.store.pubsub.Pending
  unsent : n.Unsent
  streaming : ∀ ch b, n.subs ch = some b → n.Streaming enc ch b

/-- The events of a primary. -/
def PrimaryEvent (n : Node T V) : Event V → Prop
  | .apply _ fromLog => fromLog = false
  | .send => True
  | .commit ok => ok = true
  | .loadSnapshot _ _ => False
  | .subscribe _ commit => commit = true
  | .forward _ => True
  | .read _ => True
  | .close ch => ∀ b, n.subs ch = some b → b.closed = false

theorem Moved.pending {n n' : Node T V} {ch : Nat} {b b' : Subscriber V} (h : Moved n n' ch b b')
    (hq : n.store.pubsub.Pending) : n'.store.pubsub.Pending := by
  refine ⟨by rw [h.toClose]; exact hq.nodup, ?_⟩
  intro c hc
  rw [h.closed_eq]
  exact hq.opened c (h.toClose ▸ hc)

theorem pending_eq_of_buf {n n' : Node T V} {ch : Nat} (b : Subscriber V)
    (h : (n'.store.pubsub.chan ch).buf = (n.store.pubsub.chan ch).buf) : n'.pending ch b = n.pending ch b := by
  unfold Node.pending; rw [h]

/-- A send adds the operation to what is on its way to one subscription. -/
theorem pending_sending {n n' : Node T V} {op : Op V} {c : Nat}
    (h : n'.store.pubsub = n.store.pubsub.sending op [c]) (ch : Nat)
    (b : Subscriber V) : n'.pending ch b = if ch = c then n.pending ch b ++ [op] else n.pending ch b := by
  unfold Node.pending
  rw [h]
  by_cases hc : ch = c
  · subst hc; simp [Pubsub.sending]
  · simp [Pubsub.sending, hc]

/-- A running process whose channels are in order: every subscription has its own, which is
registered until it is closed. -/
structure Wired (n : Node T V) : Prop where
  alive : n.crashed = false
  live : n.store.pubsub.Live
  pending : n.store.pubsub.Pending
  unsent : n.Unsent
  subs : ∀ ch b, n.subs ch = some b → ch < n.store.pubsub.next ∧ (ch ∈ n.store.pubsub.subscribers ↔ b.closed = false)

namespace Wired

variable {n n' : Node T V}

theorem start (d : Database T) : (Node.start (Datastore.wrap d) : Node T V).Wired :=
  ⟨rfl, .new, .new, unsent_of_none rfl, fun _ _ h => by cases h⟩

theorem emitted (h : n.Wired) (hm : n.emission = none) (op : Op V) (d' : Database T) :
    Wired { n with store := ⟨d', n.store.pubsub.emitted op⟩ } :=
  ⟨h.alive, h.live.emitted op, .emitted _ op, unsent_of_none hm, h.subs⟩

theorem setDB (h : n.Wired) (d' : Database T) : Wired { n with store := ⟨d', n.store.pubsub⟩ } :=
  ⟨h.alive, h.live, h.pending, h.unsent, h.subs⟩

theorem subscribed_subs (h : n.Wired) (start : Nat) (preload : List (Op V)) {ch : Nat} {b : Subscriber V}
    (hb : ((n.setPubsub n.store.pubsub.subscribed).setSub n.store.pubsub.next ⟨start, preload, none, [], [],
      false⟩).subs ch = some b) :
    ch < n.store.pubsub.next + 1 ∧ (ch ∈ n.store.pubsub.next :: n.store.pubsub.subscribers ↔ b.closed = false) := by
  by_cases hch : ch = n.store.pubsub.next
  · subst hch
    have hb' : b = ⟨start, preload, none, [], [], false⟩ := by simpa [setSub] using hb.symm
    subst hb'
    exact ⟨Nat.lt_succ_self _, fun _ => rfl, fun _ => List.mem_cons_self⟩
  · obtain ⟨hlt, hreg⟩ := h.subs ch b (by simpa [setSub, setPubsub, hch] using hb)
    refine ⟨Nat.lt_succ_of_lt hlt, ?_⟩
    rw [← hreg]
    simp [hch]

theorem moved (h : n.Wired) {ch : Nat} {b b' : Subscriber V} (hb : n.subs ch = some b) (hm : Moved n n' ch b b') :
    n'.Wired := by
  refine ⟨hm.crashed.trans h.alive, hm.live h.live, hm.pending h.pending, ?_, ?_⟩
  · intro m hm'
    rw [hm.subscribers]
    exact h.unsent m (hm.emission ▸ hm')
  · intro c x hx
    rw [hm.subs] at hx
    rw [hm.next, hm.subscribers]
    by_cases hc : c = ch
    · subst hc
      rw [Function.update_self, Option.some.injEq] at hx
      subst hx
      rw [hm.closed]
      exact h.subs c b hb
    · rw [Function.update_of_ne hc] at hx
      exact h.subs c x hx

theorem closed (h : n.Wired) {ch : Nat} {b : Subscriber V} (hb : n.subs ch = some b) (hc : b.closed = false)
    (hu : (n.close ch b).Unsent) : (n.close ch b).Wired := by
  obtain ⟨hlt, hreg⟩ := h.subs ch b hb
  refine ⟨h.alive, h.live.removeSubscriber hlt, h.pending.removeSubscriber h.live (hreg.2 hc), hu, ?_⟩
  intro c x hx
  by_cases hcc : c = ch
  · subst hcc
    have hx' : x = { b with closed := true } := by simpa [Node.close, setSub] using hx.symm
    subst hx'
    exact ⟨hlt, fun hm => absurd rfl (Pubsub.mem_removeSubscriber.1 hm).2, fun hf => by cases hf⟩
  · obtain ⟨hlt', hreg'⟩ := h.subs c x (by simpa [Node.close, setSub, setPubsub, hcc] using hx)
    refine ⟨hlt', ?_⟩
    rw [← hreg']
    show c ∈ (n.store.pubsub.removeSubscriber ch).subscribers ↔ _
    rw [Pubsub.mem_removeSubscriber]
    exact ⟨And.left, fun hm => ⟨hm, hcc⟩⟩

/-- Every event keeps the channels in order, as long as it does not end the process and no subscription
is closed a second time. -/
theorem step (h : n.Wired) {e : Event V} (hst : Stepped crud enc n e n') (halive : n'.crashed = false)
    (hclose : ∀ ch b, e = .close ch → n.subs ch = some b → b.closed = false) : n'.Wired := by
  have hunsent := hst.unsent h.live h.unsent
  cases hst with
  | unchanged => exact h
  | crashed e p hm hp hw => cases halive
  | written op fromLog row d' hm hr => exact ⟨h.alive, h.live.cleared, .cleared _, hunsent, h.subs⟩
  | sent m ch unsent hm hu => exact ⟨h.alive, h.live.sending _ _, h.pending.sending _ _, hunsent, h.subs⟩
  | committed m hm hu => exact ⟨h.alive, h.live, h.pending, hunsent, h.subs⟩
  | lost m hm hu => exact ⟨h.alive, h.live, h.pending, hunsent, h.subs⟩
  | loaded snap commit d' hm hl hq => exact h.setDB d'
  | subscribed start preload hm hle hq =>
    exact ⟨h.alive, h.live.subscribed, h.pending.subscribed h.live, hunsent,
      fun ch b hb => h.subscribed_subs start preload hb⟩
  | leaked start hm =>
    refine ⟨h.alive, h.live.subscribed, h.pending.subscribed h.live, hunsent, fun ch b hb => ?_⟩
    obtain ⟨hlt, hreg⟩ := h.subs ch b hb
    refine ⟨Nat.lt_succ_of_lt hlt, ?_⟩
    rw [← hreg]
    exact List.mem_cons.trans ⟨fun hc => hc.resolve_left (Nat.ne_of_lt hlt), .inr⟩
  | moved e n' ch b b' hb hm hr => exact h.moved hb hm
  | closed ch b hb hu => exact h.closed hb (hclose ch b rfl hb) hunsent

/-- Closing the removed channels and writing on a running node does not end the process. -/
theorem not_crashed (hR : Replayable crud enc) (h : n.Wired) {e : Event V}
    (he : ∀ snap commit, e ≠ .loadSnapshot snap commit) (hst : Stepped crud enc n e n') : n'.crashed = false := by
  cases hst with
  | crashed e p hm hp hw =>
    exfalso
    rcases hw with ⟨snap, commit, rfl⟩ | ⟨op, fromLog, rfl, hw | hw⟩
    · exact he snap commit rfl
    · have hret := Database.record_returned hR (op.assign fromLog n.store.db) n.store.db
      rw [hw] at hret
      exact hret
    · rw [Pubsub.closeRemoved_ok h.pending] at hw
      cases hw
  | moved e n' ch b b' hb hm hr => exact hm.crashed.trans h.alive
  | _ => exact h.alive

/-- What emitting adds to a subscription: the operation if it is open, and nothing once it is closed. -/
theorem pending_emitted (h : n.Wired) {ch : Nat} {b : Subscriber V} (hb : n.subs ch = some b)
    (op : Op V) (d' : Database T) :
    Node.pending { n with store := ⟨d', n.store.pubsub.emitted op⟩ } ch b =
      if b.closed then n.pending ch b else n.pending ch b ++ [op] := by
  obtain ⟨-, hreg⟩ := h.subs ch b hb
  cases hc : b.closed with
  | false => simp [Node.pending, hreg.2 hc]
  | true =>
    have hmem : ch ∉ n.store.pubsub.subscribers := fun hm => by rw [hreg.1 hm] at hc; cases hc
    simp [Node.pending, hmem]

end Wired

theorem Primary.wired {n : Node T V} (h : Primary crud enc t₀ n) : n.Wired :=
  ⟨h.alive, h.live, h.pending, h.unsent, fun ch b hb => ⟨(h.streaming ch b hb).lt, (h.streaming ch b hb).registered⟩⟩

/-- What an event has to keep of the databases and the streams, the channels being in order. -/
theorem Wired.primary {n : Node T V} (h : n.Wired) (hi : n.store.db.Integral crud enc t₀) (hw : n.Writing crud enc)
    (hn : ∀ m, n.emission = some m → m.op.seq = n.store.db.sequence + 1)
    (hs : ∀ ch b, n.subs ch = some b → b.start ≤ n.store.db.sequence + 1 ∧
      ∃ rows, Encodes enc (b.read ++ n.pending ch b) rows ∧ rows <+: (n.told ch).since b.start ∧
        (b.closed = false → rows = (n.told ch).since b.start)) : Primary crud enc t₀ n :=
  ⟨h.alive, hi, hw, hn, h.live, h.pending, h.unsent, fun ch b hb =>
    ⟨(h.subs ch b hb).1, (hs ch b hb).1, (h.subs ch b hb).2, (hs ch b hb).2⟩⟩

section Steps

variable {n n' : Node T V}

theorem told_cases (n : Node T V) (ch : Nat) : n.told ch = n.store.db ∨ n.told ch = n.ahead := by
  cases hm : n.emission with
  | none => exact .inl (told_of_none hm ch)
  | some m =>
    rw [told_of_some hm, ahead_of_some hm]
    split
    · exact .inl rfl
    · exact .inr rfl

/-- `Emit` begins: no channel has been told of the operation, but for those that are closed, which keep
a first part of the rows. -/
theorem Primary.written (h : Primary crud enc t₀ n) (hm : n.emission = none) {op : Op V}
    {row : OpSerialized} {d' : Database T} (hr : Database.Recorded crud enc op row n.store.db d')
    (hs : op.seq = n.store.db.sequence + 1) (hw : Wired { n with
      store := ⟨n.store.db, n.store.pubsub.cleared⟩
      emission := some ⟨op, d', [], n.store.pubsub.subscribers⟩ }) :
    Primary crud enc t₀ { n with
      store := ⟨n.store.db, n.store.pubsub.cleared⟩
      emission := some ⟨op, d', [], n.store.pubsub.subscribers⟩ } := by
  refine hw.primary h.integral ?_ ?_ ?_
  · intro m hm'
    cases hm'
    exact ⟨row, hr⟩
  · intro m hm'
    cases hm'
    exact hs
  · intro ch b hb
    obtain ⟨-, hst, hreg, rows, henc, hpre, heq⟩ := h.streaming ch b hb
    rw [told_of_none hm] at hpre heq
    refine ⟨hst, rows, henc, ?_⟩
    rw [told_of_some rfl]
    cases hc : b.closed with
    | false =>
      rw [if_pos (hreg.2 hc)]
      exact ⟨hpre, fun _ => heq hc⟩
    | true =>
      have hout : ch ∉ n.store.pubsub.subscribers := fun hin => by rw [hreg.1 hin] at hc; cases hc
      rw [if_neg hout, Database.since_recorded hr (show b.start ≤ op.seq by omega)]
      exact ⟨hpre.trans (List.prefix_append _ _), fun hf => by cases hf⟩

/-- A send tells one channel of the operation, and adds its row to what that subscription has coming. -/
theorem Primary.sent (h : Primary crud enc t₀ n) {m : Emission T V} {c : Nat} {unsent : List Nat}
    (hm : n.emission = some m) (hu : m.unsent = c :: unsent)
    (hw : Wired { n with
      store := ⟨n.store.db, n.store.pubsub.sending m.op [c]⟩
      emission := some { m with reached := m.reached ++ [c], unsent := unsent } }) :
    Primary crud enc t₀ { n with
      store := ⟨n.store.db, n.store.pubsub.sending m.op [c]⟩
      emission := some { m with reached := m.reached ++ [c], unsent := unsent } } := by
  obtain ⟨row, hr⟩ := h.writing m hm
  have hseq := h.next m hm
  obtain ⟨hnd, hsub⟩ := h.unsent m hm
  rw [hu] at hnd hsub
  refine hw.primary h.integral ?_ ?_ ?_
  · intro m' hm'
    cases hm'
    exact h.writing m hm
  · intro m' hm'
    cases hm'
    exact h.next m hm
  · intro ch b hb
    obtain ⟨-, hst, hreg, rows, henc, hpre, heq⟩ := h.streaming ch b hb
    rw [told_of_some hm, hu] at hpre heq
    refine ⟨hst, ?_⟩
    rw [pending_sending (n := n) rfl, told_of_some rfl]
    by_cases hc : ch = c
    · subst hc
      -- the channel is open, and has not been told before
      have hopen := hreg.1 (hsub ch List.mem_cons_self)
      rw [if_pos List.mem_cons_self] at heq
      have hsince := Database.since_recorded hr (show b.start ≤ m.op.seq by omega)
      rw [if_pos rfl, if_neg (List.nodup_cons.1 hnd).1]
      refine ⟨rows ++ [row], ?_, ?_, fun _ => ?_⟩
      · rw [← List.append_assoc]
        exact henc.concat hr.serialized
      · rw [heq hopen, hsince]
      · rw [heq hopen, hsince]
    · rw [if_neg hc]
      have hiff : (ch ∈ c :: unsent) = (ch ∈ unsent) := propext (List.mem_cons.trans ⟨fun h => h.resolve_left hc, .inr⟩)
      simp only [hiff] at hpre heq
      exact ⟨rows, henc, hpre, heq⟩

/-- At the commit every channel has been told, so that nothing changes for the streams. -/
theorem Primary.committed (hR : Replayable crud enc) (h : Primary crud enc t₀ n) {m : Emission T V}
    (hm : n.emission = some m) (hu : m.unsent = [])
    (hw : Wired { n with store := ⟨m.db, n.store.pubsub⟩, emission := none }) :
    Primary crud enc t₀ { n with store := ⟨m.db, n.store.pubsub⟩, emission := none } := by
  obtain ⟨row, hr⟩ := h.writing m hm
  have hseq := h.next m hm
  refine hw.primary (h.integral.recorded hR hr hseq) (writing_of_none rfl) (fun m' hm' => by cases hm') ?_
  intro ch b hb
  obtain ⟨-, hst, -, hstr⟩ := h.streaming ch b hb
  rw [told_of_some hm, hu, if_neg List.not_mem_nil] at hstr
  refine ⟨?_, ?_⟩
  · show b.start ≤ m.db.sequence + 1
    rw [hr.sequence]
    omega
  · rw [told_of_none rfl]
    exact hstr

theorem Primary.subscribed (hR : Replayable crud enc) (h : Primary crud enc t₀ n) (hm : n.emission = none) {start : Nat}
    {preload : List (Op V)} (hs : start ≤ n.store.db.sequence + 1)
    (hq : n.store.db.queryLogSince enc start = .ok preload)
    (hw : Wired ((n.setPubsub n.store.pubsub.subscribed).setSub n.store.pubsub.next ⟨start,
      preload, none, [], [], false⟩)) :
    Primary crud enc t₀ ((n.setPubsub n.store.pubsub.subscribed).setSub n.store.pubsub.next
      ⟨start, preload, none, [], [], false⟩) := by
  refine hw.primary h.integral (writing_of_none hm) ?_ ?_
  · intro m hm'
    exact h.next m hm'
  · intro ch b hb
    rw [told_setSub, told_setPubsub, told_of_none hm]
    -- the preload is read in the transaction that registers the channel, so nothing falls in between
    by_cases hch : ch = n.store.pubsub.next
    · subst hch
      have hb' : b = ⟨start, preload, none, [], [], false⟩ := by simpa [setSub] using hb.symm
      subst hb'
      refine ⟨hs, n.store.db.since start, ?_, List.prefix_refl _, fun _ => rfl⟩
      have hpend : Node.pending ((n.setPubsub n.store.pubsub.subscribed).setSub n.store.pubsub.next
          ⟨start, preload, none, [], [], false⟩) n.store.pubsub.next ⟨start, preload, none, [],
          [], false⟩ = preload := by
        simp [Node.pending, setSub, setPubsub]
      rw [hpend]
      exact h.integral.query_encodes hR hq
    · obtain ⟨-, hst, -, hstr⟩ := h.streaming ch b (by simpa [setSub, setPubsub, hch] using hb)
      rw [told_of_none hm] at hstr
      refine ⟨hst, ?_⟩
      rw [pending_eq_of_buf (n := n) b (by
        show (n.store.pubsub.subscribed.chan ch).buf = _
        rw [Pubsub.subscribed_chan hch])]
      exact hstr

theorem Primary.moved (h : Primary crud enc t₀ n) {ch : Nat} {b b' : Subscriber V} (hb : n.subs ch = some b)
    (hm : Moved n n' ch b b') (hw : n'.Wired) : Primary crud enc t₀ n' := by
  refine hw.primary (hm.db ▸ h.integral) ?_ ?_ ?_
  · intro m hm'
    rw [hm.db]
    exact h.writing m (hm.emission ▸ hm')
  · intro m hm'
    rw [hm.db]
    exact h.next m (hm.emission ▸ hm')
  · intro c x hx
    rw [hm.subs] at hx
    rw [hm.told, hm.db]
    by_cases hc : c = ch
    · subst hc
      rw [Function.update_self, Option.some.injEq] at hx
      subst hx
      obtain ⟨-, hst, -, hstr⟩ := h.streaming c b hb
      refine ⟨by rw [hm.start]; exact hst, ?_⟩
      rw [hm.stream, hm.start, hm.closed]
      exact hstr
    · rw [Function.update_of_ne hc] at hx
      obtain ⟨-, hst, -, hstr⟩ := h.streaming c x hx
      refine ⟨hst, ?_⟩
      rw [pending_eq_of_buf x (hm.buf_eq c hc)]
      exact hstr

theorem Primary.closed (h : Primary crud enc t₀ n) {ch : Nat} {b : Subscriber V} (hb : n.subs ch = some b)
    (hw : (n.close ch b).Wired) : Primary crud enc t₀ (n.close ch b) := by
  refine hw.primary h.integral h.writing h.next ?_
  intro c x hx
  by_cases hcc : c = ch
  · subst hcc
    have hx' : x = { b with closed := true } := by simpa [Node.close, setSub] using hx.symm
    subst hx'
    obtain ⟨-, hst, -, rows, henc, hpre, -⟩ := h.streaming c b hb
    exact ⟨hst, rows, henc, hpre, fun hf => by cases hf⟩
  · obtain ⟨-, hst, -, hstr⟩ := h.streaming c x (by simpa [Node.close, setSub, setPubsub, hcc] using hx)
    exact ⟨hst, hstr⟩

end Steps

theorem Primary.start (crud : CRUD T V) (enc : Encoding V) (t₀ : T) :
    Primary crud enc t₀ (Node.start (Datastore.wrap (Database.fresh t₀))) :=
  ⟨rfl, .fresh crud enc t₀, writing_of_none rfl, fun _ h => (by cases h), .new, .new, unsent_of_none rfl,
    fun _ _ h => by cases h⟩

theorem Primary.step (hR : Replayable crud enc) {n n' : Node T V} {e : Event V} (h : Primary crud enc t₀ n)
    (he : n.PrimaryEvent e) (hs : Node.step crud enc n e = some n') : Primary crud enc t₀ n' := by
  obtain ⟨-, hst⟩ := step_cases h.live h.unsent hs
  have hclose : ∀ ch b, e = .close ch → n.subs ch = some b → b.closed = false := by
    rintro ch b rfl hb
    exact he b hb
  have halive : n'.crashed = false := h.wired.not_crashed hR (by rintro snap commit rfl; exact he) hst
  have hw := h.wired.step hst halive hclose
  cases hst with
  | unchanged => exact h
  | crashed e p hm hp hw => cases halive
  | written op fromLog row d' hm hr =>
    obtain rfl : fromLog = false := he
    exact h.written hm hr (Database.getNextSequence_eq _) hw
  | sent m ch unsent hm hu => exact h.sent hm hu hw
  | committed m hm hu => exact h.committed hR hm hu hw
  | lost m hm hu => exact absurd he Bool.false_ne_true
  | loaded snap commit d' hm hl hq => exact he.elim
  | subscribed start preload hm hle hq => exact h.subscribed hR hm hle hq hw
  | leaked start hm => exact absurd he Bool.false_ne_true
  | moved e n' ch b b' hb hm hr => exact h.moved hb hm hw
  | closed ch b hb hu => exact h.closed hb hw

theorem Primary.ordered {n : Node T V} (h : Primary crud enc t₀ n) : n.Ordered :=
  ⟨fun _ => h.live, fun _ => h.unsent, fun _ ch b hb => (h.streaming ch b hb).lt⟩

/-- Every state a primary reaches satisfies its invariant. -/
theorem Primary.reach (hR : Replayable crud enc) {n : Node T V}
    (h : (Node.system crud enc).Reach PrimaryEvent (Node.start (Datastore.wrap (Database.fresh t₀))) n) :
    Primary crud enc t₀ n :=
  h.invariant (.start crud enc t₀) fun _ _ _ hi he hs => hi.step hR he hs

section Reading

variable {n : Node T V}

/-- The row of the operation of an `Apply` in progress. -/
def inProgress (enc : Encoding V) (n : Node T V) : List OpSerialized :=
  (n.emission.bind fun m => (m.op.serialize enc).toOption).toList

theorem inProgress_of_none (h : n.emission = none) : n.inProgress enc = [] := by
  unfold inProgress
  rw [h]
  rfl

theorem Primary.ahead_integral (hR : Replayable crud enc) (h : Primary crud enc t₀ n) :
    n.ahead.Integral crud enc t₀ := by
  cases hm : n.emission with
  | none => rw [ahead_of_none hm]; exact h.integral
  | some m =>
    obtain ⟨row, hr⟩ := h.writing m hm
    rw [ahead_of_some hm]
    exact h.integral.recorded hR hr (h.next m hm)

/-- The log as the `Apply` in progress leaves it has its row in addition. -/
theorem Primary.ahead_rows (h : Primary crud enc t₀ n) :
    n.ahead.log.rows = n.store.db.log.rows ++ n.inProgress enc := by
  cases hm : n.emission with
  | none => rw [ahead_of_none hm, inProgress_of_none hm, List.append_nil]
  | some m =>
    obtain ⟨row, hr⟩ := h.writing m hm
    rw [ahead_of_some hm, hr.rows, inProgress, hm, Option.bind_some, hr.serialized]
    rfl

theorem Primary.ahead_since (h : Primary crud enc t₀ n) {start : Nat} (hs : start ≤ n.store.db.sequence + 1) :
    n.ahead.since start = n.store.db.since start ++ n.inProgress enc := by
  cases hm : n.emission with
  | none => rw [ahead_of_none hm, inProgress_of_none hm, List.append_nil]
  | some m =>
    obtain ⟨row, hr⟩ := h.writing m hm
    have hseq := h.next m hm
    rw [ahead_of_some hm, Database.since_recorded hr (by omega), inProgress, hm, Option.bind_some, hr.serialized]
    rfl

/-- A channel has been told of the committed rows at least, and of the one in progress at most. -/
theorem Primary.told_prefix (h : Primary crud enc t₀ n) {ch start : Nat} (hs : start ≤ n.store.db.sequence + 1) :
    (n.told ch).since start <+: n.ahead.since start := by
  rcases n.told_cases ch with ht | ht
  · rw [ht, h.ahead_since hs]
    exact List.prefix_append _ _
  · rw [ht]

/-- What was read is a first part of the rows from the starting number on, that of an `Apply` in progress
being the last. -/
theorem Primary.read_prefix (h : Primary crud enc t₀ n) {ch : Nat} {b : Subscriber V} (hb : n.subs ch = some b) :
    ∃ rows, Encodes enc b.read rows ∧ rows <+: n.ahead.since b.start := by
  obtain ⟨-, hst, -, rows, henc, hpre, -⟩ := h.streaming ch b hb
  exact ⟨rows.take b.read.length, henc.of_append.1, (List.take_prefix _ _).trans (hpre.trans (h.told_prefix hst))⟩

/-- The numbers read follow each other from the starting one on. -/
theorem Primary.read_seqs (hR : Replayable crud enc) (h : Primary crud enc t₀ n) {ch : Nat} {b : Subscriber V}
    (hb : n.subs ch = some b) : b.read.map Op.seq = List.range' (max b.start 1) b.read.length := by
  obtain ⟨rows, henc, rest, hrest⟩ := h.read_prefix hb
  have hseq := (h.ahead_integral hR).map_seq_since b.start
  rw [← hrest, List.map_append] at hseq
  obtain ⟨k, -, hk, -⟩ := List.range'_eq_append_iff.1 hseq.symm
  have hlen : b.read.length = k := by
    have := congrArg List.length hk
    rwa [List.length_map, List.length_range', ← henc.length_eq] at this
  rw [henc.map_seq, hk, hlen]

end Reading

/-- `Subscribe` looks at the upper end of the log only. -/
theorem Primary.horizon_iff (hR : Replayable crud enc) {n : Node T V} (h : Primary crud enc t₀ n) (start : Nat)
    (commit : Bool) :
    (Datastore.subscribe enc start commit n.store).1 = .err .horizon ↔ n.store.db.sequence + 1 < start := by
  have hcase := Datastore.subscribe_cases enc start commit n.store
  revert hcase
  generalize Datastore.subscribe enc start commit n.store = r
  intro hcase
  cases hcase with
  | horizon hs => exact ⟨fun _ => hs, fun _ => rfl⟩
  | rejected e hle hq =>
    refine ⟨fun he => ?_, fun hs => by omega⟩
    cases he
    by_cases hs : start < 2 ^ 63
    · obtain ⟨preload, hok⟩ := h.integral.query_ok hR hs
      rw [hok] at hq; cases hq
    · unfold Database.queryLogSince at hq
      rw [if_neg hs] at hq; cases hq
  | accepted preload hle hq hc => exact ⟨fun he => (by cases he), fun hs => by omega⟩
  | leaked preload hle hq hc => exact ⟨fun he => (by cases he), fun hs => by omega⟩

end Node

end Wig.Crudlog
