/-
A node that serves the operations of a primary further up, measured against the primary's history: at
some number it has the tables the primary had there, its log has rows of the primary's, perhaps not
all, and what is on its way to a follower goes on from the follower's number.
-/
import Wig.Crudlog.Agreement
import Wig.Crudlog.Horizon

namespace Wig.Crudlog

open Wig.Lib Wig.Crud

variable {T V : Type} {crud : CRUD T V} {enc : Encoding V} {tr : Transport V} {t₀ : T} {Good : T → Prop}

/-! ## The primary's history -/

/-- The primary had these tables after `k` operations. -/
def At (hist : List (Database T)) (k : Nat) (t : T) : Prop := ∃ x, hist[k]? = some x ∧ x.tables = t

theorem At.append {hist : List (Database T)} {k : Nat} {t : T} (h : At hist k t) (more : List (Database T)) :
    At (hist ++ more) k t := by
  obtain ⟨x, hx, ht⟩ := h
  exact ⟨x, by rw [List.getElem?_append_left (List.getElem?_eq_some_iff.1 hx).1, hx], ht⟩

/-- The databases of a primary up to the current one, all of whose tables can be copied. -/
structure Timeline (crud : CRUD T V) (enc : Encoding V) (t₀ : T) (Good : T → Prop)
    (hist : List (Database T)) (d : Database T) :
    Prop where
  history : History crud enc hist d
  integral : d.Integral crud enc t₀
  good : ∀ x ∈ hist, Good x.tables

namespace Timeline

variable {hist : List (Database T)} {d : Database T}

theorem fresh (crud : CRUD T V) (enc : Encoding V) (h₀ : Good t₀) :
    Timeline crud enc t₀ Good [Database.fresh t₀] (Database.fresh t₀) :=
  ⟨.fresh crud enc t₀, .fresh crud enc t₀, fun x hx => by rw [List.mem_singleton.1 hx]; exact h₀⟩

theorem le (h : Timeline crud enc t₀ Good hist d) {k : Nat} {t : T} (hk : At hist k t) : k ≤ d.sequence := by
  obtain ⟨x, hx, -⟩ := hk
  exact h.history.lt hx

theorem good_at (h : Timeline crud enc t₀ Good hist d) {k : Nat} {t : T} (hk : At hist k t) : Good t := by
  obtain ⟨x, hx, rfl⟩ := hk
  exact h.good x (List.mem_of_getElem? hx)

theorem at_last (h : Timeline crud enc t₀ Good hist d) : At hist d.sequence d.tables := ⟨d, h.history.last, rfl⟩

/-- An operation with the next row takes the tables to the next ones. -/
theorem next (hR : Replayable crud enc) (h : Timeline crud enc t₀ Good hist d) {k : Nat} {t t' : T}
    (hk : At hist k t) {op : Op V} {row : OpSerialized} (hrow : d.log.rows[k]? = some row)
    (ho : op.serialize enc = .ok row) (ha : applyOp crud op t = (.ok (), t')) : At hist (k + 1) t' := by
  obtain ⟨x, hx, rfl⟩ := hk
  obtain ⟨y, hy, hr⟩ := h.history.next hR hx hrow h.integral.length_rows ho
  refine ⟨y, hy, ?_⟩
  have hsame := ha.symm.trans hr.applied
  cases hsame
  rfl

theorem write (hR : Replayable crud enc) (hG : ∀ op t t', Good t → applyOp crud op t = (.ok (), t') → Good t')
    (h : Timeline crud enc t₀ Good hist d) {d' : Database T} {op : Op V}
    {row : OpSerialized} (hr : Database.Recorded crud enc op row d d') (hs : op.seq = d.sequence + 1) :
    Timeline crud enc t₀ Good (hist ++ [d']) d' := by
  refine ⟨h.history.concat h.integral.length_rows hr hs, h.integral.recorded hR hr hs, fun x hx => ?_⟩
  rcases List.mem_append.1 hx with hx | hx
  · exact h.good x hx
  · rw [List.mem_singleton.1 hx]
    exact hG _ _ _ (h.good_at h.at_last) hr.applied

theorem seq_eq (h : Timeline crud enc t₀ Good hist d) {i : Nat} {row : OpSerialized}
    (hrow : d.log.rows[i]? = some row) : row.seq = i + 1 := by
  have hi := (List.getElem?_eq_some_iff.1 hrow).1
  have hlen := h.integral.length_rows
  have hnum := congrArg (·[i]?) h.integral.numbered
  simp only [List.getElem?_map, hrow, Option.map_some] at hnum
  rw [List.getElem?_range' (by omega), Option.some.injEq] at hnum
  omega

/-- A row of the log is found under its number. -/
theorem getElem?_row (h : Timeline crud enc t₀ Good hist d) {row : OpSerialized} (hrow : row ∈ d.log.rows) :
    1 ≤ row.seq ∧ row.seq ≤ d.sequence ∧ d.log.rows[row.seq - 1]? = some row := by
  obtain ⟨i, hi⟩ := List.mem_iff_getElem?.1 hrow
  have hseq := h.seq_eq hi
  have hlt := (List.getElem?_eq_some_iff.1 hi).1
  have hlen := h.integral.length_rows
  refine ⟨by omega, by omega, ?_⟩
  rw [hseq, Nat.add_sub_cancel]
  exact hi

/-- What arrives of an operation has the same row. -/
theorem carry (hR : Replayable crud enc) (h : Timeline crud enc t₀ Good hist d) (tr : Transport V)
    {i : Nat} {row : OpSerialized} (hrow : d.log.rows[i]? = some row) {op : Op V} (ho : op.serialize enc = .ok row) :
    ∃ op', tr.carry enc op = .ok op' ∧ op'.serialize enc = .ok row := by
  have hmem := List.mem_of_getElem? hrow
  have hle := (h.getElem?_row hmem).2.1
  have hlt := d.sequence_lt
  exact tr.carry_serialize hR ho (by omega) (h.integral.known row hmem)

/-- What arrives over HTTP is the decoded row. -/
theorem arrives (hR : Replayable crud enc) (h : Timeline crud enc t₀ Good hist d) (untyped : V → V)
    {i : Nat} {row : OpSerialized} (hrow : d.log.rows[i]? = some row) {op : Op V} (ho : op.serialize enc = .ok row) :
    ∃ op', (Transport.http untyped).carry enc op = .ok op' ∧ row.decode enc = .ok op' := by
  obtain ⟨op', hcarry, -⟩ := h.carry hR (.http untyped) hrow ho
  have hmem := List.mem_of_getElem? hrow
  have hle := (h.getElem?_row hmem).2.1
  have hlt := d.sequence_lt
  exact ⟨op', hcarry, (Transport.carry_http untyped ho (by omega) (h.integral.known row hmem)).symm.trans hcarry⟩

end Timeline

/-! ## Segments of the primary's log -/

/-- The operations are the primary's after the first `f`. -/
def Segment (enc : Encoding V) (log : List OpSerialized) : Nat → List (Op V) → Prop
  | _, [] => True
  | f, op :: ops => (∃ row, log[f]? = some row ∧ op.serialize enc = .ok row) ∧ Segment enc log (f + 1) ops

namespace Segment

variable {log : List OpSerialized}

theorem append_iff : ∀ {ops ops' : List (Op V)} {f : Nat},
    Segment enc log f (ops ++ ops') ↔ Segment enc log f ops ∧ Segment enc log (f + ops.length) ops'
  | [], ops', f => by simp [Segment]
  | op :: ops, ops', f => by
    rw [List.cons_append, Segment, Segment, append_iff, List.length_cons, Nat.add_right_comm,
      Nat.add_assoc f, and_assoc]

theorem extend (more : List OpSerialized) : ∀ {ops : List (Op V)} {f : Nat},
    Segment enc log f ops → Segment enc (log ++ more) f ops
  | [], _, _ => trivial
  | _ :: _, _, ⟨⟨row, hrow, ho⟩, hrest⟩ =>
    ⟨⟨row, by rw [List.getElem?_append_left (List.getElem?_eq_some_iff.1 hrow).1, hrow], ho⟩, hrest.extend more⟩

/-- Rows with consecutive numbers, each found under its number, are a segment. -/
theorem of_numbered {ops : List (Op V)} {rows : List OpSerialized} (h : Encodes enc ops rows) {f m : Nat}
    (hseq : rows.map OpSerialized.seq = List.range' (f + 1) m) (hget : ∀ row ∈ rows, log[row.seq - 1]? = some row) :
    Segment enc log f ops ∧ ops.length = m := by
  induction h generalizing f m with
  | nil => exact ⟨trivial, by simpa using congrArg List.length hseq⟩
  | @cons op row ops rows ho _ ih =>
    cases m with
    | zero => cases hseq
    | succ m =>
      rw [List.map_cons, List.range'_succ, List.cons.injEq] at hseq
      obtain ⟨hrest, hlen⟩ := ih hseq.2 fun r hr => hget r (List.mem_cons_of_mem _ hr)
      have hrow := hget row List.mem_cons_self
      rw [hseq.1, Nat.add_sub_cancel] at hrow
      exact ⟨⟨⟨row, hrow, ho⟩, hrest⟩, by rw [List.length_cons, hlen]⟩

end Segment

/-! ## Writes on a running node -/

/-- As long as the channels are in order, a write is refused, waits, or is done. -/
theorem Datastore.apply_alive (hR : Replayable crud enc) {s : Datastore T V} (hl : s.pubsub.Live)
    (hp : s.pubsub.Pending) (op : Op V) (fromLog : Bool) :
    (∃ e, apply crud enc op fromLog true s = (.err e, s)) ∨ (apply crud enc op fromLog true s).1 = .block ∨
      ∃ row d', Database.Recorded crud enc (op.assign fromLog s.db) row s.db d' ∧
        apply crud enc op fromLog true s = (.ok (), ⟨d', s.pubsub.emitted (op.assign fromLog s.db)⟩) := by
  have hret := Database.record_returned hR (op.assign fromLog s.db) s.db
  have hcase := apply_cases crud enc hl op fromLog true
  revert hcase
  generalize apply crud enc op fromLog true s = x
  rintro (⟨e, he⟩ | ⟨p, hs, hw⟩ | ⟨s', hw⟩ | ⟨row, d', hr, hc⟩ | ⟨row, d', hr, hc⟩)
  · exact .inl ⟨e, rfl⟩
  · exfalso
    rcases hw with hw | hw
    · rw [hw] at hret
      exact hret
    · rcases Pubsub.emit_not_crash hl hp (op.assign fromLog s.db) with ⟨q, he⟩ | he <;> rw [he] at hw <;> cases hw
  · exact .inr (.inl rfl)
  · exact .inr (.inr ⟨row, d', hr, rfl⟩)
  · cases hc

/-! ## A node that serves -/

/-- A node that runs, with the primary's tables at its number, and rows of the primary's log under
their numbers. -/
structure Node.Source (hist : List (Database T)) (rows : List OpSerialized) (n : Node T V) : Prop extends n.Wired where
  tables : At hist n.store.db.sequence n.store.db.tables
  logged : ∀ row ∈ n.store.db.log.rows, 1 ≤ row.seq ∧ row.seq ≤ n.store.db.sequence ∧ rows[row.seq - 1]? = some row

namespace Node.Source

variable {hist : List (Database T)} {rows : List OpSerialized} {n n' : Node T V}

/-- A node that has just been started on a database. -/
theorem start {d : Database T} (ht : At hist d.sequence d.tables)
    (hl : ∀ row ∈ d.log.rows, 1 ≤ row.seq ∧ row.seq ≤ d.sequence ∧ rows[row.seq - 1]? = some row) :
    (Node.start (Datastore.wrap d) : Node T V).Source hist rows := ⟨.start d, ht, hl⟩

theorem extend (h : n.Source hist rows) (hist' : List (Database T)) (rows' : List OpSerialized) :
    n.Source (hist ++ hist') (rows ++ rows') := by
  refine ⟨h.toWired, h.tables.append hist', fun row hrow => ?_⟩
  obtain ⟨h1, hle, hget⟩ := h.logged row hrow
  exact ⟨h1, hle, by rw [List.getElem?_append_left (List.getElem?_eq_some_iff.1 hget).1, hget]⟩

/-- The node takes the primary's next operation. -/
theorem applied (h : n.Source hist rows) (hm : n.emission = none) {op : Op V} {row : OpSerialized} {d' : Database T}
    (hr : Database.Recorded crud enc op row n.store.db d') (hrow : rows[n.store.db.sequence]? = some row)
    (hs : op.seq = n.store.db.sequence + 1) (ht : At hist (n.store.db.sequence + 1) d'.tables) :
    Node.Source hist rows { n with store := ⟨d', n.store.pubsub.emitted op⟩ } := by
  have hseq : d'.sequence = n.store.db.sequence + 1 := hr.sequence.trans hs
  have hrowseq : row.seq = n.store.db.sequence + 1 := (Op.serialize_eq_ok hr.serialized).2.1.trans hs
  refine ⟨h.toWired.emitted hm op d', by show At hist d'.sequence d'.tables; rw [hseq]; exact ht, ?_⟩
  intro x hx
  show 1 ≤ x.seq ∧ x.seq ≤ d'.sequence ∧ _
  rw [show d'.log.rows = n.store.db.log.rows ++ [row] from hr.rows] at hx
  rcases List.mem_append.1 hx with hx | hx
  · obtain ⟨h1, hle, hget⟩ := h.logged x hx
    exact ⟨h1, by omega, hget⟩
  · rw [List.mem_singleton.1 hx, hrowseq]
    exact ⟨by omega, by omega, hrow⟩

/-- The node loads a snapshot that is not older than what it has. -/
theorem loaded (h : n.Source hist rows) {d' : Database T} (ht : At hist d'.sequence d'.tables)
    (hl : d'.log = n.store.db.log) (hle : n.store.db.sequence ≤ d'.sequence) :
    Node.Source hist rows { n with store := ⟨d', n.store.pubsub⟩ } := by
  refine ⟨h.toWired.setDB d', ht, fun row hrow => ?_⟩
  obtain ⟨h1, hle', hget⟩ := h.logged row (hl ▸ hrow)
  exact ⟨h1, hle'.trans hle, hget⟩

/-- The preload of a subscription that the log reaches back to: the primary's operations from there
to the node's number. -/
theorem preload (hR : Replayable crud enc) (h : n.Source hist rows)
    (henc : ∀ row ∈ rows, ∃ op : Op V, op.serialize enc = .ok row)
    {f : Nat} (hf : f ≤ n.store.db.sequence) (hback : n.store.db.ReachesBack (f + 1)) {preload : List (Op V)}
    (hq : n.store.db.queryLogSince enc (f + 1) = .ok preload) :
    Segment enc rows f preload ∧ f + preload.length = n.store.db.sequence := by
  have hkeys : ∀ k, f + 1 ≤ k → (k ∈ n.store.db.log.keys ↔ 1 ≤ k ∧ k ≤ n.store.db.sequence) := by
    intro k hk
    constructor
    · intro hmem
      obtain ⟨row, hrow, rfl⟩ := Table.mem_keys.1 hmem
      obtain ⟨h1, hle, -⟩ := h.logged row hrow
      exact ⟨h1, hle⟩
    · rintro ⟨-, hle⟩
      exact hback k (by omega) hle
  have hrange := Database.rowsSince_eq_range hkeys
  rw [show max (f + 1) 1 = f + 1 by omega] at hrange
  -- the rows asked for are the primary's, each under its number
  have hget : ∀ row ∈ n.store.db.rowsSince (f + 1), rows[row.seq - 1]? = some row := fun row hr =>
    (h.logged row (List.mem_filter.1 (List.mem_insertionSort _ |>.1 hr)).1).2.2
  obtain ⟨ops, ho, he⟩ := mapM_decode hR (n.store.db.rowsSince (f + 1)) fun row hr =>
    henc row (List.mem_of_getElem? (hget row hr))
  unfold Database.queryLogSince at hq
  split at hq
  · rw [ho] at hq
    cases hq
    obtain ⟨hseg, hlen⟩ := Segment.of_numbered he hrange hget
    exact ⟨hseg, by omega⟩
  · cases hq

end Node.Source

namespace Node

/-- The events by which a node serves its subscribers. -/
def ServerEvent (n : Node T V) : Event V → Prop
  | .apply _ _ => False
  | .send => False
  | .commit _ => False
  | e => n.PrimaryEvent e

/-- What a node's event leaves of a subscription: the operations on their way, what its channel has been
told, and that it is closed. -/
structure Kept (n n' : Node T V) (ch : Nat) (b b' : Subscriber V) : Prop where
  subs : n'.subs ch = some b'
  pending : n'.pending ch b' = n.pending ch b
  told : (n'.told ch).sequence = (n.told ch).sequence
  closed : b'.closed = false → b.closed = false

variable {hist : List (Database T)} {rows : List OpSerialized} {n n' : Node T V}

/-- Serving leaves the databases as they are, and every subscription what is on its way, but for what its
reader takes. -/
theorem Source.serve (h : n.Source hist rows) {e : Event V} (he : n.ServerEvent e)
    (hs : Node.step crud enc n e = some n') :
    n'.Source hist rows ∧ n'.store.db = n.store.db ∧ n'.emission = n.emission ∧
      ∀ ch b, n.subs ch = some b → e ≠ .read ch → ∃ b', Kept n n' ch b b' := by
  obtain ⟨-, hst⟩ := step_cases h.live h.unsent hs
  have hclose : ∀ ch b, e = .close ch → n.subs ch = some b → b.closed = false := by
    rintro ch b rfl hb
    exact he b hb
  have hw := fun halive => h.toWired.step hst halive hclose
  cases hst with
  | unchanged => exact ⟨h, rfl, rfl, fun ch b hb _ => ⟨b, hb, rfl, rfl, id⟩⟩
  | crashed e p hm hp he' =>
    rcases he' with ⟨snap, commit, rfl⟩ | ⟨op, fromLog, rfl, -⟩ <;> exact he.elim
  | written op fromLog row d' hm hr => exact he.elim
  | sent m ch unsent hm hu => exact he.elim
  | committed m hm hu => exact he.elim
  | lost m hm hu => exact he.elim
  | loaded snap commit d' hm hl hq => exact he.elim
  | subscribed start preload hm hle hq =>
    refine ⟨⟨hw h.alive, h.tables, h.logged⟩, rfl, rfl, fun ch b hb _ => ⟨b, ?_, ?_, rfl, id⟩⟩
    · have hne := Nat.ne_of_lt (h.subs ch b hb).1
      simpa [setSub, setPubsub, hne] using hb
    · refine pending_eq_of_buf (n := n) b ?_
      show (n.store.pubsub.subscribed.chan ch).buf = _
      rw [Pubsub.subscribed_chan (Nat.ne_of_lt (h.subs ch b hb).1)]
  | leaked start hm => exact absurd he Bool.false_ne_true
  | moved e n' c x x' hx hm hr =>
    refine ⟨⟨h.toWired.moved hx hm, hm.db ▸ h.tables, hm.db ▸ h.logged⟩, hm.db, hm.emission, fun ch b hb hne => ?_⟩
    by_cases hc : ch = c
    · subst hc
      rw [hx, Option.some.injEq] at hb
      subst hb
      refine ⟨x', by rw [hm.subs, Function.update_self], ?_, by rw [hm.told], fun hf => hm.closed ▸ hf⟩
      have hstream := hm.stream
      rw [hr.resolve_right hne] at hstream
      exact List.append_cancel_left hstream
    · exact ⟨b,
        by rw [hm.subs, Function.update_of_ne hc]; exact hb, pending_eq_of_buf b (hm.buf_eq ch hc), by rw [hm.told], id⟩
  | closed c x hx hu =>
    refine ⟨⟨hw h.alive, h.tables, h.logged⟩, rfl, rfl, fun ch b hb _ => ?_⟩
    by_cases hc : ch = c
    · subst hc
      rw [hx, Option.some.injEq] at hb
      subst hb
      exact ⟨{ x with closed := true }, by simp [Node.close, setSub], rfl, rfl, fun hf => by cases hf⟩
    · exact ⟨b, by simpa [Node.close, setSub, setPubsub, hc] using hb, rfl, rfl, id⟩

end Node

/-! ## What is on its way -/

/-- What a follower at `f` is sent: the wire goes on from there, and as long as the connection is up
so does what is behind it in the subscription, which an open one has up to the number its channel has
been told. -/
structure Feed (enc : Encoding V) (rows : List OpSerialized) (n : Node T V) (f ch : Nat) (wire : List (Op V))
    (up : Bool) : Prop where
  arriving : Segment enc rows f wire
  reader : up = true → ∃ b, n.subs ch = some b ∧ Segment enc rows (f + wire.length) (n.pending ch b) ∧
    (b.closed = false → f + wire.length + (n.pending ch b).length = (n.told ch).sequence)

namespace Feed

variable {hist : List (Database T)} {rows : List OpSerialized} {n n' : Node T V} {f ch : Nat}
  {wire : List (Op V)} {up : Bool}

theorem extend (h : Feed enc rows n f ch wire up) (more : List OpSerialized) :
    Feed enc (rows ++ more) n f ch wire up := by
  refine ⟨h.arriving.extend more, fun hup => ?_⟩
  obtain ⟨b, hb, hseg, hlen⟩ := h.reader hup
  exact ⟨b, hb, hseg.extend more, hlen⟩

theorem kept (h : Feed enc rows n f ch wire up)
    (hk : up = true → ∀ b, n.subs ch = some b → ∃ b', Node.Kept n n' ch b b') : Feed enc rows n' f ch wire up := by
  refine ⟨h.arriving, fun hup => ?_⟩
  obtain ⟨b, hb, hseg, hlen⟩ := h.reader hup
  obtain ⟨b', hb', hpend, htold, hclosed⟩ := hk hup b hb
  refine ⟨b', hb', by rw [hpend]; exact hseg, fun hc => ?_⟩
  rw [hpend, htold]
  exact hlen (hclosed hc)

/-- The connection breaks, or the node it goes to does. -/
theorem down (h : Feed enc rows n f ch wire up) (keep : Nat) : Feed enc rows n' f ch (wire.take keep) false := by
  have hwire := h.arriving
  rw [← List.take_append_drop keep wire] at hwire
  exact ⟨(Segment.append_iff.1 hwire).1, fun hup => (nomatch hup)⟩

/-- The node takes the primary's next operation, which goes to the subscriptions that are open. -/
theorem applied (hn : n.Wired) (hm : n.emission = none) (h : Feed enc rows n f ch wire up)
    {op : Op V} {row : OpSerialized} {d' : Database T} (hrow : rows[n.store.db.sequence]? = some row)
    (ho : op.serialize enc = .ok row) (hs : d'.sequence = n.store.db.sequence + 1) :
    Feed enc rows { n with store := ⟨d', n.store.pubsub.emitted op⟩ } f ch wire up := by
  refine ⟨h.arriving, fun hup => ?_⟩
  obtain ⟨b, hb, hseg, hlen⟩ := h.reader hup
  rw [Node.told_of_none hm] at hlen
  refine ⟨b, hb, ?_⟩
  rw [hn.pending_emitted hb, Node.told_of_none (n := { n with store := ⟨d', n.store.pubsub.emitted op⟩ }) hm]
  cases hc : b.closed with
  | false =>
    have hend := hlen hc
    rw [if_neg Bool.false_ne_true, Segment.append_iff, hend]
    refine ⟨⟨hseg, ⟨row, hrow, ho⟩, trivial⟩, fun _ => ?_⟩
    show _ = d'.sequence
    rw [List.length_append, List.length_singleton]
    omega
  | true => exact ⟨hseg, fun hf => (nomatch hf)⟩

/-- An `Apply` begins: no open subscription has been told of its operation yet. -/
theorem written (hn : n.Wired) (hm : n.emission = none) (h : Feed enc rows n f ch wire up)
    (op : Op V) (d' : Database T) :
    Feed enc rows { n with
      store := ⟨n.store.db, n.store.pubsub.cleared⟩
      emission := some ⟨op, d', [], n.store.pubsub.subscribers⟩ } f ch wire up := by
  refine ⟨h.arriving, fun hup => ?_⟩
  obtain ⟨b, hb, hseg, hlen⟩ := h.reader hup
  rw [Node.told_of_none hm] at hlen
  refine ⟨b, hb, hseg, fun hc => ?_⟩
  rw [Node.told_of_some rfl, if_pos ((hn.subs ch b hb).2.2 hc)]
  exact hlen hc

/-- `Emit` sends the operation to one subscription. -/
theorem sent (hn : n.Wired) {m : Emission T V} {c : Nat} {unsent : List Nat} (hm : n.emission = some m)
    (hu : m.unsent = c :: unsent) (h : Feed enc rows n f ch wire up) {row : OpSerialized}
    (hrow : rows[n.store.db.sequence]? = some row) (ho : m.op.serialize enc = .ok row)
    (hs : m.db.sequence = n.store.db.sequence + 1) :
    Feed enc rows { n with
      store := ⟨n.store.db, n.store.pubsub.sending m.op [c]⟩
      emission := some { m with reached := m.reached ++ [c], unsent := unsent } } f ch wire up := by
  obtain ⟨hnd, hsub⟩ := hn.unsent m hm
  rw [hu] at hnd hsub
  refine ⟨h.arriving, fun hup => ?_⟩
  obtain ⟨b, hb, hseg, hlen⟩ := h.reader hup
  rw [Node.told_of_some hm, hu] at hlen
  refine ⟨b, hb, ?_⟩
  rw [Node.pending_sending (n := n) rfl, Node.told_of_some rfl]
  by_cases hc : ch = c
  · subst hc
    have hopen := (hn.subs ch b hb).2.1 (hsub ch List.mem_cons_self)
    rw [if_pos List.mem_cons_self] at hlen
    have hend := hlen hopen
    rw [if_pos rfl, if_neg (List.nodup_cons.1 hnd).1, Segment.append_iff, hend]
    refine ⟨⟨hseg, ⟨row, hrow, ho⟩, trivial⟩, fun _ => ?_⟩
    show _ = m.db.sequence
    rw [List.length_append, List.length_singleton]
    omega
  · rw [if_neg hc]
    have hiff : (ch ∈ c :: unsent) = (ch ∈ unsent) := propext (List.mem_cons.trans ⟨fun h => h.resolve_left hc, .inr⟩)
    simp only [hiff] at hlen
    exact ⟨hseg, hlen⟩

/-- The commit tells the channels nothing new. -/
theorem committed {m : Emission T V} (hm : n.emission = some m) (hu : m.unsent = [])
    (h : Feed enc rows n f ch wire up) :
    Feed enc rows { n with store := ⟨m.db, n.store.pubsub⟩, emission := none } f ch wire up := by
  refine h.kept fun _ b hb => ⟨b, hb, rfl, ?_, id⟩
  rw [Node.told_of_none rfl, Node.told_of_some hm, hu, if_neg List.not_mem_nil]

/-- The next operation leaves the subscription; what arrives of it has the same row. -/
theorem fetched (h : Feed enc rows n f ch wire true) {b : Subscriber V} (hb : n.subs ch = some b)
    {op op' : Op V} {out : List (Op V)} (hout : b.out = op :: out)
    (ho : ∀ row, op.serialize enc = .ok row → op'.serialize enc = .ok row) :
    Feed enc rows (n.setSub ch { b with out := out, read := b.read ++ [op] }) f ch (wire ++ [op']) true := by
  obtain ⟨b', hb', hseg, hlen⟩ := h.reader rfl
  rw [hb, Option.some.injEq] at hb'
  subst hb'
  have hpend : n.pending ch b =
      op :: (n.setSub ch { b with out := out, read := b.read ++ [op] }).pending ch { b with out := out, read :=
        b.read ++ [op] } := by
    simp [Node.pending, Node.setSub, hout]
  rw [hpend] at hseg hlen
  obtain ⟨⟨row, hrow, hser⟩, hrest⟩ := hseg
  refine ⟨Segment.append_iff.2 ⟨h.arriving, ⟨row, hrow, ho row hser⟩, trivial⟩, fun _ => ?_⟩
  refine ⟨{ b with out := out, read := b.read ++ [op] }, by simp [Node.setSub], ?_, fun hc => ?_⟩
  · rw [List.length_append, List.length_singleton]
    exact hrest
  · have hend := hlen hc
    rw [List.length_cons] at hend
    rw [Node.told_setSub, List.length_append, List.length_singleton]
    omega

/-- The first operation on the wire is the one after the first `f`. -/
theorem delivered {op : Op V} (h : Feed enc rows n f ch (op :: wire) up) :
    (∃ row, rows[f]? = some row ∧ op.serialize enc = .ok row) ∧ Feed enc rows n (f + 1) ch wire up := by
  refine ⟨h.arriving.1, h.arriving.2, fun hup => ?_⟩
  obtain ⟨b, hb, hseg, hlen⟩ := h.reader hup
  rw [List.length_cons, Nat.add_comm wire.length, ← Nat.add_assoc] at hseg hlen
  exact ⟨b, hb, hseg, hlen⟩

end Feed

end Wig.Crudlog
