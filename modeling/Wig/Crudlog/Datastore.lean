/-
The datastore: the database together with the in-process pubsub, and the transactions on both. A
transaction rolls the database back when its body or its commit fails; what the body did to the
pubsub stays.
-/
import Wig.Crudlog.Op

namespace Wig.Crudlog

open Wig.Lib Wig.Crud

variable {T V : Type}

/-! ## The pubsub -/

def chanBufSize : Nat := 1000

structure Chan (V : Type) where
  buf : List (Op V)
  closed : Bool

/-- `chan` holds the channels `0, …, next - 1` made so far, and `sent` every send in order. -/
structure Pubsub (V : Type) where
  chan : Nat → Chan V
  next : Nat
  subscribers : List Nat
  toClose : List Nat
  sent : List (Nat × Op V)

namespace Pubsub

def new : Pubsub V := ⟨fun _ => ⟨[], false⟩, 0, [], [], []⟩

/-- Make a channel and put it at the front of the subscribers. -/
def addSubscriber : Proc (Pubsub V) Error Nat := fun p =>
  (.ok p.next, { p with
    chan := Function.update p.chan p.next ⟨[], false⟩, next := p.next + 1, subscribers := p.next :: p.subscribers })

/-- The list drops the element the first time only; the channel is queued for closing every time. -/
def removeSubscriber (p : Pubsub V) (ch : Nat) : Pubsub V :=
  { p with subscribers := p.subscribers.filter fun c => decide (c ≠ ch), toClose := p.toClose ++ [ch] }

def close (ch : Nat) : Proc (Pubsub V) Error Unit := fun p =>
  if (p.chan ch).closed then (.crash, p)
  else (.ok (), { p with chan := Function.update p.chan ch { p.chan ch with closed := true } })

def send (op : Op V) (ch : Nat) : Proc (Pubsub V) Error Unit := fun p =>
  if (p.chan ch).closed then (.crash, p)
  else if chanBufSize ≤ (p.chan ch).buf.length then (.block, p)
  else (.ok (), { p with
    chan := Function.update p.chan ch { p.chan ch with buf := (p.chan ch).buf ++ [op] }, sent := p.sent ++ [(ch, op)] })

/-- The first part of `Emit`. -/
def closeRemoved : Proc (Pubsub V) Error Unit := do
  let p ← Proc.get
  Proc.forEach close p.toClose
  Proc.modify fun p => { p with toClose := [] }

def emit (op : Op V) : Proc (Pubsub V) Error Unit := do
  closeRemoved
  let p ← Proc.get
  Proc.forEach (send op) p.subscribers

end Pubsub

/-! ## Transactions -/

structure Datastore (T V : Type) where
  db : Database T
  pubsub : Pubsub V

namespace Datastore

/-- `Wrap` over a database. -/
def wrap (d : Database T) : Datastore T V := ⟨d, Pubsub.new⟩

def onDB {α : Type} (x : Proc (Database T) Error α) : Proc (Datastore T V) Error α :=
  Proc.zoom db (fun d s => { s with db := d }) x

def onPubsub {α : Type} (x : Proc (Pubsub V) Error α) : Proc (Datastore T V) Error α :=
  Proc.zoom pubsub (fun p s => { s with pubsub := p }) x

@[simp] theorem onDB_apply {α : Type} (x : Proc (Database T) Error α) (s : Datastore T V) :
    onDB x s = ((x s.db).1, { s with db := (x s.db).2 }) := rfl

@[simp] theorem onPubsub_apply {α : Type} (x : Proc (Pubsub V) Error α) (s : Datastore T V) :
    onPubsub x s = ((x s.pubsub).1, { s with pubsub := (x s.pubsub).2 }) := rfl

theorem onDB_ok {α : Type} {x : Proc (Database T) Error α} {s s' : Datastore T V} {a : α} (h : onDB x s = (.ok a, s')) :
    x s.db = (.ok a, s'.db) ∧ s'.pubsub = s.pubsub := by
  rw [onDB_apply, Prod.mk.injEq] at h
  obtain ⟨ha, rfl⟩ := h
  exact ⟨Prod.ext ha rfl, rfl⟩

theorem onDB_pubsub {α : Type} (x : Proc (Database T) Error α) (s : Datastore T V) : (onDB x s).2.pubsub = s.pubsub :=
  rfl

/-- `commit` tells whether the commit, if it comes to one, succeeds. -/
def withTransaction {α : Type} (commit : Bool) (f : Proc (Datastore T V) Error α) : Proc (Datastore T V) Error α :=
  fun s =>
  match f s with
  | (.ok a, s') => if commit then (.ok a, s') else (.err .commit, { s' with db := s.db })
  | (.err e, s') => (.err e, { s' with db := s.db })
  | (.crash, s') => (.crash, { s' with db := s.db })
  | (.block, s') => (.block, s')

end Datastore

/-! ## The sink -/

/-- The operation that `Apply` works on: one from the log keeps its number. -/
def Op.assign (op : Op V) (fromLog : Bool) (d : Database T) : Op V :=
  if fromLog then op else op.withSequence d.getNextSequence

structure Snapshot (V : Type) where
  seq : Nat
  items : List V

/-- `crudlog.Subscription`: the preloaded operations and the channel with the live ones. -/
structure Subscription (V : Type) where
  preload : List (Op V)
  ch : Nat

namespace Datastore

variable (crud : CRUD T V) (enc : Encoding V)

def applyTx (op : Op V) (fromLog : Bool) : Proc (Datastore T V) Error Unit := do
  let s ← Proc.get
  onDB (Database.record crud enc (op.assign fromLog s.db))
  onPubsub (Pubsub.emit (op.assign fromLog s.db))

/-- The transaction up to the first send of `Emit`. -/
def applyWrites (op : Op V) (fromLog : Bool) : Proc (Datastore T V) Error Unit := do
  let s ← Proc.get
  onDB (Database.record crud enc (op.assign fromLog s.db))
  onPubsub Pubsub.closeRemoved

def apply (op : Op V) (fromLog commit : Bool) : Proc (Datastore T V) Error Unit :=
  withTransaction commit (applyTx crud enc op fromLog)

def loadSnapshotTx (snap : Snapshot V) : Proc (Datastore T V) Error Unit := onDB do
  Database.onTables crud.deleteAll
  Proc.forEach (fun obj => Database.onTables (crud.create obj)) snap.items
  Database.setSequence snap.seq

def loadSnapshot (snap : Snapshot V) (commit : Bool) : Proc (Datastore T V) Error Unit :=
  withTransaction commit (loadSnapshotTx crud snap)

def latestSequence (s : Datastore T V) : Nat := s.db.getSequence

/-! ## The source -/

/-- The transaction is read-only. -/
def snapshot (s : Datastore T V) : Outcome Error (Snapshot V) :=
  match (crud.each s.db.tables).1 with
  | .ok items => .ok ⟨s.db.getSequence, items⟩
  | .err e => .err e
  | .crash => .crash
  | .block => .block

def subscribeTx (start : Nat) : Proc (Datastore T V) Error (Subscription V) := do
  let s ← Proc.get
  if start > (s.db.getSequence + 1) % 2 ^ 64 then Proc.fail .horizon
  else do
    let preload ← Proc.lift (s.db.queryLogSince enc start)
    let ch ← onPubsub Pubsub.addSubscriber
    return ⟨preload, ch⟩

def subscribe (start : Nat) (commit : Bool) : Proc (Datastore T V) Error (Subscription V) :=
  withTransaction commit (subscribeTx enc start)

end Datastore

/-! ## What emitting does -/

namespace Pubsub

/-- The channels still subscribed are distinct, open, and not queued for closing. -/
structure Live (p : Pubsub V) : Prop where
  nodup : p.subscribers.Nodup
  lt : ∀ c ∈ p.subscribers, c < p.next
  opened : ∀ c ∈ p.subscribers, (p.chan c).closed = false
  disjoint : ∀ c ∈ p.subscribers, c ∉ p.toClose
  pending_lt : ∀ c ∈ p.toClose, c < p.next

/-- The channels queued for closing are distinct and open. -/
structure Pending (p : Pubsub V) : Prop where
  nodup : p.toClose.Nodup
  opened : ∀ c ∈ p.toClose, (p.chan c).closed = false

/-- `p` with some channels closed. -/
def closing (p : Pubsub V) (ids : List Nat) : Pubsub V :=
  { p with chan := fun c => { p.chan c with closed := (p.chan c).closed || decide (c ∈ ids) } }

/-- `p` with an operation sent to some channels. -/
def sending (p : Pubsub V) (op : Op V) (ids : List Nat) : Pubsub V :=
  { p with
    chan := fun c => { p.chan c with buf := if c ∈ ids then (p.chan c).buf ++ [op] else (p.chan c).buf }
    sent := p.sent ++ ids.map fun c => (c, op) }

/-- The pubsub after `Emit` has closed the channels that were removed. -/
def cleared (p : Pubsub V) : Pubsub V := { p.closing p.toClose with toClose := [] }

/-- The pubsub after an operation has gone to all subscribers. -/
def emitted (p : Pubsub V) (op : Op V) : Pubsub V := p.cleared.sending op p.subscribers

/-- The pubsub with one more channel, subscribed. -/
def subscribed (p : Pubsub V) : Pubsub V :=
  { p with
    chan := Function.update p.chan p.next ⟨[], false⟩, next := p.next + 1, subscribers := p.next :: p.subscribers }

theorem close_cases (ch : Nat) (p : Pubsub V) :
    ((p.chan ch).closed = true ∧ close ch p = (.crash, p)) ∨
      ((p.chan ch).closed = false ∧ close ch p = (.ok (), p.closing [ch])) := by
  unfold close
  cases hc : (p.chan ch).closed with
  | true => exact .inl ⟨rfl, if_pos rfl⟩
  | false =>
    refine .inr ⟨rfl, ?_⟩
    rw [if_neg Bool.false_ne_true]
    congr 2
    funext c
    by_cases h : c = ch
    · subst h; simp
    · simp [h]

theorem closing_closing (p : Pubsub V) (ids ids' : List Nat) :
    (p.closing ids).closing ids' = p.closing (ids ++ ids') := by
  unfold closing
  congr 1
  funext c
  simp [Bool.or_assoc]

theorem closing_nil (p : Pubsub V) : p.closing [] = p := by
  unfold closing; simp

/-- Closing a list of channels crashes before any send, or closes them all. -/
theorem forEach_close : ∀ (ids : List Nat) (p : Pubsub V),
    (∃ p', Proc.forEach close ids p = (.crash, p') ∧ p'.sent = p.sent) ∨
      Proc.forEach close ids p = (.ok (), p.closing ids)
  | [], p => .inr (by rw [closing_nil]; rfl)
  | ch :: ids, p => by
    rw [Proc.forEach_cons]
    rcases close_cases ch p with ⟨-, h⟩ | ⟨-, h⟩
    · exact .inl ⟨p, Proc.bind_of_crash h, rfl⟩
    · rw [Proc.bind_of_ok h]
      rcases forEach_close ids (p.closing [ch]) with ⟨p', h', hs⟩ | h'
      · exact .inl ⟨p', h', hs⟩
      · exact .inr (by rw [h', closing_closing]; rfl)

/-- Distinct open channels close. -/
theorem forEach_close_ok : ∀ (ids : List Nat) (p : Pubsub V), ids.Nodup → (∀ c ∈ ids, (p.chan c).closed = false) →
    Proc.forEach close ids p = (.ok (), p.closing ids)
  | [], p, _, _ => by rw [closing_nil]; rfl
  | ch :: ids, p, hn, ho => by
    obtain ⟨hch, hn⟩ := List.nodup_cons.1 hn
    rw [Proc.forEach_cons]
    rcases close_cases ch p with ⟨hc, -⟩ | ⟨-, h⟩
    · rw [ho ch List.mem_cons_self] at hc; cases hc
    · rw [Proc.bind_of_ok h, forEach_close_ok ids _ hn ?_, closing_closing]; rfl
      intro c hc
      have hne : c ≠ ch := fun h => hch (h ▸ hc)
      show ((p.chan c).closed || decide (c ∈ [ch])) = false
      simp [ho c (List.mem_cons_of_mem _ hc), hne]

theorem send_cases (op : Op V) (ch : Nat) (p : Pubsub V) (ho : (p.chan ch).closed = false) :
    send op ch p = (.block, p) ∨ send op ch p = (.ok (), p.sending op [ch]) := by
  unfold send
  rw [ho, if_neg Bool.false_ne_true]
  by_cases hl : chanBufSize ≤ (p.chan ch).buf.length
  · exact .inl (if_pos hl)
  · refine .inr ?_
    rw [if_neg hl]
    unfold sending
    congr 2
    funext c
    by_cases h : c = ch
    · subst h; simp [ho]
    · simp [h]

theorem sending_sending (p : Pubsub V) (op : Op V) {ids ids' : List Nat} (h : ∀ c ∈ ids, c ∉ ids') :
    (p.sending op ids).sending op ids' = p.sending op (ids ++ ids') := by
  unfold sending
  congr 1
  · funext c
    by_cases hc : c ∈ ids
    · simp [hc, h c hc]
    · simp [hc]
  · simp

/-- Sending to distinct open channels waits, or sends to them all. -/
theorem forEach_send (op : Op V) :
    ∀ (ids : List Nat) (p : Pubsub V), ids.Nodup → (∀ c ∈ ids, (p.chan c).closed = false) →
    (∃ p', Proc.forEach (send op) ids p = (.block, p')) ∨
      Proc.forEach (send op) ids p = (.ok (), p.sending op ids)
  | [], p, _, _ => .inr (by unfold sending; simp)
  | ch :: ids, p, hn, ho => by
    obtain ⟨hch, hn⟩ := List.nodup_cons.1 hn
    rw [Proc.forEach_cons]
    rcases send_cases op ch p (ho ch List.mem_cons_self) with h | h
    · exact .inl ⟨p, Proc.bind_of_block h⟩
    · rw [Proc.bind_of_ok h]
      rcases forEach_send op ids (p.sending op [ch]) hn fun c hc => ho c (List.mem_cons_of_mem _ hc) with ⟨p', h'⟩ | h'
      · exact .inl ⟨p', h'⟩
      · refine .inr ?_
        rw [h', sending_sending p op fun c hc => by rw [List.mem_singleton.1 hc]; exact hch]
        rfl

/-- Closing the removed channels crashes, or closes them all. -/
theorem closeRemoved_cases (p : Pubsub V) :
    (∃ p', closeRemoved p = (.crash, p') ∧ p'.sent = p.sent) ∨ closeRemoved p = (.ok (), p.cleared) := by
  have heq : closeRemoved p = (do Proc.forEach close p.toClose; Proc.modify fun p => { p with toClose := [] } :
    Proc (Pubsub V) Error Unit) p := rfl
  rw [heq]
  rcases forEach_close p.toClose p with ⟨p', h, hs⟩ | h
  · exact .inl ⟨p', Proc.bind_of_crash h, hs⟩
  · exact .inr (by rw [Proc.bind_of_ok h]; rfl)

/-- Without a channel queued twice, it closes them. -/
theorem closeRemoved_ok {p : Pubsub V} (hq : p.Pending) : closeRemoved p = (.ok (), p.cleared) := by
  have heq : closeRemoved p = (do Proc.forEach close p.toClose; Proc.modify fun p => { p with toClose := [] } :
    Proc (Pubsub V) Error Unit) p := rfl
  rw [heq, Proc.bind_of_ok (forEach_close_ok p.toClose p hq.nodup hq.opened)]
  rfl

theorem emit_of_crash {op : Op V} {p p' : Pubsub V} (h : closeRemoved p = (.crash, p')) : emit op p = (.crash, p') :=
  Proc.bind_of_crash h

theorem emit_of_cleared {op : Op V} {p : Pubsub V} (h : closeRemoved p = (.ok (), p.cleared)) :
    emit op p = Proc.forEach (send op) p.subscribers p.cleared := by
  unfold emit
  rw [Proc.bind_of_ok h]
  rfl

theorem Live.cleared_opened {p : Pubsub V} (h : p.Live) : ∀ c ∈ p.subscribers, (p.cleared.chan c).closed = false := by
  intro c hc
  show ((p.chan c).closed || decide (c ∈ p.toClose)) = false
  simp [h.opened c hc, h.disjoint c hc]

/-- Emitting crashes before any send, waits, or reaches all subscribers. -/
theorem emit_cases {p : Pubsub V} (hp : p.Live) (op : Op V) :
    (∃ p', emit op p = (.crash, p') ∧ p'.sent = p.sent) ∨ (∃ p', emit op p = (.block, p')) ∨
      emit op p = (.ok (), p.emitted op) := by
  rcases closeRemoved_cases p with ⟨p', h, hs⟩ | h
  · exact .inl ⟨p', emit_of_crash h, hs⟩
  · rw [emit_of_cleared h]
    exact .inr (forEach_send op p.subscribers _ hp.nodup hp.cleared_opened)

/-- Without a channel queued twice, emitting does not crash. -/
theorem emit_not_crash {p : Pubsub V} (hp : p.Live) (hq : p.Pending) (op : Op V) :
    (∃ p', emit op p = (.block, p')) ∨ emit op p = (.ok (), p.emitted op) := by
  rw [emit_of_cleared (closeRemoved_ok hq)]
  exact forEach_send op p.subscribers _ hp.nodup hp.cleared_opened

/-! ## What keeps the channels in order -/

@[simp] theorem emitted_subscribers (p : Pubsub V) (op : Op V) : (p.emitted op).subscribers = p.subscribers := rfl
@[simp] theorem emitted_toClose (p : Pubsub V) (op : Op V) : (p.emitted op).toClose = [] := rfl
@[simp] theorem emitted_next (p : Pubsub V) (op : Op V) : (p.emitted op).next = p.next := rfl

@[simp] theorem emitted_sent (p : Pubsub V) (op : Op V) :
    (p.emitted op).sent = p.sent ++ p.subscribers.map fun c => (c, op) := rfl

@[simp] theorem emitted_closed (p : Pubsub V) (op : Op V) (c : Nat) :
    ((p.emitted op).chan c).closed = ((p.chan c).closed || decide (c ∈ p.toClose)) := rfl

@[simp] theorem emitted_buf (p : Pubsub V) (op : Op V) (c : Nat) :
    ((p.emitted op).chan c).buf = if c ∈ p.subscribers then (p.chan c).buf ++ [op] else (p.chan c).buf := rfl

theorem subscribed_chan {p : Pubsub V} {c : Nat} (h : c ≠ p.next) : p.subscribed.chan c = p.chan c :=
  Function.update_of_ne h _ _

@[simp] theorem subscribed_chan_next (p : Pubsub V) : p.subscribed.chan p.next = ⟨[], false⟩ :=
  Function.update_self _ _ _

theorem Live.new : (Pubsub.new : Pubsub V).Live := by
  refine ⟨List.nodup_nil, ?_, ?_, ?_, ?_⟩ <;> simp [Pubsub.new]

theorem Live.cleared {p : Pubsub V} (h : p.Live) : p.cleared.Live :=
  ⟨h.nodup, h.lt, h.cleared_opened, fun _ _ => List.not_mem_nil, fun _ hc => (List.not_mem_nil hc).elim⟩

theorem Live.sending {p : Pubsub V} (h : p.Live) (op : Op V) (ids : List Nat) : (p.sending op ids).Live :=
  ⟨h.nodup, h.lt, h.opened, h.disjoint, h.pending_lt⟩

theorem Live.emitted {p : Pubsub V} (h : p.Live) (op : Op V) : (p.emitted op).Live := h.cleared.sending op p.subscribers

theorem Live.subscribed {p : Pubsub V} (h : p.Live) : p.subscribed.Live := by
  have hne : ∀ c ∈ p.subscribers, c ≠ p.next := fun c hc => Nat.ne_of_lt (h.lt c hc)
  refine ⟨List.nodup_cons.2 ⟨fun hm => hne _ hm rfl, h.nodup⟩, ?_, ?_, ?_, ?_⟩
  · intro c hc
    rcases List.mem_cons.1 hc with rfl | hc
    · exact Nat.lt_succ_self _
    · exact Nat.lt_succ_of_lt (h.lt c hc)
  · intro c hc
    rcases List.mem_cons.1 hc with rfl | hc
    · rw [subscribed_chan_next]
    · rw [subscribed_chan (hne c hc)]; exact h.opened c hc
  · intro c hc hm
    rcases List.mem_cons.1 hc with rfl | hc
    · exact Nat.lt_irrefl _ (h.pending_lt _ hm)
    · exact h.disjoint c hc hm
  · intro c hc
    exact Nat.lt_succ_of_lt (h.pending_lt c hc)

theorem mem_removeSubscriber {p : Pubsub V} {ch c : Nat} :
    c ∈ (p.removeSubscriber ch).subscribers ↔ c ∈ p.subscribers ∧ c ≠ ch := by
  unfold removeSubscriber; simp

theorem Live.removeSubscriber {p : Pubsub V} (h : p.Live) {ch : Nat} (hlt : ch < p.next) :
    (p.removeSubscriber ch).Live := by
  refine ⟨h.nodup.filter _, ?_, ?_, ?_, ?_⟩
  · intro c hc; exact h.lt c (mem_removeSubscriber.1 hc).1
  · intro c hc; exact h.opened c (mem_removeSubscriber.1 hc).1
  · intro c hc hm
    obtain ⟨hc, hne⟩ := mem_removeSubscriber.1 hc
    rcases List.mem_append.1 hm with hm | hm
    · exact h.disjoint c hc hm
    · exact hne (List.mem_singleton.1 hm)
  · intro c hc
    rcases List.mem_append.1 hc with hc | hc
    · exact h.pending_lt c hc
    · rw [List.mem_singleton.1 hc]; exact hlt

theorem Pending.new : (Pubsub.new : Pubsub V).Pending := by
  refine ⟨List.nodup_nil, ?_⟩; simp [Pubsub.new]

theorem Pending.cleared (p : Pubsub V) : p.cleared.Pending := ⟨List.nodup_nil, fun _ hc => (List.not_mem_nil hc).elim⟩

theorem Pending.sending {p : Pubsub V} (h : p.Pending) (op : Op V) (ids : List Nat) : (p.sending op ids).Pending :=
  ⟨h.nodup, h.opened⟩

theorem Pending.emitted (p : Pubsub V) (op : Op V) : (p.emitted op).Pending :=
  (Pending.cleared p).sending op p.subscribers

theorem Pending.subscribed {p : Pubsub V} (h : p.Pending) (hl : p.Live) : p.subscribed.Pending := by
  refine ⟨h.nodup, fun c hc => ?_⟩
  rw [subscribed_chan (Nat.ne_of_lt (hl.pending_lt c hc))]
  exact h.opened c hc

/-- A channel that is still subscribed can be queued for closing. -/
theorem Pending.removeSubscriber {p : Pubsub V} (h : p.Pending) (hl : p.Live) {ch : Nat} (hch : ch ∈ p.subscribers) :
    (p.removeSubscriber ch).Pending := by
  refine ⟨?_, ?_⟩
  · show (p.toClose ++ [ch]).Nodup
    rw [List.nodup_append]
    refine ⟨h.nodup, List.nodup_singleton _, ?_⟩
    rintro c hc c' hc' rfl
    rw [List.mem_singleton.1 hc'] at hc
    exact hl.disjoint ch hch hc
  · intro c hc
    rcases List.mem_append.1 hc with hc | hc
    · exact h.opened c hc
    · rw [List.mem_singleton.1 hc]; exact hl.opened ch hch

end Pubsub

end Wig.Crudlog
