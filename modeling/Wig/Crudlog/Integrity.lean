/-
The integrity of a log written through the datastore's own `Create`, `Update` and `Delete`: its
rows are numbered from 1 to the value of the sequence table without a gap, and applying them in
order to the fresh tables gives the current ones.
-/
import Wig.Crudlog.Remote

namespace Wig.Crudlog

open Wig.Lib Wig.Crud

variable {T V : Type}

/-! ## The writer -/

/-- A call of `crudLogWriter`. -/
inductive Call (V : Type) where
  | create (obj : V)
  | update (obj : V)
  | delete (obj : V)

/-- A call, the time it is made at, and whether its transaction can commit. -/
structure Request (V : Type) where
  call : Call V
  now : Time
  commit : Bool

def newOp (type : OpType) (now : Time) (obj : V) : Op V := { seq := 0, type := type, timestamp := now, value := obj }

def Call.newOp (now : Time) : Call V → Op V
  | .create obj => Crudlog.newOp .create now obj
  | .update obj => Crudlog.newOp .update now obj
  | .delete obj => Crudlog.newOp .delete now obj

namespace Datastore

variable (crud : CRUD T V) (enc : Encoding V)

def request (r : Request V) : Proc (Datastore T V) Error Unit := apply crud enc (r.call.newOp r.now) false r.commit

/-- What a list of requests returned, and the datastore after them. -/
def requests : List (Request V) → Datastore T V → List (Outcome Error Unit) × Datastore T V
  | [], s => ([], s)
  | r :: rs, s =>
    let (x, s') := request crud enc r s
    let (xs, s'') := requests rs s'
    (x :: xs, s'')

end Datastore

/-! ## Integrity -/

/-- Apply the operations of some rows of a log in order. -/
def replay (crud : CRUD T V) (enc : Encoding V) : List OpSerialized → Proc T Error Unit :=
  Proc.forEach fun row => do applyOp crud (← Proc.lift (row.decode enc))

theorem applyOp_known {crud : CRUD T V} {op : Op V} {t t' : T} (h : applyOp crud op t = (.ok (), t')) :
    op.type.Known := by
  obtain ⟨seq, ty, ts, v⟩ := op
  cases ty with
  | unknown c => cases h
  | _ => trivial

/-- The database of a primary that started with the tables `t₀`. -/
structure Database.Integral (crud : CRUD T V) (enc : Encoding V) (t₀ : T) (d : Database T) : Prop where
  numbered : d.log.rows.map OpSerialized.seq = List.range' 1 d.sequence
  encoded : ∀ row ∈ d.log.rows, ∃ op : Op V, op.serialize enc = .ok row
  known : ∀ row ∈ d.log.rows, row.type.Known
  replays : replay crud enc d.log.rows t₀ = (.ok (), d.tables)

variable {crud : CRUD T V} {enc : Encoding V} {t₀ : T}

theorem replay_append (rows rows' : List OpSerialized) (t : T) :
    replay crud enc (rows ++ rows') t = (do replay crud enc rows; replay crud enc rows' : Proc T Error Unit) t :=
  Proc.forEach_append _ rows rows' t

theorem replay_singleton (hR : Replayable crud enc) {op : Op V} {row : OpSerialized} (hr : op.serialize enc = .ok row)
    {t t' : T} (ha : applyOp crud op t = (.ok (), t')) : replay crud enc [row] t = (.ok (), t') := by
  obtain ⟨op', hd, -, -, happ⟩ := hR.decode_serialize hr
  unfold replay
  rw [Proc.forEach_cons]
  have h1 : (do applyOp crud (← Proc.lift (row.decode enc)) : Proc T Error Unit) t = (.ok (), t') := by
    rw [Proc.bind_of_ok (a := op') (by rw [Proc.lift_apply, hd]; rfl), happ, ha]
  rw [Proc.bind_of_ok h1]; rfl

namespace Database.Integral

theorem fresh (crud : CRUD T V) (enc : Encoding V) (t₀ : T) : Integral crud enc t₀ (Database.fresh t₀) :=
  ⟨rfl, fun _ h => (List.not_mem_nil h).elim, fun _ h => (List.not_mem_nil h).elim, rfl⟩

theorem length_rows {d : Database T} (h : Integral crud enc t₀ d) : d.log.rows.length = d.sequence := by
  have := congrArg List.length h.numbered
  simpa using this

theorem mem_keys {d : Database T} (h : Integral crud enc t₀ d) (n : Nat) : n ∈ d.log.keys ↔ 1 ≤ n ∧ n ≤ d.sequence := by
  unfold Table.keys
  rw [h.numbered, List.mem_range'_1]
  omega

/-- Recording the operation with the next number keeps the integrity. -/
theorem recorded (hR : Replayable crud enc) {d d' : Database T} {op : Op V} {row : OpSerialized}
    (h : Integral crud enc t₀ d) (hr : Recorded crud enc op row d d') (hs : op.seq = d.sequence + 1) :
    Integral crud enc t₀ d' := by
  have hrow : row.seq = d.sequence + 1 := by rw [(Op.serialize_eq_ok hr.serialized).2.1, hs]
  refine ⟨?_, ?_, ?_, ?_⟩
  · rw [hr.rows, List.map_append, h.numbered, hr.sequence, hs, List.range'_1_concat,
      List.map_singleton, hrow, Nat.add_comm]
  · intro x hx
    rcases hr.mem_rows.1 hx with hx | rfl
    · exact h.encoded x hx
    · exact ⟨op, hr.serialized⟩
  · intro x hx
    rcases hr.mem_rows.1 hx with hx | rfl
    · exact h.known x hx
    · rw [(Op.serialize_eq_ok hr.serialized).2.2.1]; exact applyOp_known hr.applied
  · rw [hr.rows, replay_append, Proc.bind_of_ok h.replays]
    exact replay_singleton hR hr.serialized hr.applied

end Database.Integral

/-! ## Runs of requests -/

/-- Nobody is subscribed, and no channel waits to be closed. -/
structure Pubsub.Quiet (p : Pubsub V) : Prop where
  subscribers : p.subscribers = []
  toClose : p.toClose = []

namespace Pubsub.Quiet

theorem new : (Pubsub.new : Pubsub V).Quiet := ⟨rfl, rfl⟩

theorem emitted {p : Pubsub V} (h : p.Quiet) (op : Op V) : (p.emitted op).Quiet := ⟨h.subscribers, rfl⟩

theorem live {p : Pubsub V} (h : p.Quiet) : p.Live := by
  refine ⟨?_, ?_, ?_, ?_, ?_⟩ <;> simp [h.subscribers, h.toClose]

theorem emit_eq {p : Pubsub V} (h : p.Quiet) (op : Op V) : Pubsub.emit op p = (.ok (), p.emitted op) := by
  have hq : p.Pending := by refine ⟨?_, ?_⟩ <;> simp [h.toClose]
  rcases Pubsub.emit_not_crash h.live hq op with ⟨p', hb⟩ | hok
  · rw [Pubsub.emit_of_cleared (Pubsub.closeRemoved_ok hq), h.subscribers] at hb; cases hb
  · exact hok

end Pubsub.Quiet

theorem Database.record_returned (hR : Replayable crud enc) (op : Op V) (d : Database T) :
    (Database.record crud enc op d).1.Returned := by
  refine Proc.bind_returned ?_ fun _ d1 _ => Proc.bind_returned ?_ fun _ d2 _ => ?_
  · exact hR.applyOp_returned op d.tables
  · unfold Database.appendToLog
    split
    · trivial
    · split
      · split <;> trivial
      · trivial
  · unfold Database.setSequence
    split <;> trivial

namespace Datastore

theorem apply_quiet (hR : Replayable crud enc) {s : Datastore T V} (hq : s.pubsub.Quiet) (op : Op V)
    (fromLog commit : Bool) :
    (∃ e, (apply crud enc op fromLog commit s).1 = .err e ∧ (apply crud enc op fromLog commit s).2.db = s.db ∧
        (apply crud enc op fromLog commit s).2.pubsub.Quiet) ∨
      ∃ row d', Database.Recorded crud enc (op.assign fromLog s.db) row s.db d' ∧ commit = true ∧
        apply crud enc op fromLog commit s = (.ok (), ⟨d', s.pubsub.emitted (op.assign fromLog s.db)⟩) := by
  have hret := Database.record_returned hR (op.assign fromLog s.db) s.db
  have hemit := hq.emit_eq (op.assign fromLog s.db)
  have hcase := apply_cases crud enc hq.live op fromLog commit
  revert hcase
  generalize apply crud enc op fromLog commit s = r
  intro hcase
  cases hcase with
  | rejected e he => exact .inl ⟨e, rfl, rfl, hq⟩
  | crashed p hs hw =>
    exfalso
    rcases hw with hw | hw
    · rw [hw] at hret; exact hret
    · rw [hemit] at hw; cases hw
  | blocked s' hw =>
    exfalso
    rcases hw with hw | hw
    · rw [hw] at hret; exact hret
    · rw [hemit] at hw; cases hw
  | committed row d' hr hc => exact .inr ⟨row, d', hr, hc, rfl⟩
  | lost row d' hr hc => exact .inl ⟨.commit, rfl, rfl, hq.emitted _⟩

theorem assign_newOp (c : Call V) (now : Time) (d : Database T) :
    ((c.newOp now).assign false d).seq = d.sequence + 1 := Database.getNextSequence_eq d

/-- One request: an error leaves the database as it was, and a success adds the next row. -/
theorem request_cases (hR : Replayable crud enc) (r : Request V) {s : Datastore T V} (hq : s.pubsub.Quiet)
    (hi : s.db.Integral crud enc t₀) :
    (request crud enc r s).2.pubsub.Quiet ∧ (request crud enc r s).2.db.Integral crud enc t₀ ∧
      ((∃ e, (request crud enc r s).1 = .err e ∧ (request crud enc r s).2.db = s.db) ∨
        ((request crud enc r s).1 = .ok () ∧ (request crud enc r s).2.db.sequence = s.db.sequence + 1)) := by
  unfold request
  rcases apply_quiet hR hq (r.call.newOp r.now) false r.commit with ⟨e, he, hdb, hq'⟩ | ⟨row, d', hrec, -, h⟩
  · exact ⟨hq', hdb ▸ hi, .inl ⟨e, he, hdb⟩⟩
  · rw [h]
    have hs := assign_newOp r.call r.now s.db
    exact ⟨hq.emitted _, hi.recorded hR hrec hs, .inr ⟨rfl, hrec.sequence.trans hs⟩⟩

/-- What every operation keeps of the tables, requests keep. -/
theorem requests_tables (hR : Replayable crud enc) {I : T → Prop}
    (hI : ∀ op t t', I t → applyOp crud op t = (.ok (), t') → I t') : ∀ (rs : List (Request V)) {s : Datastore T V},
    s.pubsub.Quiet → I s.db.tables → I (requests crud enc rs s).2.db.tables
  | [], _, _, hs => hs
  | r :: rs, s, hq, hs => by
    rcases apply_quiet hR hq (r.call.newOp r.now) false r.commit with ⟨e, -, hdb, hq'⟩ | ⟨row, d', hrec, -, h⟩
    · exact requests_tables hR hI rs (s := (request crud enc r s).2) hq' (by rw [request, hdb]; exact hs)
    · refine requests_tables hR hI rs (s := (request crud enc r s).2) ?_ ?_
      · rw [request, h]; exact hq.emitted _
      · rw [request, h]; exact hI _ _ _ hs hrec.applied

/-- A list of requests: the integrity is kept, and the sequence counts the successes. -/
theorem requests_spec (hR : Replayable crud enc) : ∀ (rs : List (Request V)) {s : Datastore T V}, s.pubsub.Quiet →
    s.db.Integral crud enc t₀ →
    (requests crud enc rs s).2.pubsub.Quiet ∧ (requests crud enc rs s).2.db.Integral crud enc t₀ ∧
      (requests crud enc rs s).2.db.sequence = s.db.sequence + (requests crud enc rs s).1.count (.ok ()) ∧
      ∀ x ∈ (requests crud enc rs s).1, x.Returned
  | [], s, hq, hi => ⟨hq, hi, rfl, fun _ h => (List.not_mem_nil h).elim⟩
  | r :: rs, s, hq, hi => by
    obtain ⟨hq', hi', hcase⟩ := request_cases hR r hq hi
    obtain ⟨hq'', hi'', hseq, hret⟩ := requests_spec hR rs hq' hi'
    refine ⟨hq'', hi'', ?_, ?_⟩
    · show (requests crud enc rs (request crud enc r s).2).2.db.sequence =
        s.db.sequence + ((request crud enc r s).1 :: (requests crud enc rs (request crud enc r s).2).1).count (.ok ())
      rw [hseq]
      rcases hcase with ⟨e, he, hdb⟩ | ⟨hok, hs⟩
      · rw [hdb, he, List.count_cons_of_ne (by simp)]
      · rw [hs, hok, List.count_cons_self]; omega
    · intro x hx
      rcases List.mem_cons.1 hx with rfl | hx
      · show (request crud enc r s).1.Returned
        rcases hcase with ⟨e, he, -⟩ | ⟨hok, -⟩
        · rw [he]; trivial
        · rw [hok]; trivial
      · exact hret x hx

end Datastore

end Wig.Crudlog
