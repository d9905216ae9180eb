/-
The operations of the log and the database they are kept in: an operation's row, the log and
sequence tables, and the statements on them. A sequence number is an unsigned 64-bit integer; the
SQL layer refuses to bind one that a signed column cannot hold.
-/
import Wig.Crud.Registry
import Wig.Lib.Table
import Mathlib.Data.List.Sort

namespace Wig.Crudlog

open Wig.Lib Wig.Crud

inductive OpType where
  | create
  | update
  | delete
  | unknown (code : Int)
  deriving DecidableEq, Repr

/-- `Sequence.String`. -/
def sequenceString (seq : Nat) : String := String.ofList (Nat.toDigits 16 seq)

structure Op (V : Type) where
  seq : Nat
  type : OpType
  timestamp : Time
  value : V
  deriving DecidableEq, Repr

/-- A row of the log. -/
structure OpSerialized where
  seq : Nat
  type : OpType
  value : Json
  timestamp : Time

variable {T V : Type}

def Op.withSequence (o : Op V) (seq : Nat) : Op V := { o with seq := seq }

/-- The timestamp is not copied, so that every row has the zero one. -/
def Op.serialize (enc : Encoding V) (o : Op V) : Except Error OpSerialized :=
  (enc.marshalValue o.value).map fun b => { seq := o.seq, type := o.type, value := b, timestamp := Time.zero }

def OpSerialized.decode (enc : Encoding V) (r : OpSerialized) : Except Error (Op V) :=
  (enc.unmarshalValue r.value).map fun v => { seq := r.seq, type := r.type, timestamp := r.timestamp, value := v }

theorem Op.serialize_eq_ok {enc : Encoding V} {o : Op V} {r : OpSerialized} (h : o.serialize enc = .ok r) :
    enc.marshalValue o.value = .ok r.value ∧ r.seq = o.seq ∧ r.type = o.type ∧ r.timestamp = Time.zero := by
  unfold Op.serialize at h
  cases hm : enc.marshalValue o.value with
  | error e => rw [hm] at h; cases h
  | ok b => rw [hm] at h; cases h; exact ⟨rfl, rfl, rfl, rfl⟩

/-! ## The database -/

/-- `tables` are those of the CRUD layer; the other two are the log's own. -/
structure Database (T : Type) where
  tables : T
  log : Table OpSerialized.seq
  sequence : Nat
  sequence_lt : sequence < 2 ^ 63

namespace Database

/-- The database after the migrations, over the CRUD layer's fresh tables. -/
def fresh (t : T) : Database T := ⟨t, Table.empty, 0, by decide⟩

theorem ext {d d' : Database T} (ht : d.tables = d'.tables) (hl : d.log.rows = d'.log.rows)
    (hs : d.sequence = d'.sequence) : d = d' := by
  cases d; cases d'
  simp only at ht hl hs
  subst ht; subst hs
  rw [Table.ext hl]

def onTables {α : Type} (x : Proc T Error α) : Proc (Database T) Error α :=
  Proc.zoom tables (fun t d => { d with tables := t }) x

@[simp] theorem onTables_apply {α : Type} (x : Proc T Error α) (d : Database T) :
    onTables x d = ((x d.tables).1, { d with tables := (x d.tables).2 }) := rfl

theorem onTables_ok {α : Type} {x : Proc T Error α} {d d' : Database T} {a : α} (h : onTables x d = (.ok a, d')) :
    x d.tables = (.ok a, d'.tables) ∧ d'.log = d.log ∧ d'.sequence = d.sequence := by
  rw [onTables_apply, Prod.mk.injEq] at h
  obtain ⟨ha, rfl⟩ := h
  exact ⟨Prod.ext ha rfl, rfl, rfl⟩

def getSequence (d : Database T) : Nat := d.sequence

def getNextSequence (d : Database T) : Nat := (d.getSequence + 1) % 2 ^ 64

def setSequence (seq : Nat) : Proc (Database T) Error Unit := fun d =>
  if h : seq < 2 ^ 63 then (.ok (), { d with sequence := seq, sequence_lt := h }) else (.err .highBit, d)

def appendToLog (enc : Encoding V) (op : Op V) : Proc (Database T) Error Unit := fun d =>
  match op.serialize enc with
  | .error e => (.err e, d)
  | .ok row =>
    if row.seq < 2 ^ 63 then
      match d.log.insert row with
      | none => (.err .uniqueConstraint, d)
      | some log => (.ok (), { d with log := log })
    else (.err .highBit, d)

/-- The rows from a number on, in increasing order. -/
def rowsSince (d : Database T) (seq : Nat) : List OpSerialized :=
  (d.log.rows.filter fun r => decide (seq ≤ r.seq)).insertionSort fun r r' => r.seq ≤ r'.seq

def queryLogSince (enc : Encoding V) (d : Database T) (seq : Nat) : Except Error (List (Op V)) :=
  if seq < 2 ^ 63 then (d.rowsSince seq).mapM (OpSerialized.decode enc) else .error .highBit

end Database

def applyOp (crud : CRUD T V) (op : Op V) : Proc T Error Unit :=
  match op.type with
  | .create => crud.create op.value
  | .update => crud.update op.value
  | .delete => crud.delete op.value
  | .unknown _ => .fail .invalidOpType

/-- The three writes of a transaction that applies an operation. -/
def Database.record (crud : CRUD T V) (enc : Encoding V) (op : Op V) : Proc (Database T) Error Unit := do
  Database.onTables (applyOp crud op)
  Database.appendToLog enc op
  Database.setSequence op.seq

namespace Database

variable {crud : CRUD T V} {enc : Encoding V}

@[simp] theorem getNextSequence_eq (d : Database T) : d.getNextSequence = d.sequence + 1 := by
  have := d.sequence_lt
  unfold getNextSequence getSequence
  omega

theorem appendToLog_ok {op : Op V} {d d' : Database T} (h : appendToLog enc op d = (.ok (), d')) :
    ∃ row, op.serialize enc = .ok row ∧ op.seq < 2 ^ 63 ∧ op.seq ∉ d.log.keys ∧ d'.tables = d.tables ∧
      d'.sequence = d.sequence ∧ d'.log.rows = d.log.rows ++ [row] := by
  unfold appendToLog at h
  split at h
  · cases h
  · rename_i row hr
    obtain ⟨-, hs, -⟩ := Op.serialize_eq_ok hr
    split at h
    · rename_i hlt
      split at h
      · cases h
      · rename_i log hi
        cases h
        obtain ⟨hk, hrows⟩ := Table.insert_rows hi
        exact ⟨row, hr, hs ▸ hlt, hs ▸ hk, rfl, rfl, hrows⟩
    · cases h

theorem appendToLog_of {op : Op V} {d : Database T} {row : OpSerialized} (hr : op.serialize enc = .ok row)
    (hlt : op.seq < 2 ^ 63) (hk : op.seq ∉ d.log.keys) :
    ∃ d', appendToLog enc op d = (.ok (), d') ∧ d'.tables = d.tables ∧ d'.sequence = d.sequence ∧
      d'.log.rows = d.log.rows ++ [row] := by
  obtain ⟨-, hs, -⟩ := Op.serialize_eq_ok hr
  obtain ⟨log, hi, hrows⟩ := Table.insert_of_not_mem (hs ▸ hk : row.seq ∉ d.log.keys)
  refine ⟨{ d with log := log }, ?_, rfl, rfl, hrows⟩
  unfold appendToLog
  rw [hr]
  simp only [if_pos (show row.seq < 2 ^ 63 from hs ▸ hlt), hi]

theorem setSequence_ok {seq : Nat} {d d' : Database T} (h : setSequence seq d = (.ok (), d')) :
    seq < 2 ^ 63 ∧ d'.tables = d.tables ∧ d'.log = d.log ∧ d'.sequence = seq := by
  unfold setSequence at h
  split at h
  · rename_i hlt; cases h; exact ⟨hlt, rfl, rfl, rfl⟩
  · cases h

/-- What a recorded operation leaves: the tables it was applied to, its row at the end of the log,
and its number in the sequence table. -/
structure Recorded (crud : CRUD T V) (enc : Encoding V) (op : Op V) (row : OpSerialized)
    (d d' : Database T) : Prop where
  applied : applyOp crud op d.tables = (.ok (), d'.tables)
  serialized : op.serialize enc = .ok row
  seq_lt : op.seq < 2 ^ 63
  fresh : op.seq ∉ d.log.keys
  rows : d'.log.rows = d.log.rows ++ [row]
  sequence : d'.sequence = op.seq

theorem Recorded.mem_rows {op : Op V} {row x : OpSerialized} {d d' : Database T} (h : Recorded crud enc op row d d') :
    x ∈ d'.log.rows ↔ x ∈ d.log.rows ∨ x = row := by
  rw [h.rows, List.mem_append, List.mem_singleton]

theorem record_ok {op : Op V} {d d' : Database T} (h : record crud enc op d = (.ok (), d')) :
    ∃ row, Recorded crud enc op row d d' := by
  obtain ⟨_, d1, h1, h23⟩ := Proc.bind_ok h
  obtain ⟨_, d2, h2, h3⟩ := Proc.bind_ok h23
  obtain ⟨happ, hl1, -⟩ := onTables_ok h1
  obtain ⟨row, hr, hlt, hk, ht2, -, hrows⟩ := appendToLog_ok h2
  obtain ⟨-, ht3, hl3, hs3⟩ := setSequence_ok h3
  exact ⟨row, ⟨by rw [ht3, ht2]; exact happ, hr, hlt, hl1 ▸ hk, by rw [hl3, hrows, hl1], hs3⟩⟩

theorem record_of {op : Op V} {row : OpSerialized} {d d' : Database T} (h : Recorded crud enc op row d d') :
    record crud enc op d = (.ok (), d') := by
  have h1 : onTables (applyOp crud op) d = (.ok (), { d with tables := d'.tables }) := by
    rw [onTables_apply, h.applied]
  obtain ⟨d2, h2, ht2, hs2, hrows⟩ := appendToLog_of (d := { d with tables := d'.tables }) h.serialized h.seq_lt h.fresh
  have h3 : setSequence op.seq d2 = (.ok (), d') := by
    unfold setSequence
    rw [dif_pos h.seq_lt, Prod.mk.injEq]
    exact ⟨rfl, Database.ext ht2 (by rw [hrows, h.rows]) h.sequence.symm⟩
  unfold record
  rw [Proc.bind_of_ok h1, Proc.bind_of_ok h2, h3]

end Database

end Wig.Crudlog
