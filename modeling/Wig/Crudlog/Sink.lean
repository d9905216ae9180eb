/-
The datastore as a sink: what whole runs of `Apply` and `LoadSnapshot` leave of its log. Loading a
snapshot moves the sequence wherever the snapshot says and does not touch the log, so the rows of an
abandoned history stay in the way of the numbers they hold. And what any sink should do with an
operation out of sequence.
-/
import Wig.Crudlog.Integrity
import Wig.Crudlog.Horizon
import Wig.Lib.System

namespace Wig.Crudlog

open Wig.Lib Wig.Crud

variable {T V : Type} {crud : CRUD T V} {enc : Encoding V}

/-! ## Sinks -/

/-- A call on a sink; `commit` tells whether its commit succeeds. -/
inductive SinkEvent (V : Type) where
  | apply (op : Op V) (commit : Bool)
  | loadSnapshot (snap : Snapshot V) (commit : Bool)

/-- The number a call brings. -/
def SinkEvent.number : SinkEvent V → Nat
  | .apply op _ => op.seq
  | .loadSnapshot snap _ => snap.seq

namespace Datastore

def sinkCall (crud : CRUD T V) (enc : Encoding V) : SinkEvent V → Proc (Datastore T V) Error Unit
  | .apply op commit => apply crud enc op true commit
  | .loadSnapshot snap commit => loadSnapshot crud snap commit

/-- The runs of a sink. -/
def sink (crud : CRUD T V) (enc : Encoding V) : System (Datastore T V) (SinkEvent V) := .ofCalls (sinkCall crud enc)

/-- What a call that returns does to the sequence and to the log. -/
theorem sinkCall_cases {s s' : Datastore T V} {e : SinkEvent V} (hq : s.pubsub.Quiet)
    (h : (sink crud enc).step s e = some s') :
    s'.pubsub.Quiet ∧ (s'.db = s.db ∧ sinkCall crud enc e s ≠ (.ok (), s') ∨
      sinkCall crud enc e s = (.ok (), s') ∧ s'.db.sequence = e.number ∧
        (s'.db.log = s.db.log ∨ s'.db.log.keys = s.db.log.keys ++ [e.number])) := by
  have hret := System.ofCalls_step h
  cases e with
  | apply op commit =>
    have hcase := apply_cases crud enc hq.live op true commit
    rw [show op.assign true s.db = op from rfl] at hcase
    simp only [sinkCall] at hret ⊢
    generalize apply crud enc op true commit s = r at hcase hret
    cases hcase with
    | rejected e he =>
      rcases hret with ⟨a, hr⟩ | ⟨x, hr⟩ <;> cases hr
      exact ⟨hq, .inl ⟨rfl, by simp⟩⟩
    | crashed p hs hw => rcases hret with ⟨a, hr⟩ | ⟨x, hr⟩ <;> cases hr
    | blocked t hw => rcases hret with ⟨a, hr⟩ | ⟨x, hr⟩ <;> cases hr
    | committed row d' hr hc =>
      rcases hret with ⟨a, hr'⟩ | ⟨x, hr'⟩ <;> cases hr'
      exact ⟨hq.emitted op, .inr ⟨rfl, hr.sequence, .inr (Database.keys_recorded hr)⟩⟩
    | lost row d' hr hc =>
      rcases hret with ⟨a, hr'⟩ | ⟨x, hr'⟩ <;> cases hr'
      exact ⟨hq.emitted op, .inl ⟨rfl, by simp⟩⟩
  | loadSnapshot snap commit =>
    have hcase := loadSnapshot_cases crud snap commit s
    simp only [sinkCall] at hret ⊢
    generalize loadSnapshot crud snap commit s = r at hcase hret
    cases hcase with
    | failed e =>
      rcases hret with ⟨a, hr⟩ | ⟨x, hr⟩ <;> cases hr
      exact ⟨hq, .inl ⟨rfl, by simp⟩⟩
    | crashed => rcases hret with ⟨a, hr⟩ | ⟨x, hr⟩ <;> cases hr
    | blocked t => rcases hret with ⟨a, hr⟩ | ⟨x, hr⟩ <;> cases hr
    | committed d' hl hs =>
      rcases hret with ⟨a, hr⟩ | ⟨x, hr⟩ <;> cases hr
      exact ⟨hq, .inr ⟨rfl, hs, .inl hl⟩⟩

end Datastore

/-! ## A log that stays usable -/

/-- No row of the log has a number past the sequence. -/
def Database.LogBelow (d : Database T) : Prop := ∀ k ∈ d.log.keys, k ≤ d.sequence

/-- The operation can be stored and is valid on the tables. -/
structure Datastore.Valid (crud : CRUD T V) (enc : Encoding V) (s : Datastore T V) (op : Op V) : Prop where
  applies : ∃ t, applyOp crud op s.db.tables = (.ok (), t)
  encodes : ∃ row, op.serialize enc = .ok row
  fits : op.seq < 2 ^ 63

/-- The log is no obstacle to the next operation. -/
structure Datastore.LogUsable (crud : CRUD T V) (enc : Encoding V) (s : Datastore T V) : Prop where
  below : s.db.LogBelow
  accepts : ∀ op, op.seq = s.db.sequence + 1 → s.Valid crud enc op → (s.apply crud enc op true true).1 = .ok ()

theorem Database.recorded_of {d : Database T} {op : Op V} {row : OpSerialized} {t : T}
    (happ : applyOp crud op d.tables = (.ok (), t)) (hser : op.serialize enc = .ok row) (hlt : op.seq < 2 ^ 63)
    (hfresh : op.seq ∉ d.log.keys) : ∃ d', Recorded crud enc op row d d' := by
  obtain ⟨-, hs, -⟩ := Op.serialize_eq_ok hser
  obtain ⟨log, -, hrows⟩ := Table.insert_of_not_mem (hs ▸ hfresh : row.seq ∉ d.log.keys)
  exact ⟨⟨t, log, op.seq, hlt⟩, happ, hser, hlt, hfresh, hrows, rfl⟩

namespace Datastore

theorem logUsable_of {s : Datastore T V} (hq : s.pubsub.Quiet) (hb : s.db.LogBelow) : s.LogUsable crud enc := by
  refine ⟨hb, fun op hseq hv => ?_⟩
  obtain ⟨t, happ⟩ := hv.applies
  obtain ⟨row, hser⟩ := hv.encodes
  have hfresh : op.seq ∉ s.db.log.keys := fun hk => by
    have := hb _ hk
    omega
  obtain ⟨d', hr⟩ := Database.recorded_of happ hser hv.fits hfresh
  have happly : applyTx crud enc op true s = (.ok (), ⟨d', s.pubsub.emitted op⟩) := by
    rw [applyTx_eq, show op.assign true s.db = op from rfl]
    rw [Proc.bind_of_ok (by rw [onDB_apply, Database.record_of hr]), onPubsub_apply, hq.emit_eq]
  unfold apply
  rw [withTransaction_ok happly]
  rfl

/-- The number of the call is not below any in the log. -/
def NotBelowLog (s : Datastore T V) (e : SinkEvent V) : Prop := ∀ k ∈ s.db.log.keys, k ≤ e.number

instance (s : Datastore T V) (e : SinkEvent V) : Decidable (s.NotBelowLog e) :=
  inferInstanceAs (Decidable (∀ k ∈ s.db.log.keys, k ≤ e.number))

theorem logBelow_step {s s' : Datastore T V} {e : SinkEvent V} (hs : s.pubsub.Quiet ∧ s.db.LogBelow)
    (he : s.NotBelowLog e) (h : (sink crud enc).step s e = some s') : s'.pubsub.Quiet ∧ s'.db.LogBelow := by
  obtain ⟨hq, ⟨hdb, -⟩ | ⟨-, hseq, hlog⟩⟩ := sinkCall_cases hs.1 h
  · exact ⟨hq, hdb ▸ hs.2⟩
  · refine ⟨hq, fun k hk => ?_⟩
    rw [hseq]
    rcases hlog with hlog | hkeys
    · exact he k (hlog ▸ hk)
    · rw [hkeys, List.mem_append, List.mem_singleton] at hk
      rcases hk with hk | rfl
      · exact he k hk
      · exact le_rfl

/-- A call that succeeds and leaves the log below the sequence brought no number below the log. -/
theorem notBelowLog_of_step {s s' : Datastore T V} {e : SinkEvent V} (hq : s.pubsub.Quiet)
    (h : sinkCall crud enc e s = (.ok (), s')) (hb : s'.db.LogBelow) : s.NotBelowLog e := by
  obtain ⟨-, ⟨-, hne⟩ | ⟨-, hseq, hlog⟩⟩ := sinkCall_cases hq (System.ofCalls_ok h)
  · exact absurd h hne
  · intro k hk
    rw [← hseq]
    rcases hlog with hlog | hkeys
    · exact hb k (hlog ▸ hk)
    · exact hb k (hkeys ▸ List.mem_append_left _ hk)

/-- A run whose calls bring no number below the log leaves the log usable all along. -/
theorem sink_logUsable {s : Datastore T V} (hq : s.pubsub.Quiet) (hb : s.db.LogBelow) {es : List (SinkEvent V)}
    (h : (sink crud enc).Along NotBelowLog s es) : (sink crud enc).Throughout (LogUsable crud enc) s es := by
  have hthr := System.throughout_of_along (I := fun s : Datastore T V => s.pubsub.Quiet ∧ s.db.LogBelow)
    (fun _ _ _ hs he hstep => logBelow_step hs he hstep) es s ⟨hq, hb⟩ h
  exact hthr.mono fun s hs => logUsable_of hs.1 hs.2

/-- And a run that leaves it usable had no other call succeed. -/
theorem notBelowLog_of_sink {s : Datastore T V} (hq : s.pubsub.Quiet) {es : List (SinkEvent V)}
    (h : (sink crud enc).Throughout (LogUsable crud enc) s es) :
    (sink crud enc).Along (fun s e => (sinkCall crud enc e s).1 = .ok () → s.NotBelowLog e) s es := by
  refine System.along_of_throughout (K := fun s : Datastore T V => s.pubsub.Quiet)
    (fun s e s' hs hstep => (sinkCall_cases hs hstep).1) (fun s e hs hnext hok => ?_) es s hq h
  obtain ⟨s', hs'⟩ := Proc.ok_of_fst hok
  exact notBelowLog_of_step hs hs' (hnext s' (System.ofCalls_ok hs')).below

end Datastore

/-! ## Operations out of sequence -/

/-- The number after another, an unsigned 64-bit integer. -/
def nextNumber (n : Nat) : Nat := (n + 1) % 2 ^ 64

/-- A sink accepts just the operation with the next number, and refuses any other with
`ErrOutOfSequence` and without a trace; `view` is what of the sink counts. -/
structure GuardsSequence {σ κ : Type} (latestSequence : σ → Nat) (view : σ → κ) (apply : Op V → Proc σ Error Unit)
    (s : σ) (op : Op V) : Prop where
  accepted : (apply op s).1 = .ok () → op.seq = nextNumber (latestSequence s)
  refused : op.seq ≠ nextNumber (latestSequence s) →
    (apply op s).1 = .err .outOfSequence ∧ view (apply op s).2 = view s

/-- A sink that never returns `ErrOutOfSequence` guards nothing. -/
theorem guardsSequence_iff {σ κ κ' : Type} {latestSequence : σ → Nat} {view : σ → κ} {view' : σ → κ'}
    {apply : Op V → Proc σ Error Unit} {op : Op V} (h : (apply op).Leaves view' fun e => e ≠ .outOfSequence) (s : σ) :
    GuardsSequence latestSequence view apply s op ↔ op.seq = nextNumber (latestSequence s) := by
  constructor
  · intro hg
    by_contra hne
    exact (h s).2 _ (hg.refused hne).1 rfl
  · exact fun heq => ⟨fun _ => heq, fun hne => absurd heq hne⟩

/-- The sequence goes up by one or stays, call after call. -/
def Stepwise {σ η : Type} (S : System σ η) (latestSequence : σ → Nat) (s : σ) (e : η) : Prop :=
  ∀ s', S.step s e = some s' →
    latestSequence s' = latestSequence s ∨ latestSequence s' = nextNumber (latestSequence s)

namespace Datastore

theorem withTransaction_leaves {κ : Type} {view : Datastore T V → κ} {E : Error → Prop} {α : Type}
    {f : Proc (Datastore T V) Error α} (hf : f.Leaves view E) (hc : E .commit) (commit : Bool) :
    (withTransaction commit f).Leaves (fun _ => ()) E := by
  refine fun s => ⟨rfl, fun e he => ?_⟩
  have herr := (hf s).2
  unfold withTransaction at he
  rcases h : f s with ⟨(a | e' | _ | _), s'⟩ <;> rw [h] at he herr <;> simp only at he
  · cases commit <;> simp only [Bool.false_eq_true, if_true, if_false] at he <;> cases he
    exact hc
  · cases he
    exact herr _ rfl
  · cases he
  · cases he

theorem appendToLog_leaves {E : Error → Prop} {op : Op V} (henc : ∀ e, enc.marshalValue op.value = .error e → E e)
    (hunique : E .uniqueConstraint) (hbit : E .highBit) :
    (Database.appendToLog enc op : Proc (Database T) Error Unit).Leaves (fun _ => ()) E := by
  refine fun d => ⟨rfl, fun e he => ?_⟩
  unfold Database.appendToLog Op.serialize at he
  cases hm : enc.marshalValue op.value with
  | error e' => rw [hm] at he; cases he; exact henc _ hm
  | ok b =>
    rw [hm] at he
    simp only [Except.map] at he
    split at he
    · split at he <;> cases he
      exact hunique
    · cases he
      exact hbit

theorem setSequence_leaves {E : Error → Prop} (hbit : E .highBit) (seq : Nat) :
    (Database.setSequence seq : Proc (Database T) Error Unit).Leaves (fun _ => ()) E := by
  refine fun d => ⟨rfl, fun e he => ?_⟩
  unfold Database.setSequence at he
  split at he <;> cases he
  exact hbit

theorem closeRemoved_leaves (E : Error → Prop) :
    (Pubsub.closeRemoved : Proc (Pubsub V) Error Unit).Leaves (fun _ => ()) E := by
  refine Proc.leaves_get.bind fun p => (Proc.Leaves.forEach (fun ch => ?_) _).bind fun _ =>
    Proc.leaves_modify (by intro _; rfl)
  refine fun p => ⟨rfl, fun e he => ?_⟩
  unfold Pubsub.close at he
  split at he <;> cases he

/-- A closed channel crashes the call and a full one makes it wait; neither is an error. -/
theorem emit_leaves (E : Error → Prop) (op : Op V) : (Pubsub.emit op).Leaves (fun _ => ()) E := by
  refine (closeRemoved_leaves E).bind fun _ => Proc.leaves_get.bind fun p => Proc.Leaves.forEach (fun ch => ?_) _
  refine fun p => ⟨rfl, fun e he => ?_⟩
  unfold Pubsub.send at he
  split at he
  · cases he
  · split at he <;> cases he

/-- Nothing of the transaction but the CRUD and the encoding can name an error of its own. -/
theorem apply_leaves {E : Error → Prop} {op : Op V} (happ : (applyOp crud op).Leaves (fun _ => ()) E)
    (henc : ∀ e, enc.marshalValue op.value = .error e → E e) (hunique : E .uniqueConstraint) (hbit : E .highBit)
    (hcommit : E .commit) (commit : Bool) : (apply crud enc op true commit).Leaves (fun _ => ()) E := by
  have hrecord : (Database.record crud enc op).Leaves (fun _ => ()) E :=
    Proc.Leaves.bind (happ.zoom (by intro _ _; rfl)) fun _ =>
      (appendToLog_leaves henc hunique hbit).bind fun _ => setSequence_leaves hbit op.seq
  have hbody : (applyTx crud enc op true).Leaves (fun _ => ()) E := Proc.leaves_get.bind fun s =>
    Proc.Leaves.bind (hrecord.zoom (by intro _ _; rfl)) fun _ => (emit_leaves E op).zoom (by intro _ _; rfl)
  exact withTransaction_leaves hbody hcommit commit

theorem withTransaction_err_db {α : Type} {f : Proc (Datastore T V) Error α} {commit : Bool} {s s' : Datastore T V}
    {e : Error} (h : withTransaction commit f s = (.err e, s')) : s'.db = s.db := by
  unfold withTransaction at h
  rcases hf : f s with ⟨(a | e' | _ | _), t⟩ <;> rw [hf] at h <;> simp only at h
  · cases commit <;> simp only [Bool.false_eq_true, if_true, if_false] at h <;> cases h
    rfl
  · cases h; rfl
  · cases h
  · cases h

theorem apply_ok_sequence {op : Op V} {commit : Bool} {s s' : Datastore T V}
    (h : apply crud enc op true commit s = (.ok (), s')) : s'.db.sequence = op.seq := by
  unfold apply at h
  rcases hf : applyTx crud enc op true s with ⟨(a | e' | _ | _), t⟩
  · rw [withTransaction_ok hf] at h
    cases commit <;> simp only [Bool.false_eq_true, if_true, if_false] at h <;> cases h
    rw [applyTx_eq, show op.assign true s.db = op from rfl] at hf
    obtain ⟨_, t₁, h₁, h₂⟩ := Proc.bind_ok hf
    obtain ⟨row, hr⟩ := Database.record_ok (onDB_ok h₁).1
    rw [onPubsub_apply, Prod.mk.injEq] at h₂
    rw [← h₂.2]
    exact hr.sequence
  · rw [withTransaction_err hf] at h; cases h
  · rw [withTransaction_crash hf] at h; cases h
  · rw [withTransaction_block hf] at h; cases h

/-- An operation from the log with the next number moves the sequence by one, or not at all. -/
theorem stepwise_apply {s : Datastore T V} {op : Op V} (hop : op.seq = nextNumber s.latestSequence) (commit : Bool) :
    Stepwise (sink crud enc) latestSequence s (.apply op commit) := by
  intro s' hs'
  rcases System.ofCalls_step hs' with ⟨_, h⟩ | ⟨e, h⟩
  · exact .inr ((apply_ok_sequence h).trans hop)
  · exact .inl (by unfold latestSequence; rw [withTransaction_err_db h])

end Datastore

end Wig.Crudlog
