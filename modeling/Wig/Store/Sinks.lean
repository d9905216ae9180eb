/-
The two sinks of operations against what is asked of any: that loading a snapshot leaves the log
usable, and that an operation out of sequence is refused.
-/
import Wig.Crudlog.Sink
import Wig.Gateway.Sequence
import Wig.Store.Broadcast

namespace Wig.Store

open Wig.Lib Wig.Crud Wig.Model Wig.Crudlog

/-! ## Snapshots and the log -/

/-- In every run of a fresh sink in which no call brings a number below one in the log, the log stays
below the sequence and the next valid operation is accepted; and a run in which that is so had no
other call succeed. -/
theorem snapshot_keeps_log_usable {T V : Type} (crud : CRUD T V) (enc : Encoding V) (t : T) (es : List (SinkEvent V)) :
    ((Datastore.sink crud enc).Along Datastore.NotBelowLog (Datastore.wrap (Database.fresh t)) es →
      (Datastore.sink crud enc).Throughout (Datastore.LogUsable crud enc) (Datastore.wrap (Database.fresh t)) es) ∧
    ((Datastore.sink crud enc).Throughout (Datastore.LogUsable crud enc) (Datastore.wrap (Database.fresh t)) es →
      (Datastore.sink crud enc).Along (fun s e => (Datastore.sinkCall crud enc e s).1 = .ok () → s.NotBelowLog e)
        (Datastore.wrap (Database.fresh t)) es) := by
  have hbelow : (Database.fresh t).LogBelow := fun k hk => (List.not_mem_nil hk).elim
  exact ⟨fun h => Datastore.sink_logUsable Pubsub.Quiet.new hbelow h,
    fun h => Datastore.notBelowLog_of_sink Pubsub.Quiet.new h⟩

/-- A follower loads a snapshot, and follows from there. -/
def loadedRun : List (SinkEvent Value) :=
  [.loadSnapshot ⟨100, []⟩ true, .apply ⟨101, .create, Time.zero, .token ⟨"a", "", none⟩⟩ true,
    .apply ⟨102, .delete, Time.zero, .token ⟨"a", "", none⟩⟩ true]

theorem snapshot_keeps_log_usable_loadedRun :
    ((Datastore.sink listCRUD encoding).run (Datastore.wrap (Database.fresh [])) loadedRun).map
      (fun s => s.db.log.keys) = some [101, 102] ∧
    (Datastore.sink listCRUD encoding).Throughout (Datastore.LogUsable listCRUD encoding)
    (Datastore.wrap (Database.fresh []))
      loadedRun := by
  refine ⟨by decide +kernel, (snapshot_keeps_log_usable listCRUD encoding [] loadedRun).1 ?_⟩
  decide +kernel

/-- A follower loads a snapshot, follows for one operation, and loads the snapshot of a primary that
was restored to where it had been. -/
def rewindRun : List (SinkEvent Value) :=
  [.loadSnapshot ⟨100, []⟩ true, .apply ⟨101, .create, Time.zero, .token ⟨"a", "", none⟩⟩ true,
    .loadSnapshot ⟨100, []⟩ true]

/-- What the restored primary sends next. -/
def rewoundOp : Op Value := ⟨101, .create, Time.zero, .token ⟨"b", "", none⟩⟩

/-- The row of the first operation 101 is still in the log, and so the second is refused. -/
theorem rewind_blocks_log : ¬ ∀ (es : List (SinkEvent Value)) (s : Datastore (List Value) Value),
    (Datastore.sink listCRUD encoding).run (Datastore.wrap (Database.fresh [])) es = some s →
      s.LogUsable listCRUD encoding := by
  intro h
  have hrun : ((Datastore.sink listCRUD encoding).run (Datastore.wrap (Database.fresh [])) rewindRun).map
      (fun s => (s.db.sequence, (s.apply listCRUD encoding rewoundOp true true).1)) =
      some (100, .err .uniqueConstraint) := by decide +kernel
  obtain ⟨s, hs, hfacts⟩ := Option.map_eq_some_iff.1 hrun
  rw [Prod.mk.injEq] at hfacts
  have hok := (h rewindRun s hs).accepts rewoundOp (by rw [hfacts.1]; rfl) ⟨⟨_, rfl⟩, ⟨_, rfl⟩, by decide⟩
  rw [hfacts.2] at hok
  cases hok

/-! ## Operations out of sequence -/

theorem exec_ne_outOfSequence {t : Tables} {stmt : Stmt} {e : Error} (h : t.exec stmt = .error e) :
    e ≠ .outOfSequence := by
  cases stmt with
  | insert r =>
    cases r <;> simp only [Tables.exec, Tables.insert] at h <;> split at h
    · cases h; decide
    · cases h
    · cases h; decide
    · split at h <;> cases h
      decide
    · cases h; decide
    · cases h
  | update r =>
    cases r <;> simp only [Tables.exec, Tables.update] at h
    · cases h
    · split at h <;> cases h
      decide
    · cases h
  | delete r => cases h
  | deleteAll n => cases h

theorem namedExec_leaves (stmt : Row → Stmt) (v : Value) :
    (namedExec stmt v).Leaves (fun _ => ()) fun e => e ≠ .outOfSequence := by
  refine fun t => ⟨rfl, fun e he => ?_⟩
  unfold namedExec at he
  split at he
  · cases he
  · rename_i e' herr
    cases he
    cases v with
    | other => cases herr; decide
    | interface i => exact exec_ne_outOfSequence herr
    | peer p => exact exec_ne_outOfSequence herr
    | token t => exact exec_ne_outOfSequence herr

theorem model_apply_leaves (stack : Nat) (commit : Bool) (op : Op Value) :
    (Datastore.apply (Model.crud stack) encoding op true commit).Leaves (fun _ => ()) fun e => e ≠ .outOfSequence := by
  refine Datastore.apply_leaves ?_ (fun e he => ?_) (by decide) (by decide) (by decide) commit
  · unfold applyOp
    split
    · rw [crud_create]; exact namedExec_leaves _ _
    · rw [crud_update]; exact namedExec_leaves _ _
    · rw [crud_delete]; exact namedExec_leaves _ _
    · exact Proc.leaves_fail (by decide)
  · cases hv : op.value with
    | other => rw [hv] at he; cases he; decide
    | interface i => rw [hv] at he; cases he
    | peer p => rw [hv] at he; cases he
    | token t => rw [hv] at he; cases he

/-- The datastore as the follower uses it. -/
def datastoreApply (stack : Nat) (commit : Bool) (op : Op Value) : Proc (Datastore Tables Value) Error Unit :=
  Datastore.apply (Model.crud stack) encoding op true commit

def gatewayApply (op : Op Value) : Proc Gateway Error Unit := Gateway.apply op true

/-- Each sink treats an operation as it should in just those states whose sequence the operation
continues: none of them looks at the number. Where every operation of a stream continues the
sequence, it goes up by ones. -/
theorem sinks_guard_sequence (stack : Nat) (commit : Bool) (s : Datastore Tables Value) (g : Gateway) (op : Op Value) :
    (GuardsSequence Datastore.latestSequence Datastore.db (datastoreApply stack commit) s op ↔
      op.seq = nextNumber s.latestSequence) ∧
    (GuardsSequence Gateway.latestSequence Gateway.configuration gatewayApply g op ↔
      op.seq = nextNumber g.latestSequence) ∧
    (∀ ops : List (Op Value × Bool),
      (Datastore.sink (Model.crud stack) encoding).Along (fun s e => e.number = nextNumber s.latestSequence) s
          (ops.map fun op => .apply op.1 op.2) →
        (Datastore.sink (Model.crud stack) encoding).Along
          (Stepwise (Datastore.sink (Model.crud stack) encoding) Datastore.latestSequence) s
          (ops.map fun op => .apply op.1 op.2)) ∧
    ∀ ops : List (Op Value),
      Gateway.system.Along (fun g e => ∀ op, e = .apply op true → op.seq = nextNumber g.latestSequence) g
          (ops.map fun op => .apply op true) →
        Gateway.system.Along (Stepwise Gateway.system Gateway.latestSequence) g (ops.map fun op => .apply op true) := by
  refine ⟨guardsSequence_iff (model_apply_leaves stack commit op) s,
    guardsSequence_iff (Gateway.apply_leaves op true) g, fun ops => ?_, fun ops => ?_⟩
  · induction ops generalizing s with
    | nil => exact fun _ => trivial
    | cons op ops ih => exact fun h => ⟨Datastore.stepwise_apply h.1 op.2, fun s' hs' => ih s' (h.2 s' hs')⟩
  · induction ops generalizing g with
    | nil => exact fun _ => trivial
    | cons op ops ih => exact fun h => ⟨Gateway.stepwise_apply (h.1 op rfl) true, fun g' hg' => ih g' (h.2 g' hg')⟩

/-- Operations 1 and 2. -/
def firstTokens : List (Op Value) :=
  [⟨1, .create, Time.zero, .token ⟨"a", "", none⟩⟩, ⟨2, .create, Time.zero, .token ⟨"b", "", none⟩⟩]

theorem sinks_guard_sequence_firstTokens :
    (Datastore.sink (Model.crud 0) encoding).Along
      (Stepwise (Datastore.sink (Model.crud 0) encoding) Datastore.latestSequence) fresh
      ((firstTokens.map fun op => (op, true)).map fun op => .apply op.1 op.2) ∧
    Gateway.system.Along (Stepwise Gateway.system Gateway.latestSequence) (Gateway.new Gateway.sampleHost)
      (firstTokens.map fun op => .apply op true) := by
  obtain ⟨-, -, hstore, hgateway⟩ := sinks_guard_sequence 0 true fresh (Gateway.new Gateway.sampleHost)
    ⟨1, .create, Time.zero, .token ⟨"a", "", none⟩⟩
  refine ⟨hstore _ ?_, hgateway _ ?_⟩
  · decide +kernel
  · refine ⟨?_, ?_⟩
    · rintro op ⟨⟩
      rfl
    · rintro g ⟨⟩
      refine ⟨?_, fun _ _ => trivial⟩
      rintro op ⟨⟩
      rfl

/-- A fresh datastore and a fresh gateway, both at 0, take operation 5. -/
theorem sinks_take_any_number :
    (¬ ∀ (stack : Nat) (commit : Bool) (s : Datastore Tables Value) (op : Op Value),
      GuardsSequence Datastore.latestSequence Datastore.db (datastoreApply stack commit) s op) ∧
    ¬ ∀ (g : Gateway) (op : Op Value),
      GuardsSequence Gateway.latestSequence Gateway.configuration gatewayApply g op := by
  constructor
  · intro h
    have hg := h 0 true fresh ⟨5, .create, Time.zero, .token ⟨"a", "", none⟩⟩
    exact absurd (hg.accepted rfl) (by decide)
  · intro h
    have hg := h (Gateway.new Gateway.sampleHost) ⟨5, .create, Time.zero, .token ⟨"a", "", none⟩⟩
    exact absurd (hg.accepted rfl) (by decide)

end Wig.Store
