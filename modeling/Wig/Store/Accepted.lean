/-
The requests a primary accepts, as calls on its tables, and the operations its log gives back for
them: numbered in order, with the values as they are read back from their rows.
-/
import Wig.Store.Primary

namespace Wig.Crudlog

def Call.value {V : Type} : Call V → V
  | .create v => v
  | .update v => v
  | .delete v => v

def Call.type {V : Type} : Call V → OpType
  | .create _ => .create
  | .update _ => .update
  | .delete _ => .delete

end Wig.Crudlog

namespace Wig.Store

open Wig.Lib Wig.Crudlog Wig.Model

/-! ## Calls on the tables -/

/-- The statement that a call runs. -/
def stmt : Call Value → Row → Stmt
  | .create _ => .insert
  | .update _ => .update
  | .delete _ => .delete

/-- What a call makes of the tables. -/
def call (t : Tables) (c : Call Value) : Except Error Tables := c.value.row.bind fun r => t.exec (stmt c r)

/-- What a list of calls makes of the tables, if each is accepted. -/
def calls : Tables → List (Call Value) → Except Error Tables
  | t, [] => .ok t
  | t, c :: cs => (call t c).bind fun t' => calls t' cs

section Effects

variable {t t' : Tables}

theorem call_create_interface {i : Interface} (h : call t (.create (.interface i)) = .ok t') :
    t.interfaces.insert i.row = some t'.interfaces ∧ t'.peers = t.peers := by
  change t.insert (.interface i.row) = .ok t' at h
  unfold Tables.insert at h
  simp only at h
  split at h
  · cases h
  · rename_i u hu; cases h; exact ⟨hu, rfl⟩

theorem call_delete_interface {i : Interface} (h : call t (.delete (.interface i)) = .ok t') :
    t'.interfaces = t.interfaces.erase i.name ∧ t'.peers = t.peers.filter fun p => decide (p.interface ≠ i.name) := by
  cases h; exact ⟨rfl, rfl⟩

theorem call_create_peer {p : Peer} (h : call t (.create (.peer p)) = .ok t') :
    p.interface ∈ t.interfaces.keys ∧ t.peers.insert p.row = some t'.peers ∧ t'.interfaces = t.interfaces := by
  change t.insert (.peer p.row) = .ok t' at h
  unfold Tables.insert at h
  simp only at h
  split at h
  · cases h
  · rename_i u hu
    split at h
    · rename_i hi; cases h; exact ⟨hi, hu, rfl⟩
    · cases h

theorem call_update_peer {p : Peer} (h : call t (.update (.peer p)) = .ok t') :
    t'.interfaces = t.interfaces ∧ t'.peers = t.peers.replace p.row := by
  change t.update (.peer p.row) = .ok t' at h
  unfold Tables.update at h
  simp only at h
  split at h
  · cases h; exact ⟨rfl, rfl⟩
  · cases h

theorem call_delete_peer {p : Peer} (h : call t (.delete (.peer p)) = .ok t') :
    t'.interfaces = t.interfaces ∧ t'.peers = t.peers.erase p.publicKey := by
  cases h; exact ⟨rfl, rfl⟩

theorem call_token {c : Call Value} {k : Token} (hc : c.value = .token k) (h : call t c = .ok t') :
    t'.interfaces = t.interfaces ∧ t'.peers = t.peers := by
  cases c with
  | create v =>
    cases hc
    change t.insert (.token k.row) = .ok t' at h
    unfold Tables.insert at h
    simp only at h
    split at h
    · cases h
    · cases h; exact ⟨rfl, rfl⟩
  | update v => cases hc; cases h; exact ⟨rfl, rfl⟩
  | delete v => cases hc; cases h; exact ⟨rfl, rfl⟩

theorem call_other {c : Call Value} (hc : c.value = .other) : call t c ≠ .ok t' := by
  intro h
  unfold call at h
  rw [hc] at h
  cases h

end Effects

/-- The operation that the log gives back for a call. -/
def logged (seq : Nat) (c : Call Value) : Op Value := ⟨seq, c.type, Time.zero, c.value.reread⟩

/-- The operations that the log gives back for a list of calls, after the first `n`. -/
def loggedFrom : Nat → List (Call Value) → List (Op Value)
  | _, [] => []
  | n, c :: cs => logged (n + 1) c :: loggedFrom (n + 1) cs

/-! ## Accepted requests -/

theorem call_of_applyOp (stack : Nat) {c : Call Value} {now : Time} {n : Nat} {t t' : Tables}
    (h : applyOp (crud stack) ((c.newOp now).withSequence n) t = (.ok (), t')) : call t c = .ok t' := by
  cases c with
  | create v => change (crud stack).create v t = _ at h; rw [crud_create] at h; exact namedExec_ok h
  | update v => change (crud stack).update v t = _ at h; rw [crud_update] at h; exact namedExec_ok h
  | delete v => change (crud stack).delete v t = _ at h; rw [crud_delete] at h; exact namedExec_ok h

theorem decode_logged {c : Call Value} {now : Time} {n : Nat} {row : OpSerialized}
    (h : ((c.newOp now).withSequence n).serialize encoding = .ok row) : row.decode encoding = .ok (logged n c) := by
  obtain ⟨hm, hs, ht, hz⟩ := Op.serialize_eq_ok h
  unfold OpSerialized.decode
  rw [unmarshalValue_marshalValue hm, hs, ht, hz]
  cases c <;> rfl

/-- What a request that succeeds leaves. -/
structure Accepted (c : Call Value) (s s' : Datastore Tables Value) : Prop where
  quiet : s'.pubsub.Quiet
  tables : call s.db.tables c = .ok s'.db.tables
  sequence : s'.db.sequence = s.db.sequence + 1
  row : ∃ row, s'.db.log.rows = s.db.log.rows ++ [row] ∧ row.decode encoding = .ok (logged (s.db.sequence + 1) c)

theorem request_ok (stack : Nat) {r : Request Value} {s : Datastore Tables Value} (hq : s.pubsub.Quiet)
    (h : (Datastore.request (crud stack) encoding r s).1 = .ok ()) :
    Accepted r.call s (Datastore.request (crud stack) encoding r s).2 := by
  have hcase := Datastore.apply_quiet (model_replayable stack) hq (r.call.newOp r.now) false r.commit
  unfold Datastore.request at h ⊢
  rcases hcase with ⟨e, he, -, -⟩ | ⟨row, d', hrec, -, heq⟩
  · rw [he] at h; cases h
  · have hseq := Datastore.assign_newOp r.call r.now s.db
    have hassign : (r.call.newOp r.now).assign false s.db = (r.call.newOp r.now).withSequence (s.db.sequence + 1) := by
      show (r.call.newOp r.now).withSequence s.db.getNextSequence = _
      rw [Database.getNextSequence_eq]
    rw [heq]
    refine ⟨hq.emitted _, ?_, hrec.sequence.trans hseq, row, hrec.rows, ?_⟩
    · exact call_of_applyOp stack (hassign ▸ hrec.applied)
    · exact decode_logged (hassign ▸ hrec.serialized)

/-- What requests that all succeed leave: the tables of their calls, and a row for each. -/
theorem requests_ok (stack : Nat) : ∀ (rs : List (Request Value)) {s : Datastore Tables Value}, s.pubsub.Quiet →
    (∀ x ∈ (Datastore.requests (crud stack) encoding rs s).1, x = .ok ()) →
    calls s.db.tables (rs.map Request.call) = .ok (Datastore.requests (crud stack) encoding rs s).2.db.tables ∧
      (Datastore.requests (crud stack) encoding rs s).2.db.sequence = s.db.sequence + rs.length ∧
      ∃ rows, (Datastore.requests (crud stack) encoding rs s).2.db.log.rows = s.db.log.rows ++ rows ∧
        rows.map (OpSerialized.decode encoding) = (loggedFrom s.db.sequence (rs.map Request.call)).map .ok
  | [], s, _, _ => ⟨rfl, rfl, [], (List.append_nil _).symm, rfl⟩
  | r :: rs, s, hq, hall => by
    obtain ⟨hq', ht, hs, row, hrow, hdec⟩ := request_ok stack hq (hall _ List.mem_cons_self)
    obtain ⟨htabs, hseq, rows, hrows, hdecs⟩ := requests_ok stack rs hq' fun x hx => hall x (List.mem_cons_of_mem _ hx)
    refine ⟨?_, ?_, row :: rows, ?_, ?_⟩
    · rw [List.map_cons, calls, ht]; exact htabs
    · rw [List.length_cons]; exact hseq.trans (by rw [hs]; omega)
    · exact hrows.trans (by rw [hrow, List.append_assoc, List.singleton_append])
    · rw [List.map_cons, hdec, hdecs, hs]; rfl

end Wig.Store
