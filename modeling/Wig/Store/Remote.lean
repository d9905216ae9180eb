/-
A snapshot fetched over HTTP. The stream of operations carries each object with the name of its
type, but a snapshot is sent as a plain list of objects, and comes back as a list of maps.
-/
import Wig.Gateway.Wireguard
import Wig.Store.Copy

namespace Wig.Store

open Wig.Lib Wig.Crud Wig.Model Wig.Crudlog

/-! ## The document of a snapshot -/

/-- `memSnapshot` as `handleSnapshot` writes it. -/
def marshalSnapshot (snap : Snapshot Value) : Json :=
  .obj [("seq", .num snap.seq), ("items", .arr (snap.items.map Value.marshal))]

/-- A value read into an `interface{}`: of an object, a generic map, which is of no registered type. -/
def decodeAny (_ : Json) : Value := .other

def itemsInto (_ : List Value) : Json → Except Error (List Value)
  | .null => .ok []
  | .arr items => .ok (items.map decodeAny)
  | _ => .error .json

def decodeItems : List Json → Except Error (List Value) := Json.decodeInto itemsInto []

/-- `memSnapshot` as `doSnapshot` reads it. -/
def unmarshalSnapshot (doc : Json) : Except Error (Snapshot Value) := do
  let doc ← doc.decodeStruct
  let seq ← OpSerialized.decodeSequence (doc.field "seq")
  let items ← decodeItems (doc.field "items")
  return ⟨seq, items⟩

/-- What the remote client makes of the primary's snapshot. -/
def remoteSnapshot (snap : Snapshot Value) : Except Error (Snapshot Value) := unmarshalSnapshot (marshalSnapshot snap)

/-- The HTTP transport of the replica, with maps for objects. -/
theorem remoteSnapshot_eq {snap : Snapshot Value} (h : snap.seq < 2 ^ 64) :
    remoteSnapshot snap = .ok ((Transport.http fun _ => Value.other).carrySnapshot snap) := by
  have h1 : (marshalSnapshot snap).field "seq" = [.num snap.seq] := by
    simp [marshalSnapshot, Json.field_cons, Json.sameName, Json.foldChar]
  have h2 : (marshalSnapshot snap).field "items" = [.arr (snap.items.map Value.marshal)] := by
    simp [marshalSnapshot, Json.field_cons, Json.sameName, Json.foldChar]
  have h0 : ∀ f : Json → Except Error (Snapshot Value),
      ((marshalSnapshot snap).decodeStruct >>= f) = f (marshalSnapshot snap) := fun _ => rfl
  unfold remoteSnapshot unmarshalSnapshot
  rw [h0, h1, h2, OpSerialized.decodeSequence_num h]
  simp only [Transport.carrySnapshot]
  show Except.ok (Snapshot.mk snap.seq ((snap.items.map Value.marshal).map decodeAny)) = _
  simp only [List.map_map]
  rfl

/-! ## Loading it -/

/-- The remote snapshot is the local one: it visits the same objects with the same types, and either
sink makes the same of it. -/
structure SameAsLocal (snap remote : Snapshot Value) : Prop where
  seq : remote.seq = snap.seq
  objects : remote.items.map Value.reread = snap.items.map Value.reread
  types : remote.items.map Value.typeOf = snap.items.map Value.typeOf
  datastore : ∀ order commit (s : Datastore Tables Value),
    s.loadSnapshot (orderedCRUD order) remote commit = s.loadSnapshot (orderedCRUD order) snap commit
  gateway : ∀ g : Gateway, g.loadSnapshot remote = g.loadSnapshot snap

/-- A datastore refuses a map. -/
theorem loadSnapshot_other (order : List TableName) (seq n : Nat) (commit : Bool) (s : Datastore Tables Value) :
    s.loadSnapshot (orderedCRUD order) ⟨seq, List.replicate (n + 1) .other⟩ commit = (.err .unknownType, s) := by
  have hempty : (orderedCRUD order).deleteAll s.db.tables = (.ok (), Tables.empty) := rfl
  have hcreate : (orderedCRUD order).create .other Tables.empty = (.err .unknownType, Tables.empty) := rfl
  have hload : Datastore.reload (orderedCRUD order) (List.replicate (n + 1) .other) s.db.tables =
      (.err .unknownType, Tables.empty) := by
    unfold Datastore.reload
    rw [Proc.bind_of_ok hempty, List.replicate_succ, Proc.forEach_cons, Proc.bind_of_err hcreate]
  exact Datastore.loadSnapshot_of_err hload commit

/-- A gateway drops it: the interfaces are closed and none is configured. -/
theorem gateway_loadSnapshot_other (seq n : Nat) (g : Gateway) :
    g.loadSnapshot ⟨seq, List.replicate n .other⟩ = g.loadSnapshot ⟨seq, []⟩ := by
  have hi : Gateway.snapshotInterfaces (List.replicate n .other) = [] := by
    simp [Gateway.snapshotInterfaces, Gateway.asInterface]
  unfold Gateway.loadSnapshot
  simp only [hi]
  rfl

/-- A snapshot of registered objects comes through HTTP as itself only if it is empty: a datastore
refuses any other, and a gateway takes every other for an empty one. -/
theorem remote_snapshot_iff (snap : Snapshot Value) (hseq : snap.seq < 2 ^ 64)
    (hreg : ∀ v ∈ snap.items, v.typeOf ≠ .other) :
    ((∃ remote, remoteSnapshot snap = .ok remote ∧ SameAsLocal snap remote) ↔ snap.items = []) ∧
      (snap.items ≠ [] → ∃ remote, remoteSnapshot snap = .ok remote ∧
        (∀ order commit (s : Datastore Tables Value), s.loadSnapshot (orderedCRUD order) remote commit =
          (.err .unknownType, s)) ∧
        ∀ g : Gateway, g.loadSnapshot remote = g.loadSnapshot ⟨snap.seq, []⟩) := by
  have hremote := remoteSnapshot_eq hseq
  have hitems : ((Transport.http fun _ => Value.other).carrySnapshot snap) =
      ⟨snap.seq, List.replicate snap.items.length .other⟩ := by
    simp [Transport.carrySnapshot]
  rw [hitems] at hremote
  refine ⟨⟨?_, fun hnil => ?_⟩, fun hne => ⟨_, hremote, fun order commit s => ?_, fun g => ?_⟩⟩
  · rintro ⟨remote, hr, hsame⟩
    rw [hremote] at hr
    cases hr
    -- the first object would have to be of no registered type
    cases hl : snap.items with
    | nil => rfl
    | cons v l =>
      have htypes := hsame.types
      rw [hl, List.length_cons, List.replicate_succ, List.map_cons, List.map_cons, List.cons.injEq] at htypes
      exact absurd htypes.1.symm (hreg v (by rw [hl]; exact List.mem_cons_self))
  · obtain ⟨seq, items⟩ := snap
    cases hnil
    exact ⟨_, hremote, rfl, rfl, rfl, fun _ _ _ => rfl, fun _ => rfl⟩
  · obtain ⟨n, hn⟩ := Nat.exists_eq_succ_of_ne_zero (fun h => hne (List.length_eq_zero_iff.1 h))
    rw [hn]
    exact loadSnapshot_other order snap.seq n commit s
  · exact gateway_loadSnapshot_other snap.seq _ g

theorem remote_snapshot_token :
    (∃ remote, remoteSnapshot ⟨7, []⟩ = .ok remote ∧ SameAsLocal ⟨7, []⟩ remote) ∧
      ¬ ∃ remote, remoteSnapshot ⟨7, [.token ⟨"a", "s", none⟩]⟩ = .ok remote ∧
        SameAsLocal ⟨7, [.token ⟨"a", "s", none⟩]⟩ remote := by
  constructor
  · exact (remote_snapshot_iff ⟨7, []⟩ (by decide) (by simp)).1.2 rfl
  · intro h
    have hnil := (remote_snapshot_iff ⟨7, [.token ⟨"a", "s", none⟩]⟩ (by decide) (by simp [Value.typeOf])).1.1 h
    cases hnil

/-- A token does not come through. -/
theorem remote_snapshot_untyped : ¬ ∀ snap : Snapshot Value, snap.seq < 2 ^ 64 → (∀ v ∈ snap.items, v.typeOf ≠ .other) →
    ∃ remote, remoteSnapshot snap = .ok remote ∧ SameAsLocal snap remote := by
  intro h
  obtain ⟨remote, hr, hsame⟩ := h ⟨7, [.token ⟨"a", "s", none⟩]⟩ (by decide) (by simp [Value.typeOf])
  cases hr
  exact absurd hsame.types (by decide)

end Wig.Store
