/-
How an operation gets from a primary to a follower: through the channel of the same process, or as a
line of JSON over HTTP. Either way the follower applies an operation with the same row.
-/
import Wig.Crudlog.Calls

namespace Wig.Crudlog

open Wig.Lib Wig.Crud

variable {T V : Type} {crud : CRUD T V} {enc : Encoding V}

namespace OpType

def code : OpType → Int
  | .create => 1
  | .update => 2
  | .delete => 3
  | .unknown c => c

def ofCode (c : Int) : OpType :=
  if c = 1 then .create else if c = 2 then .update else if c = 3 then .delete else .unknown c

/-- One of the three types an operation can be applied with. -/
def Known : OpType → Prop
  | .unknown _ => False
  | _ => True

theorem Known.code_lt {t : OpType} (h : t.Known) : -2 ^ 63 ≤ t.code ∧ t.code < 2 ^ 63 := by
  cases t with
  | unknown c => exact h.elim
  | _ => decide

theorem Known.ofCode_code {t : OpType} (h : t.Known) : ofCode t.code = t := by
  cases t with
  | unknown c => exact h.elim
  | _ => rfl

end OpType

/-! ## JSON -/

namespace OpSerialized

def marshalJSON (r : OpSerialized) : Json :=
  .obj [("seq", .num r.seq), ("type", .num r.type.code), ("value", .bytes r.value), ("timestamp", .time r.timestamp)]

/-- A `Sequence`; a number outside its range is refused. -/
def sequenceInto (seq : Nat) : Json → Except Error Nat
  | .null => .ok seq
  | .num n => if 0 ≤ n ∧ n < 2 ^ 64 then .ok n.toNat else .error .json
  | _ => .error .json

def decodeSequence : List Json → Except Error Nat := Json.decodeInto sequenceInto 0

def typeInto (type : OpType) : Json → Except Error OpType
  | .null => .ok type
  | .num n => if -2 ^ 63 ≤ n ∧ n < 2 ^ 63 then .ok (.ofCode n) else .error .json
  | _ => .error .json

def decodeType : List Json → Except Error OpType := Json.decodeInto typeInto (.ofCode 0)

/-- A byte slice; an absent one holds no document. -/
def decodeBytes (values : List Json) : Except Error Json :=
  match values.getLast? with
  | some (.bytes doc) => .ok doc
  | _ => .error .json

def unmarshalJSON (doc : Json) : Except Error OpSerialized := do
  let doc ← doc.decodeStruct
  let seq ← decodeSequence (doc.field "seq")
  let type ← decodeType (doc.field "type")
  let value ← decodeBytes (doc.field "value")
  let timestamp ← Json.decodeTime (doc.field "timestamp")
  return { seq, type, value, timestamp }

theorem decodeSequence_num {seq : Nat} (h : seq < 2 ^ 64) : decodeSequence [.num seq] = .ok seq := by
  rw [decodeSequence, Json.decodeInto_singleton, sequenceInto, if_pos ⟨by omega, by omega⟩, Int.toNat_natCast]

theorem unmarshalJSON_marshalJSON {r : OpSerialized} (hs : r.seq < 2 ^ 64) (ht : r.type.Known) :
    unmarshalJSON r.marshalJSON = .ok r := by
  have htype : decodeType [.num r.type.code] = .ok r.type := by
    rw [decodeType, Json.decodeInto_singleton, typeInto, if_pos ht.code_lt, ht.ofCode_code]
  have h1 : r.marshalJSON.field "seq" = [.num r.seq] := by
    simp [marshalJSON, Json.field_cons, Json.sameName, Json.foldChar]
  have h2 : r.marshalJSON.field "type" = [.num r.type.code] := by
    simp [marshalJSON, Json.field_cons, Json.sameName, Json.foldChar]
  have h3 : r.marshalJSON.field "value" = [.bytes r.value] := by
    simp [marshalJSON, Json.field_cons, Json.sameName, Json.foldChar]
  have h4 : r.marshalJSON.field "timestamp" = [.time r.timestamp] := by
    simp [marshalJSON, Json.field_cons, Json.sameName, Json.foldChar]
  have h0 : ∀ f : Json → Except Error OpSerialized, (r.marshalJSON.decodeStruct >>= f) = f r.marshalJSON := fun _ => rfl
  unfold unmarshalJSON
  rw [h0, h1, h2, h3, h4, decodeSequence_num hs, htype]
  rfl

end OpSerialized

/-- `opWithEncoding.MarshalJSON`. -/
def Op.marshalJSON (enc : Encoding V) (op : Op V) : Except Error Json := (op.serialize enc).map OpSerialized.marshalJSON

/-- `opWithEncoding.UnmarshalJSON`. -/
def Op.unmarshalJSON (enc : Encoding V) (doc : Json) : Except Error (Op V) :=
  (OpSerialized.unmarshalJSON doc).bind (OpSerialized.decode enc)

/-! ## Transports -/

/-- `untyped` is what an object becomes when a snapshot is decoded without its type. -/
inductive Transport (V : Type) where
  | inProcess
  | http (untyped : V → V)

namespace Transport

/-- An operation on its way to the follower. -/
def carry (tr : Transport V) (enc : Encoding V) (op : Op V) : Except Error (Op V) :=
  match tr with
  | .inProcess => .ok op
  | .http _ => (op.marshalJSON enc).bind (Op.unmarshalJSON enc)

/-- A snapshot on its way to the follower: the remote client decodes its items as plain JSON values. -/
def carrySnapshot (tr : Transport V) (snap : Snapshot V) : Snapshot V :=
  match tr with
  | .inProcess => snap
  | .http untyped => { snap with items := snap.items.map untyped }

@[simp] theorem carrySnapshot_seq (tr : Transport V) (snap : Snapshot V) : (tr.carrySnapshot snap).seq = snap.seq := by
  cases tr <;> rfl

/-- The operation that arrives has the row of the one that was sent. -/
theorem carry_serialize (tr : Transport V) (hR : Replayable crud enc) {op : Op V} {row : OpSerialized}
    (hr : op.serialize enc = .ok row) (hs : row.seq < 2 ^ 63) (ht : row.type.Known) :
    ∃ op', tr.carry enc op = .ok op' ∧ op'.serialize enc = .ok row := by
  cases tr with
  | inProcess => exact ⟨op, rfl, hr⟩
  | http untyped =>
    obtain ⟨op', hd, hs', -, -⟩ := hR.decode_serialize hr
    refine ⟨op', ?_, hs'⟩
    have hm : op.marshalJSON enc = .ok row.marshalJSON := by unfold Op.marshalJSON; rw [hr]; rfl
    have hu : Op.unmarshalJSON enc row.marshalJSON = .ok op' := by
      unfold Op.unmarshalJSON
      rw [OpSerialized.unmarshalJSON_marshalJSON (by omega) ht]
      exact hd
    simp only [carry, hm, Except.bind, hu]

/-- What arrives over HTTP is the decoded row. -/
theorem carry_http (untyped : V → V) {op : Op V} {row : OpSerialized} (hr : op.serialize enc = .ok row)
    (hs : row.seq < 2 ^ 63) (ht : row.type.Known) : (Transport.http untyped).carry enc op = row.decode enc := by
  have hm : op.marshalJSON enc = .ok row.marshalJSON := by unfold Op.marshalJSON; rw [hr]; rfl
  have hu : Op.unmarshalJSON enc row.marshalJSON = row.decode enc := by
    unfold Op.unmarshalJSON
    rw [OpSerialized.unmarshalJSON_marshalJSON (by omega) ht]
    rfl
  simp only [carry, hm, Except.bind, hu]

end Transport

end Wig.Crudlog
