/-
The three registered object types and the `Model` they make: its CRUD over the tables and its
encoding. Reading a value back from its encoding gives a value that every operation treats the same.
-/
import Wig.Crud.Registry
import Wig.Model.Tables

namespace Wig.Model

open Wig.Lib Wig.Crud

/-- An object as the program passes it around; `other` has a type that is not registered. -/
inductive Value where
  | interface (i : Interface)
  | peer (p : Peer)
  | token (t : Token)
  | other
  deriving DecidableEq

inductive GoType where
  | interface
  | peer
  | token
  | other
  deriving DecidableEq

namespace Value

def typeOf : Value → GoType
  | .interface _ => .interface
  | .peer _ => .peer
  | .token _ => .token
  | .other => .other

/-- `json.Marshal`. -/
def marshal : Value → Json
  | .interface i => i.marshalJSON
  | .peer p => p.marshalJSON
  | .token t => t.marshalJSON
  | .other => .obj []

/-- What the parameters of a named statement are bound to. -/
def row : Value → Except Error Row
  | .interface i => .ok (.interface i.row)
  | .peer p => .ok (.peer p.row)
  | .token t => .ok (.token t.row)
  | .other => .error .unknownType

end Value

/-- Every row of the tables as an object, the contents of a snapshot with types. -/
def Tables.objects (t : Tables) : Except Error (List Value) := do
  let intfs ← t.interfaces.rows.mapM InterfaceRow.scan
  let peers ← t.peers.rows.mapM PeerRow.scan
  return intfs.map .interface ++ peers.map .peer ++ t.tokens.rows.map fun r => .token r.scan

/-- `NamedExec`. -/
def namedExec (stmt : Row → Stmt) (obj : Value) : Proc Tables Error Unit := fun t =>
  match obj.row.bind fun r => t.exec (stmt r) with
  | .ok t' => (.ok (), t')
  | .error e => (.err e, t)

/-- `NewSQLTableType`. `Each` runs `Find` with a nil query, whose statement ends in `WHERE`. -/
def newSQLTableType (typename : String) (table : TableName) (newFn : Value) (unmarshal : Json → Except Error Value) :
    ObjType Tables Value :=
  { name := typename
    newInstance := newFn
    unmarshal := unmarshal
    create := namedExec .insert
    update := namedExec .update
    delete := namedExec .delete
    deleteAll := .modify fun t => t.deleteAll table
    each := .fail .syntaxError }

def peerType : ObjType Tables Value :=
  newSQLTableType "peer" .peers (.peer ⟨"", "", none, none, Time.zero⟩) fun doc => (Peer.unmarshalJSON doc).map .peer

def interfaceType : ObjType Tables Value :=
  newSQLTableType "interface" .interfaces (.interface ⟨"", 0, none, none, 0, "", ""⟩) fun doc =>
    (Interface.unmarshalJSON doc).map .interface

def tokenType : ObjType Tables Value :=
  newSQLTableType "token" .tokens (.token ⟨"", "", none⟩) fun doc => (Token.unmarshalJSON doc).map .token

/-- `model.Model`. -/
def registry : Registry Tables Value GoType :=
  ((Registry.empty.register Value.typeOf peerType).register Value.typeOf interfaceType).register Value.typeOf tokenType

def crud (stack : Nat) : CRUD Tables Value := registry.crud Value.typeOf stack

def encoding : Encoding Value := registry.encoding Value.typeOf Value.marshal

/-! ## What a call does -/

theorem getType_interface (i : Interface) : registry.getType Value.typeOf (.interface i) = some interfaceType := rfl
theorem getType_peer (p : Peer) : registry.getType Value.typeOf (.peer p) = some peerType := rfl

/-- Every operation runs its statement on the row of its object, and refuses an object without one. -/
theorem crud_create (stack : Nat) (v : Value) : (crud stack).create v = namedExec .insert v := by
  cases v <;> rfl

theorem crud_update (stack : Nat) (v : Value) : (crud stack).update v = namedExec .update v := by
  cases v <;> rfl

theorem crud_delete (stack : Nat) (v : Value) : (crud stack).delete v = namedExec .delete v := by
  cases v <;> rfl

theorem namedExec_of_ok {stmt : Row → Stmt} {v : Value} {r : Row} {t t' : Tables} (hr : v.row = .ok r)
    (h : t.exec (stmt r) = .ok t') : namedExec stmt v t = (.ok (), t') := by
  have hexec : (v.row.bind fun r => t.exec (stmt r)) = .ok t' := by rw [hr]; exact h
  unfold namedExec
  rw [hexec]

theorem namedExec_of_error {stmt : Row → Stmt} {v : Value} {r : Row} {t : Tables} {e : Error} (hr : v.row = .ok r)
    (h : t.exec (stmt r) = .error e) : namedExec stmt v t = (.err e, t) := by
  have hexec : (v.row.bind fun r => t.exec (stmt r)) = .error e := by rw [hr]; exact h
  unfold namedExec
  rw [hexec]

theorem namedExec_ok {s : Row → Stmt} {v : Value} {t t' : Tables} (h : namedExec s v t = (.ok (), t')) :
    (v.row.bind fun r => t.exec (s r)) = .ok t' := by
  unfold namedExec at h
  split at h
  · rename_i hr; cases h; exact hr
  · cases h

theorem namedExec_of_row_eq {stmt : Row → Stmt} {v v' : Value} (h : v.row = v'.row) :
    namedExec stmt v = namedExec stmt v' := by
  funext t; unfold namedExec; rw [h]

theorem namedExec_returned (stmt : Row → Stmt) (v : Value) (t : Tables) : (namedExec stmt v t).1.Returned := by
  unfold namedExec
  split <;> trivial

/-! ## Reading a value back -/

namespace Value

def reread : Value → Value
  | .interface i => .interface i.reread
  | .peer p => .peer p.reread
  | .token t => .token t
  | .other => .other

@[simp] theorem row_reread (v : Value) : v.reread.row = v.row := by
  cases v <;> simp [reread, row]

theorem marshalValue_reread (v : Value) : encoding.marshalValue v.reread = encoding.marshalValue v := by
  cases v with
  | interface i => simp [encoding, Registry.encoding, Registry.marshalValue, reread, getType_interface, marshal]
  | peer p => simp [encoding, Registry.encoding, Registry.marshalValue, reread, getType_peer, marshal]
  | token t => rfl
  | other => rfl

end Value

/-- A document of an object is read as the object, by its own type. -/
theorem unmarshal_marshal {v : Value} {m : ObjType Tables Value} (h : registry.getType Value.typeOf v = some m) :
    m.unmarshal v.marshal = .ok v.reread := by
  cases v with
  | interface i =>
    cases h
    show (Interface.unmarshalJSON i.marshalJSON).map Value.interface = _
    rw [Interface.unmarshalJSON_marshalJSON]; rfl
  | peer p =>
    cases h
    show (Peer.unmarshalJSON p.marshalJSON).map Value.peer = _
    rw [Peer.unmarshalJSON_marshalJSON]; rfl
  | token t =>
    cases h
    show (Token.unmarshalJSON t.marshalJSON).map Value.token = _
    rw [Token.unmarshalJSON_marshalJSON]; rfl
  | other => cases h

theorem unmarshalValue_marshalValue {v : Value} {doc : Json} (h : encoding.marshalValue v = .ok doc) :
    encoding.unmarshalValue doc = .ok v.reread := by
  cases v with
  | interface i =>
    cases h
    exact (registry.unmarshalValue_container _ _).trans (unmarshal_marshal (getType_interface i))
  | peer p =>
    cases h
    exact (registry.unmarshalValue_container _ _).trans (unmarshal_marshal (getType_peer p))
  | token t =>
    cases h
    have htype : registry.getType Value.typeOf (.token t) = some tokenType := rfl
    exact (registry.unmarshalValue_container _ _).trans (unmarshal_marshal htype)
  | other => cases h

end Wig.Model
