/-
The generic CRUD layer: a registry of object types, the dispatcher that routes a call to the type of
its object, and the encoding of objects, a document that names the type and holds the object's own.
`T` are the tables the types are kept in, `V` the objects, and `Ty` the runtime types of objects.
-/
import Wig.Lib.Proc
import Wig.Model.Basic

namespace Wig.Crud

open Wig.Lib

/-- `crudlog.CRUD`, less the count that sizes a slice. -/
structure CRUD (T V : Type) where
  create : V → Proc T Error Unit
  update : V → Proc T Error Unit
  delete : V → Proc T Error Unit
  deleteAll : Proc T Error Unit
  each : Proc T Error (List V)

/-- `crudlog.Encoding`. -/
structure Encoding (V : Type) where
  marshalValue : V → Except Error Json
  unmarshalValue : Json → Except Error V

/-- `crud.Type`: an object type with the table behind it. `unmarshal` reads a document into a new instance. -/
structure ObjType (T V : Type) where
  name : String
  newInstance : V
  unmarshal : Json → Except Error V
  create : V → Proc T Error Unit
  update : V → Proc T Error Unit
  delete : V → Proc T Error Unit
  deleteAll : Proc T Error Unit
  each : Proc T Error (List V)

structure Registry (T V Ty : Type) where
  byType : List (Ty × ObjType T V)
  byName : List (String × ObjType T V)

namespace Registry

variable {T V Ty : Type} [DecidableEq Ty] (typeOf : V → Ty)

def empty : Registry T V Ty := ⟨[], []⟩

def register (r : Registry T V Ty) (m : ObjType T V) : Registry T V Ty :=
  { byType := (typeOf m.newInstance, m) :: r.byType.filter fun e => decide (e.1 ≠ typeOf m.newInstance)
    byName := (m.name, m) :: r.byName.filter fun e => decide (e.1 ≠ m.name) }

def getType (r : Registry T V Ty) (obj : V) : Option (ObjType T V) := r.byType.lookup (typeOf obj)

def getTypeByName (r : Registry T V Ty) (name : String) : Option (ObjType T V) := r.byName.lookup name

/-! ## The dispatcher -/

def create (r : Registry T V Ty) (obj : V) : Proc T Error Unit :=
  match r.getType typeOf obj with
  | none => .fail .unknownType
  | some m => m.create obj

def update (r : Registry T V Ty) (obj : V) : Proc T Error Unit :=
  match r.getType typeOf obj with
  | none => .fail .unknownType
  | some m => m.update obj

def delete (r : Registry T V Ty) (obj : V) : Proc T Error Unit :=
  match r.getType typeOf obj with
  | none => .fail .unknownType
  | some m => m.delete obj

/-- For each registered type the dispatcher calls itself, not the type; `stack` is how many calls
the goroutine's stack has room for. -/
def deleteAll (r : Registry T V Ty) : Nat → Proc T Error Unit
  | 0 => .crash
  | stack + 1 => r.byName.foldlM (fun _ _ => deleteAll r stack) ()

def each (r : Registry T V Ty) : Proc T Error (List V) :=
  r.byName.foldlM (fun objs m => do return objs ++ (← m.2.each)) []

def crud (r : Registry T V Ty) (stack : Nat) : CRUD T V :=
  { create := r.create typeOf, update := r.update typeOf, delete := r.delete typeOf
    deleteAll := r.deleteAll stack, each := r.each }

/-! ## The encoding -/

/-- `valueContainer` around the document of an object. -/
def marshalValue (r : Registry T V Ty) (marshal : V → Json) (obj : V) : Except Error Json :=
  match r.getType typeOf obj with
  | none => .error .unknownType
  | some m => .ok (.obj [("type", .str m.name), ("data", .bytes (marshal obj))])

def unmarshalValue (r : Registry T V Ty) (doc : Json) : Except Error V := do
  let doc ← doc.decodeStruct
  let name ← Json.decodeString (doc.field "type")
  match r.getTypeByName name with
  | none => .error .unknownType
  | some m =>
    match (doc.field "data").getLast? with
    | some (.bytes data) => m.unmarshal data
    | _ => .error .json

omit [DecidableEq Ty] in
/-- What a container is read as. -/
theorem unmarshalValue_container (r : Registry T V Ty) (name : String) (doc : Json) :
    r.unmarshalValue (.obj [("type", .str name), ("data", .bytes doc)]) =
      (r.getTypeByName name).elim (.error .unknownType) fun m => m.unmarshal doc := by
  have htype : (Json.obj [("type", .str name), ("data", .bytes doc)]).field "type" = [.str name] := by
    simp [Json.field_cons, Json.sameName, Json.foldChar]
  have hdata : (Json.obj [("type", .str name), ("data", .bytes doc)]).field "data" = [.bytes doc] := by
    simp [Json.field_cons, Json.sameName, Json.foldChar]
  simp only [unmarshalValue, Json.decodeStruct_obj, bind, Except.bind, htype, Json.decodeString_str, hdata]
  cases r.getTypeByName name <;> rfl

def encoding (r : Registry T V Ty) (marshal : V → Json) : Encoding V :=
  ⟨r.marshalValue typeOf marshal, r.unmarshalValue⟩

/-! ## What `DeleteAll` comes to -/

omit [DecidableEq Ty] in
theorem deleteAll_crash {r : Registry T V Ty} (hr : r.byName ≠ []) (stack : Nat) (t : T) :
    r.deleteAll stack t = (.crash, t) := by
  obtain ⟨m, ms, hm⟩ := List.exists_cons_of_ne_nil hr
  induction stack with
  | zero => rfl
  | succ stack ih =>
    rw [deleteAll, hm, List.foldlM_cons]
    exact Proc.bind_of_crash ih

end Registry

end Wig.Crud
