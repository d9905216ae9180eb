/-
A find over HTTP: the client of a type against the handler of the same type. The handler writes an
array by hand, with an opening bracket before its first object only. The client gives the decoder the
address of a `reflect.Value`, and not of the slice that the value stands for.
-/
import Wig.Crud.Find

namespace Wig.Crud

open Wig.Lib

/-! ## What a body holds -/

/-- The rest of an array, after an element: its further elements, and what follows it in the body. -/
def readElements : List Chunk → Option (List Json × List Chunk)
  | .text "]" :: rest => some ([], rest)
  | .text "," :: .doc j :: rest => (readElements rest).map fun r => (j :: r.1, r.2)
  | _ => none

/-- The first JSON value of a body, and what follows it. -/
def readValue : List Chunk → Option (Json × List Chunk)
  | .doc j :: rest => some (j, rest)
  | .text "[" :: .text "]" :: rest => some (.arr [], rest)
  | .text "[" :: .doc j :: rest => (readElements rest).map fun r => (.arr (j :: r.1), r.2)
  | _ => none

/-! ## The client -/

inductive ClientError where
  | status (code : Nat)
  | decode
  deriving DecidableEq, Repr

/-- The element type of a slice: an interface, or the type of some object. -/
inductive Elem (Ty : Type) where
  | interface
  | concrete (t : Ty)

/-- A slice behind a `reflect.Value`. -/
structure ReflectSlice (V Ty : Type) where
  elem : Elem Ty
  items : List V

section Client

variable {V Ty : Type}

/-- `reflect.MakeSlice(reflect.SliceOf(t), 0, 4)`. -/
def makeSlice (t : Ty) : ReflectSlice V Ty := ⟨.concrete t, []⟩

/-- `l.Interface().([]interface{})` panics on a slice of any other type. -/
def ReflectSlice.interfaces (l : ReflectSlice V Ty) : Outcome ClientError (List V) :=
  match l.elem with
  | .interface => .ok l.items
  | .concrete _ => .crash

/-- Decoding a value into a `reflect.Value`: a struct without exported fields, which takes nothing of an
object and keeps what it stands for. -/
def decodeReflect (l : ReflectSlice V Ty) : Json → Except ClientError (ReflectSlice V Ty)
  | .null => .ok l
  | .obj _ => .ok l
  | _ => .error .decode

/-- The part of `httptransport.Do` after the response. -/
def receive (resp : Response) (l : ReflectSlice V Ty) : Except ClientError (ReflectSlice V Ty) :=
  if resp.status ≠ 200 then .error (.status resp.status)
  else
    match readValue resp.body with
    | none => .error .decode
    | some (j, _) => decodeReflect l j

/-- `typeClient.Find` on a response: what it returns, and the objects its callback was given. `t` is the
type of a new instance. -/
def clientFind (t : Ty) (resp : Response) : Outcome ClientError Unit × List V :=
  match receive resp (makeSlice t : ReflectSlice V Ty) with
  | .error e => (.err e, [])
  | .ok l =>
    match l.interfaces with
    | .ok objs => (.ok (), objs)
    | .err e => (.err e, [])
    | .crash => (.crash, [])
    | .block => (.block, [])

/-- The arguments of the URL that the client makes of a query. -/
def urlValues (query : List (String × String)) : List (String × List String) := query.map fun kv => (kv.1, [kv.2])

theorem queryArgs_urlValues (query : List (String × String)) : queryArgs (urlValues query) = query := by
  unfold queryArgs urlValues
  rw [List.filterMap_map]
  exact List.filterMap_some

/-! ## The body of an answer -/

theorem readElements_writeObjects (marshal : V → Json) (rest : List Chunk) : ∀ (objs : List V) (i : Nat),
    readElements (writeObjects marshal (i + 1) objs ++ rest) =
      (readElements rest).map fun r => (objs.map marshal ++ r.1, r.2)
  | [], _ => by cases h : readElements rest <;> simp [writeObjects, h]
  | obj :: objs, i => by
    show (readElements (writeObjects marshal (i + 1 + 1) objs ++ rest)).map (fun r => (marshal obj :: r.1, r.2)) = _
    rw [readElements_writeObjects marshal rest objs (i + 1), Option.map_map]
    rfl

/-- The body starts with an array just if there was an object and no error; and then that is all of it. -/
theorem readValue_respond (marshal : V → Json) (found : Found V) :
    readValue (respond marshal found).body =
      if found.objs ≠ [] ∧ found.err = none then some (.arr (found.objs.map marshal), []) else none := by
  obtain ⟨objs, err⟩ := found
  cases objs with
  | nil => cases err <;> rfl
  | cons obj objs =>
    have hread : readValue (respond marshal ⟨obj :: objs, err⟩).body =
        (readElements (writeObjects marshal (0 + 1) objs ++ ((err.map Chunk.error).toList ++ [.text "]"]))).map
          fun r => (.arr (marshal obj :: r.1), r.2) := by
      unfold respond
      rw [List.append_assoc]
      rfl
    rw [hread, readElements_writeObjects]
    cases err with
    | none => simp [readElements]
    | some e => simp [readElements]

/-! ## What the client makes of it -/

/-- An array does not go into a `reflect.Value`, and the handler writes nothing else. -/
theorem clientFind_respond (t : Ty) (marshal : V → Json) (found : Found V) :
    ∃ e, (clientFind t (respond marshal found) : Outcome ClientError Unit × List V) = (.err e, []) := by
  have hreceive : ∃ e, receive (respond marshal found) (makeSlice t : ReflectSlice V Ty) = .error e := by
    unfold receive
    split
    · exact ⟨_, rfl⟩
    · rw [readValue_respond]
      split
      · exact ⟨_, rfl⟩
      · rename_i hv
        split at hv
        · cases hv; exact ⟨_, rfl⟩
        · cases hv
  obtain ⟨e, he⟩ := hreceive
  exact ⟨e, by rw [clientFind, he]⟩

end Client

/-! ## Remote and local -/

section Remote

variable {D R V Ty : Type}

/-- A remote find is the local one: the callback gets the same objects, the call returns nil, and the
body is the array of the objects. `args` is the query map as the handler meets its keys. -/
structure FindsAlike (E : Engine D R) (types : List (SQLTable R V)) (marshal : V → Json)
    (t : SQLTable R V) (newInstance : Ty) (query args : List (String × String))
    (opens commits : Bool) (d : D) : Prop where
  objects : (clientFind newInstance (handleFind E types marshal t args opens commits d).1).2 =
    (sqlReaderFind E types t.typename query opens commits d).1.objs
  returns : (clientFind newInstance (handleFind E types marshal t args opens commits d).1 : Outcome ClientError
    Unit × List V).1 = .ok ()
  body : readValue (handleFind E types marshal t args opens commits d).1.body =
    some (.arr ((sqlReaderFind E types t.typename query opens commits d).1.objs.map marshal), [])

variable {E : Engine D R} {types : List (SQLTable R V)} {marshal : V → Json} {t : SQLTable R V}

theorem clientFind_handleFind (newInstance : Ty) (args : List (String × String)) (opens commits : Bool) (d : D) :
    ∃ e, (clientFind newInstance (handleFind E types marshal t args opens commits d).1 : Outcome
      ClientError Unit × List V) = (.err e, []) :=
  clientFind_respond newInstance marshal (sqlReaderFind E types t.typename args opens commits d).1

theorem not_findsAlike (newInstance : Ty) (query args : List (String × String)) (opens commits : Bool) (d : D) :
    ¬ FindsAlike E types marshal t newInstance query args opens commits d := by
  intro h
  obtain ⟨e, he⟩ := clientFind_handleFind newInstance args opens commits d
  have hreturns := h.returns
  rw [he] at hreturns
  cases hreturns

/-- No remote find is: the client returns an error and its callback is not called, whatever the tables
hold and the handler makes of the query; and the body is an array just if there was an object to write. -/
theorem finds_never_alike (newInstance : Ty) (query args : List (String × String)) (opens commits : Bool) (d : D) :
    ¬ FindsAlike E types marshal t newInstance query args opens commits d ∧
      (∃ e, (clientFind newInstance (handleFind E types marshal t args opens commits d).1 : Outcome
        ClientError Unit × List V) = (.err e, [])) ∧
      ((∃ docs, readValue (handleFind E types marshal t args opens commits d).1.body = some (.arr docs, [])) ↔
        (sqlReaderFind E types t.typename args opens commits d).1.objs ≠ [] ∧
          (sqlReaderFind E types t.typename args opens commits d).1.err = none) := by
  refine ⟨not_findsAlike newInstance query args opens commits d,
    clientFind_handleFind newInstance args opens commits d, ?_⟩
  show (∃ docs, readValue (respond marshal (sqlReaderFind E types t.typename args opens commits d).1).body = _) ↔ _
  rw [readValue_respond]
  split
  · rename_i h
    exact ⟨fun _ => h, fun _ => ⟨_, rfl⟩⟩
  · rename_i h
    exact ⟨fun ⟨_, hd⟩ => (by cases hd), fun h' => absurd h' h⟩

end Remote

end Wig.Crud
