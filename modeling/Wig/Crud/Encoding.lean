/-
The encoding of objects as bytes: a container that names the type of an object and holds the object's own
JSON text in base64. The two indexes of a registry agree, so what was written as one type is never read as
another.
-/
import Wig.Model.Registered
import Wig.Model.Text
import Wig.Net.Key

namespace Wig.Crud

open Wig.Lib Wig.Net

/-! ## The two codecs -/

/-- `encoding/json` between documents and texts. `decode` is `Decoder.Decode`, which reads the first document of
a stream. -/
structure JsonStream where
  marshal : Json → List UInt8
  unmarshal : List UInt8 → Except Error Json
  decode : List UInt8 → Except Error Json

/-- A document comes back from its text, also with more behind it on a stream. -/
structure JsonStream.Reads (J : JsonStream) (doc : Json) : Prop where
  unmarshal : J.unmarshal (J.marshal doc) = .ok doc
  decode : ∀ rest, J.decode (J.marshal doc ++ rest) = .ok doc

/-- `encoding/json` on objects. `unmarshal` writes into an instance, which keeps its type. -/
structure ObjectCodec {V Ty : Type} (typeOf : V → Ty) where
  marshal : V → Except Error (List UInt8)
  unmarshal : List UInt8 → V → Except Error V
  typeOf_unmarshal : ∀ {b v v'}, unmarshal b v = .ok v' → typeOf v' = typeOf v

structure ValueContainer where
  type : String
  data : List UInt8

namespace ValueContainer

def doc (c : ValueContainer) : Json :=
  .obj [("type", .str c.type), ("data", .str (String.ofList (encodeQuanta c.data)))]

/-- An element of a byte slice that is written as an array. -/
def decodeByte : Json → Except Error UInt8
  | .num n => if 0 ≤ n ∧ n < 256 then .ok (UInt8.ofNat n.toNat) else .error .json
  | .null => .ok 0
  | _ => .error .json

/-- A byte slice: base64, or an array of numbers. -/
def bytesInto (_ : List UInt8) : Json → Except Error (List UInt8)
  | .null => .ok []
  | .str s => (base64Decode s).elim (.error .json) .ok
  | .arr items => items.mapM decodeByte
  | _ => .error .json

def decodeBytes : List Json → Except Error (List UInt8) := Json.decodeInto bytesInto []

/-- `json.Unmarshal` of a document into an empty container. -/
def ofDoc (doc : Json) : Except Error ValueContainer := do
  let doc ← doc.decodeStruct
  return ⟨← Json.decodeString (doc.field "type"), ← decodeBytes (doc.field "data")⟩

theorem ofDoc_doc (c : ValueContainer) : ofDoc c.doc = .ok c := by
  have hbytes : decodeBytes [.str (String.ofList (encodeQuanta c.data))] = .ok c.data := by
    rw [decodeBytes, Json.decodeInto_singleton, bytesInto, base64Decode_encodeQuanta]
    rfl
  simp [ofDoc, doc, Json.field_cons, Json.sameName, Json.foldChar, hbytes, bind, Except.bind, pure, Except.pure]

end ValueContainer

/-! ## The encoding -/

namespace Registry

variable {T V Ty : Type} [DecidableEq Ty] {typeOf : V → Ty}

/-- The registry after some calls of `Register`. -/
def registered (typeOf : V → Ty) (ms : List (ObjType T V)) : Registry T V Ty := ms.foldl (register typeOf) empty

section

variable (J : JsonStream) (C : ObjectCodec typeOf) (r : Registry T V Ty)

/-- `MarshalValue`. -/
def marshalBytes (obj : V) : Except Error (List UInt8) := do
  let encoded ← C.marshal obj
  match r.getType typeOf obj with
  | none => .error .unknownType
  | some m => return J.marshal (ValueContainer.doc ⟨m.name, encoded⟩)

/-- What both readers do with a container. -/
def openContainer (doc : Json) : Except Error V := do
  let cont ← ValueContainer.ofDoc doc
  match r.getTypeByName cont.type with
  | none => .error .unknownType
  | some m => C.unmarshal cont.data m.newInstance

/-- `UnmarshalValue`. -/
def unmarshalBytes (b : List UInt8) : Except Error V := do
  let doc ← J.unmarshal b
  r.openContainer C doc

/-- `UnmarshalValueFromReader`, of a reader that gives these bytes. -/
def unmarshalReader (input : List UInt8) : Except Error V := do
  let doc ← J.decode input
  r.openContainer C doc

end

/-! ## The two indexes -/

section Index

variable {κ α : Type} [DecidableEq κ]

/-- A map with the entries of a list, of which the last with a key counts. -/
def index (key : α → κ) (ms : List α) : List (κ × α) :=
  ms.foldl (fun l m => (key m, m) :: l.filter fun e => decide (e.1 ≠ key m)) []

theorem lookup_filter_ne {k k' : κ} (h : k' ≠ k) :
    ∀ l : List (κ × α), (l.filter fun e => decide (e.1 ≠ k)).lookup k' = l.lookup k'
  | [] => rfl
  | (k'', a) :: l => by
    by_cases hk : k'' = k
    · have hne : (k' == k'') = false := beq_false_of_ne (hk ▸ h)
      rw [List.filter_cons_of_neg (by simp [hk]), List.lookup_cons, hne, lookup_filter_ne h l]
    · rw [List.filter_cons_of_pos (by simpa using hk), List.lookup_cons, List.lookup_cons, lookup_filter_ne h l]

theorem lookup_index_concat (key : α → κ) (ms : List α) (m : α) (k : κ) :
    (index key (ms ++ [m])).lookup k = if k = key m then some m else (index key ms).lookup k := by
  rw [index, List.foldl_concat, List.lookup_cons]
  by_cases hk : k = key m
  · rw [if_pos hk, beq_iff_eq.2 hk]
  · rw [if_neg hk, beq_false_of_ne hk, lookup_filter_ne hk]
    rfl

/-- With distinct keys each entry is found by its own. -/
theorem lookup_index {key : α → κ} {ms : List α} (h : (ms.map key).Nodup) {k : κ} {m : α} :
    (index key ms).lookup k = some m ↔ m ∈ ms ∧ key m = k := by
  induction ms using List.reverseRecOn with
  | nil => simp [index]
  | append_singleton ms m' ih =>
    rw [List.map_append, List.map_singleton, List.nodup_append] at h
    have hlast : ∀ m ∈ ms, key m ≠ key m' := fun m hm => h.2.2 _ (List.mem_map_of_mem hm) _ (.head _)
    rw [lookup_index_concat, List.mem_append, List.mem_singleton]
    by_cases hk : k = key m'
    · subst hk
      rw [if_pos rfl, Option.some.injEq]
      constructor
      · rintro rfl
        exact ⟨.inr rfl, rfl⟩
      · rintro ⟨hm | rfl, heq⟩
        · exact absurd heq (hlast m hm)
        · rfl
    · rw [if_neg hk, ih h.1]
      constructor
      · rintro ⟨hm, heq⟩
        exact ⟨.inl hm, heq⟩
      · rintro ⟨hm | rfl, heq⟩
        · exact ⟨hm, heq⟩
        · exact absurd heq.symm hk

end Index

variable {ms : List (ObjType T V)}

theorem registered_eq (typeOf : V → Ty) (ms : List (ObjType T V)) :
    registered typeOf ms = ⟨index (fun m => typeOf m.newInstance) ms, index ObjType.name ms⟩ := by
  induction ms using List.reverseRecOn with
  | nil => rfl
  | append_singleton ms m ih =>
    rw [registered, List.foldl_concat, index, List.foldl_concat, index, List.foldl_concat]
    rw [registered] at ih
    rw [ih]
    rfl

theorem getType_registered (h : (ms.map fun m => typeOf m.newInstance).Nodup) {obj : V} {m : ObjType T V} :
    (registered typeOf ms).getType typeOf obj = some m ↔ m ∈ ms ∧ typeOf m.newInstance = typeOf obj := by
  rw [registered_eq]
  exact lookup_index h

theorem getTypeByName_registered (h : (ms.map ObjType.name).Nodup) {name : String} {m : ObjType T V} :
    (registered typeOf ms).getTypeByName name = some m ↔ m ∈ ms ∧ m.name = name := by
  rw [registered_eq]
  exact lookup_index h

/-! ## What is written is read as the same type -/

/-- The registrations do not overwrite each other. -/
structure Distinct (typeOf : V → Ty) (ms : List (ObjType T V)) : Prop where
  names : (ms.map ObjType.name).Nodup
  types : (ms.map fun m => typeOf m.newInstance).Nodup

omit [DecidableEq Ty] in
theorem Distinct.perm {ms' : List (ObjType T V)} (h : Distinct typeOf ms) (hperm : ms.Perm ms') : Distinct typeOf ms' :=
  ⟨(hperm.map _).nodup_iff.1 h.names, (hperm.map _).nodup_iff.1 h.types⟩

/-- `m` is the type that both sides route an object to. -/
structure RoutesTo (typeOf : V → Ty) (r : Registry T V Ty) (obj : V) (m : ObjType T V) : Prop where
  create : r.create typeOf obj = m.create obj
  update : r.update typeOf obj = m.update obj
  delete : r.delete typeOf obj = m.delete obj

theorem routesTo_of_getType {r : Registry T V Ty} {obj : V} {m : ObjType T V} (h : r.getType typeOf obj = some m) :
    r.RoutesTo typeOf obj m := by
  constructor
  · rw [create, h]
  · rw [update, h]
  · rw [delete, h]

section

variable {J : JsonStream} {C : ObjectCodec typeOf} {obj : V} {b : List UInt8}

theorem marshalBytes_ok_iff (hd : Distinct typeOf ms) : marshalBytes J C (registered typeOf ms) obj = .ok b ↔
    ∃ m ∈ ms, typeOf m.newInstance = typeOf obj ∧ ∃ encoded, C.marshal obj = .ok encoded ∧
      J.marshal (ValueContainer.doc ⟨m.name, encoded⟩) = b := by
  constructor
  · intro h
    unfold marshalBytes at h
    cases henc : C.marshal obj with
    | error e => rw [henc] at h; cases h
    | ok encoded =>
      cases htype : (registered typeOf ms).getType typeOf obj with
      | none => rw [henc, htype] at h; cases h
      | some m =>
        rw [henc, htype] at h
        cases h
        obtain ⟨hm, hty⟩ := (getType_registered hd.types).1 htype
        exact ⟨m, hm, hty, encoded, rfl, rfl⟩
  · rintro ⟨m, hm, hty, encoded, henc, rfl⟩
    have htype : (registered typeOf ms).getType typeOf obj = some m := (getType_registered hd.types).2 ⟨hm, hty⟩
    unfold marshalBytes
    rw [henc, htype]
    rfl

omit [DecidableEq Ty] in
theorem openContainer_eq {r : Registry T V Ty} {doc : Json} {cont : ValueContainer}
    (h : ValueContainer.ofDoc doc = .ok cont) :
    r.openContainer C doc = (r.getTypeByName cont.type).elim (.error .unknownType) fun m =>
      C.unmarshal cont.data m.newInstance := by
  have hbind : ∀ f : ValueContainer → Except Error V, ((Except.ok cont : Except Error ValueContainer) >>= f) = f cont :=
    fun _ => rfl
  rw [openContainer, h, hbind]
  cases r.getTypeByName cont.type <;> rfl

theorem openContainer_doc (hd : Distinct typeOf ms) {m : ObjType T V} (hm : m ∈ ms) (data : List UInt8) :
    (registered typeOf ms).openContainer C (ValueContainer.doc ⟨m.name, data⟩) = C.unmarshal data m.newInstance := by
  have hname : (registered typeOf ms).getTypeByName m.name = some m := (getTypeByName_registered hd.names).2 ⟨hm, rfl⟩
  rw [openContainer_eq (ValueContainer.ofDoc_doc _), hname]
  rfl

theorem getTypeByName_eq_none (hd : Distinct typeOf ms) {name : String} (h : name ∉ ms.map ObjType.name) :
    (registered typeOf ms).getTypeByName name = none := by
  rw [Option.eq_none_iff_forall_ne_some]
  intro m hm
  obtain ⟨hmem, rfl⟩ := (getTypeByName_registered hd.names).1 hm
  exact h (List.mem_map_of_mem hmem)

theorem openContainer_unregistered (hd : Distinct typeOf ms) {doc : Json} {cont : ValueContainer}
    (hdoc : ValueContainer.ofDoc doc = .ok cont) (hname : cont.type ∉ ms.map ObjType.name) :
    (registered typeOf ms).openContainer C doc = .error .unknownType := by
  rw [openContainer_eq hdoc, getTypeByName_eq_none hd hname]
  rfl

end

/-- What a node with the registry `r` makes of the bytes of an object that was routed to the type `m`. -/
structure ReadAs (J : JsonStream) (C : ObjectCodec typeOf) (r : Registry T V Ty) (obj : V)
    (b : List UInt8) (m : ObjType T V) :
    Prop where
  reader : ∀ rest, r.unmarshalReader J C (b ++ rest) = r.unmarshalBytes J C b
  sameType : ∀ obj', r.unmarshalBytes J C b = .ok obj' → typeOf obj' = typeOf obj ∧ r.RoutesTo typeOf obj' m
  equal : (∀ encoded, C.marshal obj = .ok encoded → C.unmarshal encoded m.newInstance = .ok obj) →
    r.unmarshalBytes J C b = .ok obj

/-- The encoding is faithful to types. An object is encoded just if its type is registered and its JSON encoding
succeeds. Then a node that registered the same types, in any order, reads an object of the same type, and routes
it where the first did; it is the same object if the type's own codec gives it back. A container with another
type is refused. -/
theorem value_encoding_faithful {J : JsonStream} (hJ : ∀ cont : ValueContainer, J.Reads cont.doc)
    (C : ObjectCodec typeOf) {ms ms' : List (ObjType T V)} (hd : Distinct typeOf ms) (hsink : ms.Perm ms') :
    (∀ obj, (∃ b, marshalBytes J C (registered typeOf ms) obj = .ok b) ↔
      (∃ m ∈ ms, typeOf m.newInstance = typeOf obj) ∧ ∃ encoded, C.marshal obj = .ok encoded) ∧
    (∀ obj b, marshalBytes J C (registered typeOf ms) obj = .ok b → ∃ m ∈ ms, typeOf m.newInstance = typeOf obj ∧
      (registered typeOf ms).RoutesTo typeOf obj m ∧ ReadAs J C (registered typeOf ms') obj b m) ∧
    (∀ b doc cont, ValueContainer.ofDoc doc = .ok cont → cont.type ∉ ms.map ObjType.name →
      (J.unmarshal b = .ok doc → unmarshalBytes J C (registered typeOf ms') b = .error .unknownType) ∧
      (J.decode b = .ok doc → unmarshalReader J C (registered typeOf ms') b = .error .unknownType)) := by
  have hd' := hd.perm hsink
  refine ⟨fun obj => ?_, fun obj b hb => ?_, fun b doc cont hdoc hname => ?_⟩
  · constructor
    · rintro ⟨b, hb⟩
      obtain ⟨m, hm, hty, encoded, henc, -⟩ := (marshalBytes_ok_iff hd).1 hb
      exact ⟨⟨m, hm, hty⟩, encoded, henc⟩
    · rintro ⟨⟨m, hm, hty⟩, encoded, henc⟩
      exact ⟨_, (marshalBytes_ok_iff hd).2 ⟨m, hm, hty, encoded, henc, rfl⟩⟩
  · obtain ⟨m, hm, hty, encoded, henc, rfl⟩ := (marshalBytes_ok_iff hd).1 hb
    have hm' := hsink.mem_iff.1 hm
    have hread : unmarshalBytes J C (registered typeOf ms') (J.marshal (ValueContainer.doc ⟨m.name, encoded⟩)) =
        C.unmarshal encoded m.newInstance := by
      rw [unmarshalBytes, (hJ _).unmarshal]
      exact openContainer_doc hd' hm' encoded
    refine ⟨m, hm, hty, routesTo_of_getType ((getType_registered hd.types).2 ⟨hm, hty⟩),
      fun rest => ?_, fun obj' hobj' => ?_, fun hcodec => ?_⟩
    · rw [unmarshalReader, unmarshalBytes, (hJ _).decode, (hJ _).unmarshal]
    · rw [hread] at hobj'
      have hty' := C.typeOf_unmarshal hobj'
      exact ⟨hty'.trans hty, routesTo_of_getType ((getType_registered hd'.types).2 ⟨hm', hty'.symm⟩)⟩
    · rw [hread]
      exact hcodec encoded henc
  · have hname' : cont.type ∉ ms'.map ObjType.name := fun h => hname ((hsink.map _).mem_iff.2 h)
    refine ⟨fun hb => ?_, fun hb => ?_⟩
    · rw [unmarshalBytes, hb]
      exact openContainer_unregistered hd' hdoc hname'
    · rw [unmarshalReader, hb]
      exact openContainer_unregistered hd' hdoc hname'

end Registry

/-! ## Objects that have documents -/

section Documents

variable {T V Ty : Type} {typeOf : V → Ty}

/-- The codec of objects by their documents, which have texts. -/
def ObjectCodec.ofDocuments (text : Json → List UInt8) (read : List UInt8 → Except Error Json) (marshal : V → Json)
    (decode : Json → V → Except Error V) (htype : ∀ {doc v v'}, decode doc v = .ok v' → typeOf v' = typeOf v) :
    ObjectCodec typeOf where
  marshal v := .ok (text (marshal v))
  unmarshal b v := (read b).bind fun doc => decode doc v
  typeOf_unmarshal {b v v'} h := by
    cases hb : read b with
    | error e => rw [hb] at h; cases h
    | ok doc => rw [hb] at h; exact htype h

end Documents

/-! ## An encoder with its reader -/

/-- A container as `Json.text` writes it, and what is behind it. -/
def readContainer (b : List UInt8) : Option (Json × List UInt8) :=
  (Json.unquote b.length (b.drop 9)).bind fun name =>
    (Json.unquote b.length (name.2.drop 9)).map fun data =>
      (.obj [("type", .str (String.ofList name.1)), ("data", .str (String.ofList data.1))], data.2.tail)

/-- `Json.text`, with a reader of containers. -/
def containerText : JsonStream where
  marshal := Json.text
  unmarshal b :=
    match readContainer b with
    | some (doc, []) => .ok doc
    | _ => .error .json
  decode b := ((readContainer b).map Prod.fst).elim (.error .json) .ok

/-- What stands before the two strings. -/
def containerHead (field : String) (first : UInt8) : List UInt8 :=
  first :: (Json.quoteString field ++ [Json.byte 58, Json.byte 34])

theorem text_container (cont : ValueContainer) (rest : List UInt8) : Json.text cont.doc ++ rest =
    containerHead "type" (Json.byte 123) ++ (cont.type.toList.flatMap Json.quoteChar ++ Json.byte 34 ::
      (containerHead "data" (Json.byte 44) ++
        ((encodeQuanta cont.data).flatMap Json.quoteChar ++ Json.byte 34 :: Json.byte 125 :: rest))) := by
  have hstr : ∀ s : String, Json.text (.str s) = Json.byte 34 :: s.toList.flatMap Json.quoteChar ++ [Json.byte 34] :=
    fun s => by
    rw [Json.text, Json.quoteString, Json.quote]
  rw [ValueContainer.doc, Json.text, Json.textFields, Json.textFields, Json.textFields, hstr, hstr]
  simp [containerHead]

theorem drop_containerHead {field : String} {first : UInt8} (h : (containerHead field first).length = 9)
    (l : List UInt8) : (containerHead field first ++ l).drop 9 = l := by
  rw [← h, List.drop_left]

theorem readContainer_text (cont : ValueContainer) (rest : List UInt8) :
    readContainer (Json.text cont.doc ++ rest) = some (cont.doc, rest) := by
  have htype : (containerHead "type" (Json.byte 123)).length = 9 := by decide
  have hdata : (containerHead "data" (Json.byte 44)).length = 9 := by decide
  have hname := Json.length_flatMap_quoteChar cont.type.toList
  have hbytes := Json.length_flatMap_quoteChar (encodeQuanta cont.data)
  rw [text_container]
  unfold readContainer
  rw [drop_containerHead htype, Json.unquote_string, Option.bind_some, drop_containerHead hdata, Json.unquote_string,
    Option.map_some, String.ofList_toList, ValueContainer.doc, List.tail_cons]
  · simp only [List.length_append, List.length_cons]
    omega
  · simp only [List.length_append, List.length_cons]
    omega

theorem reads_containerText (cont : ValueContainer) : containerText.Reads cont.doc where
  unmarshal := by
    have hread := readContainer_text cont []
    rw [List.append_nil] at hread
    simp only [containerText, hread]
  decode rest := by
    simp only [containerText, readContainer_text]
    rfl

/-! ## The registered types -/

open Wig.Model

/-- A document into an instance of a registered type. -/
def decodeInto (doc : Json) : Value → Except Error Value
  | .interface _ => (Interface.unmarshalJSON doc).map .interface
  | .peer _ => (Peer.unmarshalJSON doc).map .peer
  | .token _ => (Token.unmarshalJSON doc).map .token
  | .other => .error .json

theorem typeOf_map {α : Type} {x : Except Error α} {f : α → Value} {ty : GoType} {v : Value}
    (hf : ∀ a, (f a).typeOf = ty) (h : x.map f = .ok v) : v.typeOf = ty := by
  cases x with
  | error e => cases h
  | ok a => cases h; exact hf a

theorem typeOf_decodeInto {doc : Json} {v v' : Value} (h : decodeInto doc v = .ok v') : v'.typeOf = v.typeOf := by
  cases v with
  | interface i => exact typeOf_map (f := .interface) (fun _ => rfl) h
  | peer p => exact typeOf_map (f := .peer) (fun _ => rfl) h
  | token t => exact typeOf_map (f := .token) (fun _ => rfl) h
  | other => cases h

/-- The codec of the registered types, with a reader that knows one document. -/
def valueCodec (doc : Json) : ObjectCodec Value.typeOf :=
  .ofDocuments Json.text (fun b => if b = Json.text doc then .ok doc else .error .json) Value.marshal
    decodeInto typeOf_decodeInto

/-- A token that one node logs, and another with the same types reads. -/
theorem value_encoding_faithful_token :
    let tok : Value := .token ⟨"id", "secret", none⟩
    let types := [peerType, interfaceType, tokenType]
    let sink := Registry.registered Value.typeOf [tokenType, peerType, interfaceType]
    ∃ b, (Registry.registered Value.typeOf types).marshalBytes containerText (valueCodec tok.marshal) tok = .ok b ∧
      sink.unmarshalBytes containerText (valueCodec tok.marshal) b = .ok tok ∧
        sink.RoutesTo Value.typeOf tok tokenType := by
  intro tok types sink
  have hd : Registry.Distinct Value.typeOf types := ⟨by decide, by decide⟩
  have hperm : ([peerType, interfaceType] ++ [tokenType]).Perm ([tokenType] ++ [peerType, interfaceType]) :=
    List.perm_append_comm
  obtain ⟨hmarshal, hread, -⟩ := Registry.value_encoding_faithful reads_containerText (valueCodec tok.marshal) hd hperm
  obtain ⟨b, hb⟩ := (hmarshal tok).2 ⟨⟨tokenType, by simp [types], rfl⟩, _, rfl⟩
  obtain ⟨m, hm, hty, -, has⟩ := hread tok b hb
  have htoken : m = tokenType := by
    simp only [types, List.mem_cons, List.not_mem_nil, or_false] at hm
    rcases hm with rfl | rfl | rfl
    · cases hty
    · cases hty
    · rfl
  subst htoken
  have hdoc : decodeInto tok.marshal tokenType.newInstance = .ok tok := rfl
  have hback := has.equal fun encoded henc => by
    cases henc
    simp only [valueCodec, ObjectCodec.ofDocuments, if_true]
    exact hdoc
  exact ⟨b, hb, hback, (has.sameType tok hback).2⟩

end Wig.Crud
