/-
The delete command against the datastore. Its argument is a key, and travels as a JSON string; the handler reads an
object, so that no delete gets as far as the writer. A client that sends the object would have it deleted.
-/
import Wig.Crud.Command
import Wig.Crud.Encoding
import Wig.Model.Maps
import Wig.Store.Primary

namespace Wig.Store

open Wig.Lib Wig.Crud Wig.Model Wig.Crudlog Wig.Httptransport

/-! ## The registered types -/

theorem registered_cases {name : String} {t : ObjType Tables Value} (h : registry.getTypeByName name = some t) :
    t = peerType ∨ t = interfaceType ∨ t = tokenType := by
  have hregistered : (Registry.registered Value.typeOf [peerType, interfaceType, tokenType]).getTypeByName name =
      some t := h
  obtain ⟨hmem, -⟩ := (Registry.getTypeByName_registered (by decide)).1 hregistered
  simpa using hmem

theorem getTypeByName_name {name : String} {t : ObjType Tables Value} (h : registry.getTypeByName name = some t) :
    registry.getTypeByName t.name = some t := by
  rcases registered_cases h with rfl | rfl | rfl <;> rfl

/-- A string is not decoded into a struct. -/
theorem unmarshal_text {name : String} {t : ObjType Tables Value}
    (h : registry.getTypeByName name = some t) (k : String) : t.unmarshal (.str k) = .error .json := by
  rcases registered_cases h with rfl | rfl | rfl <;> rfl

/-! ## What a delete is to reach -/

/-- `crudLogWriter`, of calls made at some time whose transactions commit or do not. -/
def crudLogWriter (stack : Nat) (now : Time) (commit : Bool) : Crud.Writer (Datastore Tables Value) Value where
  create obj := Datastore.request (crud stack) encoding ⟨.create obj, now, commit⟩
  update obj := Datastore.request (crud stack) encoding ⟨.update obj, now, commit⟩
  delete obj := Datastore.request (crud stack) encoding ⟨.delete obj, now, commit⟩

section

variable {σ : Type} (w : Crud.Writer σ Value) (tables : σ → Tables) (t : ObjType Tables Value) (k : String)
  (req : WriteRequest) (s : σ)

/-- A request deletes the object of a type and a key: it is decoded into the object, the writer is called with
that, once, and its row is gone, with the peers that refer to it and nothing else. -/
structure Reaches (obj : Value) : Prop where
  type : obj.typeOf = t.newInstance.typeOf
  key : obj.key = k
  decoded : t.unmarshal req.body = .ok obj
  called : (registry.api w.observed req (s, [])).2.2 = [(.delete, obj)]
  gone : ∀ m, (tables s).Holds m → (tables (registry.api w req s).2).Holds (Maps.delete obj m).2

end

/-- A delete that the log takes does to the tables what the dispatcher does. -/
theorem crudLogWriter_delete {stack : Nat} {now : Time} {commit : Bool} {obj : Value} {s : Datastore Tables Value}
    (hq : s.pubsub.Quiet) (hok : ((crudLogWriter stack now commit).delete obj s).1 = .ok ()) :
    (crud stack).delete obj s.db.tables = (.ok (), ((crudLogWriter stack now commit).delete obj s).2.db.tables) := by
  have happly : (crudLogWriter stack now commit).delete obj s =
      Datastore.apply (crud stack) encoding (newOp .delete now obj) false commit s := rfl
  rw [happly] at hok ⊢
  rcases Datastore.apply_quiet (model_replayable stack) hq (newOp .delete now obj) false commit with
    ⟨e, he, -, -⟩ | ⟨row, d', hrec, -, h⟩
  · rw [he] at hok
    cases hok
  · rw [h]
    exact hrec.applied

/-- A client that sends an object has it deleted, unless the transaction fails. -/
theorem delete_object_reaches {stack : Nat} {now : Time} {commit : Bool} (obj : Value) {t : ObjType Tables Value}
    (ht : registry.getType Value.typeOf obj = some t) {s : Datastore Tables Value} (hq : s.pubsub.Quiet)
    (hok : ((crudLogWriter stack now commit).delete obj.reread s).1 = .ok ()) :
    Reaches (crudLogWriter stack now commit)
    (fun s => s.db.tables) t obj.key (clientDelete Value.marshal t (.object obj)) s obj.reread := by
  have hname : registry.getTypeByName t.name = some t := by cases obj <;> cases ht <;> rfl
  have hdecode : t.unmarshal ((Sent.object obj).marshal Value.marshal) = .ok obj.reread := unmarshal_marshal ht
  refine ⟨by cases obj <;> cases ht <;> rfl, by cases obj <;> rfl, hdecode, ?_, fun m hm => ?_⟩
  · have hnoted : (crudLogWriter stack now commit).observed.call .delete obj.reread (s, []) =
        (.ok (), ((crudLogWriter stack now commit).delete obj.reread s).2, [(.delete, obj.reread)]) := Prod.ext hok rfl
    rw [clientDelete, api_written hname _ _ _ hdecode hnoted]
  · have hcall : (crudLogWriter stack now commit).call .delete obj.reread s =
        (.ok (), ((crudLogWriter stack now commit).delete obj.reread s).2) := Prod.ext hok rfl
    obtain ⟨-, hholds⟩ := delete_agrees stack obj.reread hm
    rw [crudLogWriter_delete hq hok] at hholds
    rw [clientDelete, api_written hname _ _ _ hdecode hcall]
    exact hholds

/-! ## What the command reaches -/

section

variable {σ : Type} {name : String} {t : ObjType Tables Value} (w : Crud.Writer σ Value) (k : String) (s : σ)

theorem api_text (ht : registry.getTypeByName name = some t) :
    registry.api w (clientDelete Value.marshal t (.text k)) s = (.ok (some (.badRequest .json)), s) :=
  api_refused (getTypeByName_name ht) w .delete (.text k) (unmarshal_text ht k) s

theorem restDeleteCommand_fails (ht : registry.getTypeByName name = some t) (client : Bool) :
    restDeleteCommand registry w Value.marshal t client [k] s = (.ok .failure, s) := by
  cases client with
  | false => rfl
  | true => exact Proc.bind_of_ok (api_text w k s ht)

theorem not_reaches (ht : registry.getTypeByName name = some t) (tables : σ → Tables) (obj : Value) :
    ¬ Reaches w tables t k (clientDelete Value.marshal t (.text k)) s obj := by
  intro h
  have hdecoded := h.decoded
  rw [show (clientDelete Value.marshal t (.text k)).body = .str k from rfl, unmarshal_text ht k] at hdecoded
  cases hdecoded

/-- No delete command reaches an object, of any registered type, with any key, through any writer: the handler
refuses the request, the writer is not called, and the command fails with everything as it was. -/
theorem delete_command_never_reaches (ht : registry.getTypeByName name = some t) (tables : σ → Tables) (client : Bool) :
    (¬ ∃ obj, Reaches w tables t k (clientDelete Value.marshal t (.text k)) s obj) ∧
      registry.api w.observed (clientDelete Value.marshal t (.text k)) (s, []) =
        (.ok (some (.badRequest .json)), s, []) ∧
      restDeleteCommand registry w Value.marshal t client [k] s = (.ok .failure, s) :=
  ⟨fun ⟨obj, h⟩ => not_reaches w k s ht tables obj h, api_text w.observed k (s, []) ht,
    restDeleteCommand_fails w k s ht client⟩

end

/-- A primary with one interface and one peer. -/
def peerPk : Datastore Tables Value :=
  .wrap (.fresh ⟨⟨[⟨"wg0", 51820, none, none, 0, "", ""⟩], List.nodup_singleton _⟩,
    ⟨[⟨"pk", "wg0", none, none, Time.zero⟩], List.nodup_singleton _⟩, .empty, by decide⟩)

/-- A request to delete that peer. -/
def ReachesPeer (sent : Sent Value) (obj : Value) : Prop :=
  Reaches (crudLogWriter 8 Time.zero true) (fun s => s.db.tables) peerType "pk"
    (clientDelete Value.marshal peerType sent) peerPk obj

theorem delete_command_never_reaches_peer :
    registry.getTypeByName "peer" = some peerType ∧ ¬ ∃ obj, ReachesPeer (.text "pk") obj := by
  have hpeer : registry.getTypeByName "peer" = some peerType := rfl
  exact ⟨hpeer,
    (delete_command_never_reaches (crudLogWriter 8 Time.zero true) "pk" peerPk hpeer (fun s => s.db.tables) true).1⟩

/-- The command leaves the peer, which the same writer deletes for a client that sends a peer with that key. -/
theorem delete_peer_left :
    restDeleteCommand registry (crudLogWriter 8 Time.zero true) Value.marshal peerType true ["pk"] peerPk =
      (.ok .failure, peerPk) ∧
      "pk" ∈ peerPk.db.tables.peers.keys ∧ (¬ ∃ obj, ReachesPeer (.text "pk") obj) ∧
      ∃ obj, ReachesPeer (.object (.peer ⟨"pk", "", none, none, Time.zero⟩)) obj := by
  have hpeer : registry.getTypeByName "peer" = some peerType := rfl
  refine ⟨restDeleteCommand_fails _ "pk" peerPk hpeer true,
    by decide, fun ⟨obj, h⟩ => not_reaches _ "pk" peerPk hpeer _ obj h, _,
    delete_object_reaches (.peer ⟨"pk", "", none, none, Time.zero⟩) rfl Pubsub.Quiet.new ?_⟩
  decide +kernel

end Wig.Store
