/-
Writes over HTTP: the client of a type, the command that deletes with it, and the handlers of the same type. A client
sends whatever value it is given, and a handler reads what arrives into a new instance of its type.
-/
import Wig.Crud.Registry
import Wig.Httptransport.Transport

namespace Wig.Crud

open Wig.Lib Wig.Httptransport

variable {σ T V Ty : Type}

/-! ## Writers -/

/-- `crud.Writer`. -/
structure Writer (σ V : Type) where
  create : V → Proc σ Error Unit
  update : V → Proc σ Error Unit
  delete : V → Proc σ Error Unit

/-- The writer of a follower. -/
def readOnlyWriter : Writer σ V := ⟨fun _ => .fail .readonly, fun _ => .fail .readonly, fun _ => .fail .readonly⟩

inductive Verb where
  | create
  | update
  | delete
  deriving DecidableEq, Repr

def Writer.call (w : Writer σ V) : Verb → V → Proc σ Error Unit
  | .create => w.create
  | .update => w.update
  | .delete => w.delete

/-- A call of a writer, noted. -/
def noted (verb : Verb) (f : V → Proc σ Error Unit) (obj : V) : Proc (σ × List (Verb × V)) Error Unit := fun s =>
  ((f obj s.1).1, ((f obj s.1).2, s.2 ++ [(verb, obj)]))

/-- A writer that also notes its calls. -/
def Writer.observed (w : Writer σ V) : Writer (σ × List (Verb × V)) V :=
  ⟨noted .create w.create, noted .update w.update, noted .delete w.delete⟩

/-! ## The client -/

/-- A request to write: the type and the verb of its URL, and its body. -/
structure WriteRequest where
  type : String
  verb : Verb
  body : Json

/-- What a client is given as an `interface{}`: an object, or a text. -/
inductive Sent (V : Type) where
  | object (obj : V)
  | text (s : String)

/-- `json.Marshal`. -/
def Sent.marshal (marshal : V → Json) : Sent V → Json
  | .object obj => marshal obj
  | .text s => .str s

section

variable (marshal : V → Json) (t : ObjType T V)

def requestWithObj (verb : Verb) (obj : Sent V) : WriteRequest := ⟨t.name, verb, obj.marshal marshal⟩

def clientCreate (obj : Sent V) : WriteRequest := requestWithObj marshal t .create obj

def clientUpdate (obj : Sent V) : WriteRequest := requestWithObj marshal t .update obj

def clientDelete (obj : Sent V) : WriteRequest := requestWithObj marshal t .delete obj

end

/-! ## The handlers -/

/-- The body is read into a new instance, which the writer is called with; there is no object to answer. -/
def handleWrite (t : ObjType T V) (call : V → Proc σ Error Unit) : Except Error Json → Proc σ Error Reply :=
  serveJSON t.unmarshal fun obj => do
    call obj
    return none

def handleCreate (t : ObjType T V) (w : Writer σ V) : Except Error Json → Proc σ Error Reply := handleWrite t w.create

def handleUpdate (t : ObjType T V) (w : Writer σ V) : Except Error Json → Proc σ Error Reply := handleWrite t w.update

def handleDelete (t : ObjType T V) (w : Writer σ V) : Except Error Json → Proc σ Error Reply := handleWrite t w.delete

/-- The endpoints that write. -/
def newTypeHTTPHandler (t : ObjType T V) (w : Writer σ V) : Verb → Except Error Json → Proc σ Error Reply
  | .create => handleCreate t w
  | .update => handleUpdate t w
  | .delete => handleDelete t w

theorem newTypeHTTPHandler_eq (t : ObjType T V) (w : Writer σ V) (verb : Verb) :
    newTypeHTTPHandler t w verb = handleWrite t (w.call verb) := by
  cases verb <;> rfl

/-- `Model.API`: the handler of each type, under its name. There is no page under any other. -/
def Registry.api (r : Registry T V Ty) (w : Writer σ V) (req : WriteRequest) : Proc σ Error (Option Reply) :=
  match r.getTypeByName req.type with
  | none => return none
  | some t => do return some (← newTypeHTTPHandler t w req.verb (.ok req.body))

/-- A follower answers requests to write, and writes nothing. -/
theorem handleWrite_readOnly (t : ObjType T V) (verb : Verb) (body : Except Error Json) (s : σ) :
    ∃ reply, handleWrite t ((readOnlyWriter : Writer σ V).call verb) body s = (.ok reply, s) := by
  have hcall : ∀ obj, (readOnlyWriter : Writer σ V).call verb obj s = (.err .readonly, s) :=
    fun obj => by cases verb <;> rfl
  unfold handleWrite
  cases hbody : body.bind t.unmarshal with
  | error e => exact ⟨_, serveJSON_badRequest hbody⟩
  | ok obj =>
    refine ⟨.failed .readonly, serveJSON_failed hbody ?_⟩
    exact Proc.bind_of_err (hcall obj)

theorem api_readOnly (r : Registry T V Ty) (req : WriteRequest) (s : σ) :
    ∃ answer, r.api readOnlyWriter req s = (.ok answer, s) := by
  unfold Registry.api
  cases r.getTypeByName req.type with
  | none => exact ⟨none, rfl⟩
  | some t =>
    obtain ⟨reply, hreply⟩ := handleWrite_readOnly t req.verb (.ok req.body) s
    refine ⟨some reply, ?_⟩
    simp only [newTypeHTTPHandler_eq]
    exact Proc.bind_of_ok hreply

section

variable {marshal : V → Json} {r : Registry T V Ty} {t : ObjType T V} (hname : r.getTypeByName t.name = some t)
  (w : Writer σ V) (verb : Verb) (sent : Sent V)
include hname

theorem api_requestWithObj :
    r.api w (requestWithObj marshal t verb sent) = do
      return some (← handleWrite t (w.call verb) (.ok (sent.marshal marshal))) := by
  have hget : r.getTypeByName (requestWithObj marshal t verb sent).type = some t := hname
  rw [Registry.api, hget]
  simp only [newTypeHTTPHandler_eq]
  rfl

/-- What does not decode is refused, and the writer is not called. -/
theorem api_refused {e : Error} (h : t.unmarshal (sent.marshal marshal) = .error e) (s : σ) :
    r.api w (requestWithObj marshal t verb sent) s = (.ok (some (.badRequest e)), s) := by
  rw [api_requestWithObj hname]
  exact Proc.bind_of_ok (serveJSON_badRequest h)

/-- What decodes goes to the writer. -/
theorem api_written {obj : V} {s s' : σ} (h : t.unmarshal (sent.marshal marshal) = .ok obj)
    (hcall : w.call verb obj s = (.ok (), s')) :
    r.api w (requestWithObj marshal t verb sent) s = (.ok (some .empty), s') := by
  rw [api_requestWithObj hname]
  exact Proc.bind_of_ok (serveJSON_empty h (Proc.bind_of_ok hcall))

end

/-! ## The command -/

/-- `subcommands.ExitStatus`. -/
inductive ExitStatus where
  | success
  | failure
  | usageError
  deriving DecidableEq, Repr

/-- `fatalErr` of what `Do` returns: nil for status 200 only. -/
def exitStatus : Option Reply → ExitStatus
  | some (.object _) => .success
  | some .empty => .success
  | _ => .failure

/-- `restDeleteCommand.Execute`. The argument itself is the object to delete; `client` tells whether there is a
client. -/
def restDeleteCommand (r : Registry T V Ty) (w : Writer σ V) (marshal : V → Json) (t : ObjType T V) (client : Bool) :
    List String → Proc σ Error ExitStatus
  | [arg] => if client then do return exitStatus (← r.api w (clientDelete marshal t (.text arg))) else return .failure
  | _ => return .usageError

end Wig.Crud
