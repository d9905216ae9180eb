/-
Errors over HTTP. The server finds the error in a registry and sends its code; the client finds the code in the
same registry and has the error back, marked as permanent. What is not registered comes back as a status.
-/
import Wig.Lib.Errors
import Wig.Model.Basic

namespace Wig.Httptransport

open Wig.Lib

/-! ## Error values -/

inductive ErrorType where
  /-- `errors.New`, and `fmt.Errorf` without `%w`. -/
  | errorString
  /-- `fmt.Errorf` with `%w`. -/
  | wrapError
  /-- `backoff.PermanentError`. -/
  | permanentError
  /-- `url.Error`. -/
  | urlError
  /-- `net.DNSError`. -/
  | dnsError
  | other (name : String)
  deriving DecidableEq

/-- `PermanentError.Is` accepts every other one. -/
instance : ErrorTypes ErrorType := ⟨fun t u => t = .permanentError && u = .permanentError⟩

abbrev GoError := Chain ErrorType

/-- The value of `errors.New` at an address. -/
def sentinel (addr : Nat) (text : String) : GoError := [⟨⟨.errorString, addr⟩, text, []⟩]

def errorsNew (text : String) : Alloc GoError := Chain.alloc .errorString text []

/-- `backoff.Permanent`. -/
def permanent : GoError → Alloc GoError
  | [] => pure []
  | l :: err => Chain.alloc .permanentError l.text (l :: err)

/-! ## The registry -/

structure RegistryEntry where
  code : String
  err : GoError

abbrev ErrorRegistry := List RegistryEntry

def registerError (code : String) (err : GoError) (reg : ErrorRegistry) : ErrorRegistry := reg ++ [⟨code, err⟩]

/-- The first registered error that an error is. -/
def ErrorRegistry.first (reg : ErrorRegistry) (err : GoError) : Option RegistryEntry := reg.find? fun m => err.is m.err

structure ErrResponse where
  message : String
  code : String

def ErrResponse.marshalJSON (r : ErrResponse) : Json := .obj [("message", .str r.message), ("code", .str r.code)]

def ErrResponse.unmarshalJSON (doc : Json) : Except Error ErrResponse := do
  let doc ← doc.decodeStruct
  let message ← Json.decodeString (doc.field "message")
  let code ← Json.decodeString (doc.field "code")
  return ⟨message, code⟩

/-- A response, as far as its errors go. A body that is no JSON has no document. -/
structure Response where
  statusCode : Nat
  contentType : String
  body : Option Json

def httpError (reg : ErrorRegistry) (err : GoError) : Response :=
  match reg.first err with
  | some m => ⟨400, "application/json", some (ErrResponse.marshalJSON ⟨err.text, m.code⟩)⟩
  | none => ⟨500, "application/json", some (ErrResponse.marshalJSON ⟨err.text, ""⟩)⟩

/-- The error of a status alone, which is permanent unless the server may recover. -/
def statusError (statusCode : Nat) : Alloc GoError := do
  let err ← errorsNew ("HTTP status code " ++ toString statusCode)
  if statusCode ≠ 429 ∧ statusCode < 500 then permanent err else return err

def unwrapError (reg : ErrorRegistry) (resp : Response) : Alloc GoError :=
  if resp.statusCode = 400 ∧ resp.contentType = "application/json" then
    match resp.body.map ErrResponse.unmarshalJSON with
    | some (.ok errResp) =>
      match reg.find? fun m => errResp.code = m.code with
      | some m => permanent m.err
      | none => statusError resp.statusCode
    | _ => errorsNew "malformed remote error response"
  else statusError resp.statusCode

/-! ## There and back -/

/-- Distinct values of `errors.New`, made before address `n`, under distinct codes. -/
structure Registered (n : Nat) (reg : ErrorRegistry) : Prop where
  new : ∀ m ∈ reg, ∃ addr < n, ∃ text, m.err = sentinel addr text
  distinct : (reg.map fun m => m.err.map (·.ref)).Nodup
  codes : (reg.map (·.code)).Nodup
  nonempty : ∀ m ∈ reg, m.code ≠ ""

theorem ErrResponse.unmarshalJSON_marshalJSON (r : ErrResponse) : ErrResponse.unmarshalJSON r.marshalJSON = .ok r := by
  simp [ErrResponse.unmarshalJSON, ErrResponse.marshalJSON, Json.field_cons, Json.sameName,
    Json.foldChar, pure, Except.pure, bind, Except.bind]

@[simp] theorem is_sentinel (err : GoError) (addr : Nat) (text : String) :
    err.is (sentinel addr text) = true ↔ ∃ l ∈ err, l.ref = ⟨.errorString, addr⟩ ∨
      ⟨.errorString, addr⟩ ∈ l.accepts := by
  simp [sentinel, Chain.is, Chain.matchesLink, ErrorTypes.acceptsAll]

/-- Nothing but its pointer makes a value of `errors.New` that error, wrapped as permanent or not. -/
theorem sentinel_is_sentinel {a b : Nat} {s t : String} : (sentinel a s).is (sentinel b t) = true ↔ a = b := by
  rw [is_sentinel]
  simp [sentinel]

theorem permanent_is_sentinel {a b n : Nat} {s t : String} :
    ((permanent (sentinel a s)).run n).1.is (sentinel b t) = true ↔ a = b := by
  rw [is_sentinel]
  show (∃ l ∈ (⟨⟨.permanentError, n⟩, s, []⟩ :: sentinel a s : GoError), _) ↔ _
  simp [sentinel]

theorem find?_code {n : Nat} {reg : ErrorRegistry} (h : Registered n reg) {m : RegistryEntry} (hm : m ∈ reg) :
    (reg.find? fun m' => m.code = m'.code) = some m := by
  cases hf : reg.find? fun m' => m.code = m'.code with
  | none =>
    have hne := List.find?_eq_none.1 hf m hm
    simp at hne
  | some m' =>
    have hcode : m.code = m'.code := by simpa using List.find?_some hf
    rw [List.inj_on_of_nodup_map h.codes hm (List.mem_of_find?_eq_some hf) hcode]

/-- A registered error comes back as itself, marked as permanent. -/
theorem unwrapError_of_first {n : Nat} {reg : ErrorRegistry} (h : Registered n reg) {err : GoError} {m : RegistryEntry}
    (hfirst : reg.first err = some m) : unwrapError reg (httpError reg err) = permanent m.err := by
  have hresp : httpError reg err = ⟨400, "application/json", some (ErrResponse.marshalJSON ⟨err.text, m.code⟩)⟩ := by
    unfold httpError
    rw [hfirst]
  have hfind := find?_code h (List.mem_of_find?_eq_some hfirst)
  rw [hresp, unwrapError, if_pos ⟨rfl, rfl⟩, Option.map_some, ErrResponse.unmarshalJSON_marshalJSON]
  simp only [hfind]

theorem statusError_of_transient {statusCode : Nat} (h : statusCode = 429 ∨ 500 ≤ statusCode) (n : Nat) :
    (statusError statusCode).run n = (sentinel n ("HTTP status code " ++ toString statusCode), n + 1) := by
  have hnot : ¬ (statusCode ≠ 429 ∧ statusCode < 500) := by omega
  simp only [statusError, if_neg hnot]
  rfl

/-- Any other error comes back as a status, in a value made for it. -/
theorem unwrapError_of_unregistered {reg : ErrorRegistry} {err : GoError} (hfirst : reg.first err = none) (n : Nat) :
    (unwrapError reg (httpError reg err)).run n = (sentinel n ("HTTP status code " ++ toString 500), n + 1) := by
  have hresp : httpError reg err = ⟨500, "application/json", some (ErrResponse.marshalJSON ⟨err.text, ""⟩)⟩ := by
    unfold httpError
    rw [hfirst]
  rw [hresp, unwrapError, if_neg (by simp)]
  exact statusError_of_transient (.inr le_rfl) n

end Wig.Httptransport
