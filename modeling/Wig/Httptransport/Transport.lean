/-
JSON requests: what `ServeJSON` makes of a body before and after it calls the handler's function.
-/
import Wig.Lib.Proc
import Wig.Model.Basic

namespace Wig.Httptransport

open Wig.Lib

/-- What a handler has answered. -/
inductive Reply where
  /-- `http.Error` with status 400: the body is no request. -/
  | badRequest (err : Error)
  /-- `HTTPError`. -/
  | failed (err : Error)
  /-- Status 200, with the document of an object. -/
  | object (doc : Json)
  /-- Status 200. -/
  | empty

/-- `ServeJSON`. A body that does not parse has no document; `decode` reads one into the request object. -/
def serveJSON {σ ρ : Type} (decode : Json → Except Error ρ) (f : ρ → Proc σ Error (Option Json))
    (body : Except Error Json) :
    Proc σ Error Reply := fun s =>
  match body.bind decode with
  | .error e => (.ok (.badRequest e), s)
  | .ok reqObj =>
    match f reqObj s with
    | (.err e, s') => (.ok (.failed e), s')
    | (.ok (some doc), s') => (.ok (.object doc), s')
    | (.ok none, s') => (.ok .empty, s')
    | (.crash, s') => (.crash, s')
    | (.block, s') => (.block, s')

section

variable {σ ρ : Type} {decode : Json → Except Error ρ} {f : ρ → Proc σ Error (Option Json)}
  {body : Except Error Json} {s s' : σ}

/-- The function is not called on a body that is no request. -/
theorem serveJSON_badRequest {e : Error} (h : body.bind decode = .error e) :
    serveJSON decode f body s = (.ok (.badRequest e), s) := by
  unfold serveJSON
  rw [h]

theorem serveJSON_object {reqObj : ρ} {doc : Json} (h : body.bind decode = .ok reqObj)
    (hf : f reqObj s = (.ok (some doc), s')) : serveJSON decode f body s = (.ok (.object doc), s') := by
  unfold serveJSON
  simp only [h, hf]

theorem serveJSON_empty {reqObj : ρ} (h : body.bind decode = .ok reqObj) (hf : f reqObj s = (.ok none, s')) :
    serveJSON decode f body s = (.ok .empty, s') := by
  unfold serveJSON
  simp only [h, hf]

theorem serveJSON_failed {reqObj : ρ} {e : Error} (h : body.bind decode = .ok reqObj) (hf : f reqObj s = (.err e, s')) :
    serveJSON decode f body s = (.ok (.failed e), s') := by
  unfold serveJSON
  simp only [h, hf]

end

end Wig.Httptransport
