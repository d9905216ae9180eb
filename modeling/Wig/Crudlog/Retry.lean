/-
The log client's retries, and the loop of `Follow` around them. A registered error of the server crosses the
wire and the retries as itself, so a follower that is past the horizon asks for a snapshot. No error is
ever retried, though: the test for a transport error compares with a pointer that was just made.
-/
import Wig.Crudlog.Follow
import Wig.Httptransport.Errors

namespace Wig.Crudlog

open Wig.Lib Wig.Httptransport

/-! ## Retries -/

/-- `maybeTempError`. -/
def maybeTempError (err : GoError) : Alloc GoError :=
  if err.isEmpty then pure err
  else do
    let urlError ← Chain.alloc .urlError "" []
    if err.is urlError then return err
    let dnsError ← Chain.alloc .dnsError "" []
    if err.is dnsError then return err
    permanent err

/-- `backoff.Retry` after a call that failed: the error it returns, or none if it is to call again. The
policy never stops by itself; `done` is the error of the context, if that is done before the wait is over. -/
def retryStep (err done : GoError) : Alloc (Option GoError) := do
  let err ← maybeTempError err
  match err.as .permanentError with
  | some inner => return some inner
  | none => if done.isEmpty then return none else return some done

/-- How a call of `doSubscribe` or `doSnapshot` fails: with an error of the request, the transport or the
decoder, or with a response that is not 200. -/
inductive Failure where
  | chain (outer : Lib.Link ErrorType) (inner : GoError)
  | response (resp : Response)

/-- The error of the call. One that the libraries made lives at addresses of its own. -/
def Failure.error (reg : ErrorRegistry) : Failure → Alloc GoError
  | .chain outer inner => fun n => (outer :: inner, max n (Chain.bound (outer :: inner)))
  | .response resp => unwrapError reg resp

/-- A call under `backoff.Retry`. -/
inductive Attempt (α : Type) where
  | ok (a : α)
  | failed (f : Failure) (done : GoError)

/-- `backoff.Retry` over the calls as they come: what it returns, unless it waits for another. -/
def retry {α : Type} (reg : ErrorRegistry) : List (Attempt α) → Alloc (Option (Except GoError α))
  | [] => pure none
  | .ok a :: _ => pure (some (.ok a))
  | .failed f done :: rest => do
    let err ← f.error reg
    match ← retryStep err done with
    | some e => return some (.error e)
    | none => retry reg rest

theorem known_sentinel {n addr : Nat} (h : addr < n) (text : String) : (sentinel addr text).Known n := by
  simp [Chain.Known, sentinel, h]

theorem known_permanent {n : Nat} {err : GoError} (h : err.Known n) :
    ((permanent err).run n).1.Known ((permanent err).run n).2 ∧ n ≤ ((permanent err).run n).2 := by
  cases err with
  | nil => exact ⟨h, le_rfl⟩
  | cons l err =>
    refine ⟨fun l' hl' => ?_, Nat.le_succ n⟩
    cases hl' with
    | head => exact ⟨Nat.lt_succ_self n, by simp⟩
    | tail _ hl' => exact h.mono (Nat.le_succ n) l' hl'

theorem acceptsAll_eq_false {t u : ErrorType} (hu : u ≠ .permanentError) : ErrorTypes.acceptsAll t u = false := by
  simp [ErrorTypes.acceptsAll, hu]

/-- Whatever the error, neither of the two new values is in its chain. -/
theorem maybeTempError_eq {n : Nat} {err : GoError} (h : err.Known n) (hne : err ≠ []) :
    (maybeTempError err).run n = (permanent err).run (n + 2) := by
  have hurl : err.is ((Chain.alloc ErrorType.urlError "" []).run n).1 = false :=
    Chain.not_is_alloc h (fun l _ => acceptsAll_eq_false (by decide)) "" []
  have hdns : err.is ((Chain.alloc ErrorType.dnsError "" []).run (n + 1)).1 = false :=
    Chain.not_is_alloc (h.mono (Nat.le_succ n)) (fun l _ => acceptsAll_eq_false (by decide)) "" []
  have hcons : err.isEmpty = false := by simpa using hne
  unfold maybeTempError
  rw [hcons, if_neg Bool.false_ne_true]
  show StateT.run (if err.is ((Chain.alloc ErrorType.urlError "" []).run n).1 then _ else _) (n + 1) = _
  rw [hurl, if_neg Bool.false_ne_true]
  show StateT.run (if err.is ((Chain.alloc ErrorType.dnsError "" []).run (n + 1)).1 then _ else _) (n + 2) = _
  rw [hdns, if_neg Bool.false_ne_true]

/-- Every failure ends the retries, with the error of the call. -/
theorem retryStep_eq {n : Nat} {err : GoError} (h : err.Known n) (hne : err ≠ []) (done : GoError) :
    (retryStep err done).run n = (some err, n + 3) := by
  obtain ⟨l, rest, rfl⟩ := List.exists_cons_of_ne_nil hne
  have hperm : (maybeTempError (l :: rest)).run n = (⟨⟨.permanentError, n + 2⟩, l.text, []⟩ :: l :: rest, n + 3) :=
    maybeTempError_eq h hne
  unfold retryStep
  rw [StateT.run_bind, hperm]
  rfl

/-- An error that is not nil, and of values made before an address, which is no less than `n`. -/
def Made (n : Nat) (res : GoError × Nat) : Prop := res.1 ≠ [] ∧ res.1.Known res.2 ∧ n ≤ res.2

theorem made_permanent {n : Nat} {err : GoError} (h : err.Known n) (hne : err ≠ []) :
    Made n ((permanent err).run n) := by
  refine ⟨?_, known_permanent h⟩
  obtain ⟨l, rest, rfl⟩ := List.exists_cons_of_ne_nil hne
  exact List.cons_ne_nil _ _

theorem made_statusError (n statusCode : Nat) : Made n ((statusError statusCode).run n) := by
  have hnew : (sentinel n ("HTTP status code " ++ toString statusCode)).Known (n + 1) :=
    known_sentinel (Nat.lt_succ_self n) _
  by_cases h : statusCode ≠ 429 ∧ statusCode < 500
  · have hperm : (statusError statusCode).run n =
        (permanent (sentinel n ("HTTP status code " ++ toString statusCode))).run (n + 1) := by
      simp only [statusError, if_pos h]
      rfl
    obtain ⟨hne, hknown, hle⟩ := made_permanent hnew (List.cons_ne_nil _ _)
    rw [hperm]
    exact ⟨hne, hknown, (Nat.le_succ n).trans hle⟩
  · rw [statusError_of_transient (by omega)]
    exact ⟨List.cons_ne_nil _ _, hnew, Nat.le_succ n⟩

theorem made_unwrapError {n : Nat} {reg : ErrorRegistry} (hreg : Registered n reg) (resp : Response) :
    Made n ((unwrapError reg resp).run n) := by
  unfold unwrapError
  split
  · split
    · rename_i errResp _
      cases hf : reg.find? fun m => errResp.code = m.code with
      | none => exact made_statusError n _
      | some m =>
        obtain ⟨addr, haddr, text, herr⟩ := hreg.new m (List.mem_of_find?_eq_some hf)
        simp only [herr]
        exact made_permanent (known_sentinel haddr text) (List.cons_ne_nil _ _)
    · exact ⟨List.cons_ne_nil _ _, known_sentinel (Nat.lt_succ_self n) _, Nat.le_succ n⟩
  · exact made_statusError n _

theorem Failure.made_error {n : Nat} {reg : ErrorRegistry} (hreg : Registered n reg) :
    ∀ f : Failure, Made n ((f.error reg).run n)
  | .chain _ _ => ⟨List.cons_ne_nil _ _, (Chain.known_bound _).mono (le_max_right _ _), le_max_left _ _⟩
  | .response resp => made_unwrapError hreg resp

/-- One call that fails is the last, whatever would come next. -/
theorem retry_failed {α : Type} {n : Nat} {reg : ErrorRegistry} (hreg : Registered n reg) (f : Failure) (done : GoError)
    (rest : List (Attempt α)) :
    ((retry reg (.failed f done :: rest)).run n).1 = some (.error ((f.error reg).run n).1) := by
  obtain ⟨hne, hknown, -⟩ := f.made_error hreg
  have hstep := retryStep_eq hknown hne done
  rw [retry, StateT.run_bind]
  show ((StateT.run (retryStep ((f.error reg).run n).1 done >>= _) ((f.error reg).run n).2).1) = _
  rw [StateT.run_bind, hstep]
  rfl

/-! ## `doFollow` on an error of `Subscribe` -/

def errHorizon : GoError := sentinel 0 "sequence out of horizon"

def errOutOfSequence : GoError := sentinel 1 "out of sequence (log rewind)"

/-- What `doFollow` goes on with. -/
inductive Branch where
  | snapshot
  | fail (err : GoError)
  | follow

def afterSubscribe (restartFromSnapshot : Bool) (err : GoError) : Alloc Branch :=
  if err.is errHorizon && restartFromSnapshot then pure .snapshot
  else if err.isEmpty then pure .follow
  else do
    let err ← Chain.alloc .wrapError ("subscription error: " ++ err.text) err
    return .fail err

theorem afterSubscribe_eq {err : GoError} (hne : err ≠ []) (n : Nat) :
    ((afterSubscribe true err).run n).1 =
      if err.is errHorizon then .snapshot
      else .fail (⟨⟨.wrapError, n⟩, "subscription error: " ++ err.text, []⟩ :: err) := by
  have hcons : err.isEmpty = false := by simpa using hne
  unfold afterSubscribe
  rw [Bool.and_true, hcons]
  cases err.is errHorizon <;> rfl

/-- The client's error of a server's error is what the retries return, at once. -/
theorem retry_httpError {α : Type} {n : Nat} {reg : ErrorRegistry} (hreg : Registered n reg) (err done : GoError)
    (rest : List (Attempt α)) :
    ((retry reg (.failed (.response (httpError reg err)) done :: rest)).run n).1 =
      some (.error ((unwrapError reg (httpError reg err)).run n).1) :=
  retry_failed hreg _ done rest

/-- What the client has of a server's error whose first registered error is `e`: the error `e` and no other
registered one, not retried, and taken for the horizon by `doFollow` just if it is. -/
structure Crosses (reg : ErrorRegistry) (n : Nat) (err : GoError) (e : RegistryEntry) (client : GoError) : Prop where
  same : ∀ m ∈ reg, client.is m.err = true ↔ m = e
  notRetried : ∀ (α : Type) (done : GoError) (rest : List (Attempt α)),
    ((retry reg (.failed (.response (httpError reg err)) done :: rest)).run n).1 = some (.error client)
  snapshot : ∀ k, ((afterSubscribe true client).run k).1 = .snapshot ↔ e.err.map (·.ref) = errHorizon.map (·.ref)
  fails : ∀ k, e.err.map (·.ref) ≠ errHorizon.map (·.ref) → ∃ text, ((afterSubscribe true client).run k).1 =
    .fail (⟨⟨.wrapError, k⟩, text, []⟩ :: client)

/-- The registered errors cross the wire and the retries; an error that is none of them comes back as none. -/
theorem registered_errors_cross {n : Nat} {reg : ErrorRegistry} (hreg : Registered n reg) (err : GoError) :
    let client := ((unwrapError reg (httpError reg err)).run n).1
    (∀ e, reg.first err = some e → Crosses reg n err e client) ∧
    (reg.first err = none → (∀ m ∈ reg, client.is m.err = false) ∧
      ∀ (α : Type) (done : GoError) (rest : List (Attempt α)),
        ((retry reg (.failed (.response (httpError reg err)) done :: rest)).run n).1 = some (.error client)) := by
  intro client
  constructor
  · intro e he
    have hmem := List.mem_of_find?_eq_some he
    obtain ⟨addr, -, text, herr⟩ := hreg.new e hmem
    have hclient : client = ((permanent (sentinel addr text)).run n).1 := by rw [← herr, ← unwrapError_of_first hreg he]
    have hhorizon : client.is errHorizon = true ↔ addr = 0 := by rw [hclient]; exact permanent_is_sentinel
    have hrefs : e.err.map (·.ref) = errHorizon.map (·.ref) ↔ addr = 0 := by rw [herr]; simp [sentinel, errHorizon]
    have hne : client ≠ [] := by rw [hclient]; exact List.cons_ne_nil _ _
    refine ⟨fun m hm => ?_, fun _ done rest => retry_httpError hreg err done rest, fun k => ?_, fun k hk => ?_⟩
    · obtain ⟨addr', -, text', herr'⟩ := hreg.new m hm
      rw [hclient, herr', permanent_is_sentinel]
      constructor
      · rintro rfl
        exact List.inj_on_of_nodup_map hreg.distinct hm hmem (by rw [herr, herr']; rfl)
      · rintro rfl
        have := herr.symm.trans herr'
        simpa [sentinel] using congrArg (List.map fun l => l.ref.addr) this
    · rw [afterSubscribe_eq hne, hrefs, ← hhorizon]
      cases client.is errHorizon <;> simp
    · rw [ne_eq, hrefs, ← hhorizon] at hk
      rw [afterSubscribe_eq hne, if_neg hk]
      exact ⟨_, rfl⟩
  · intro hnone
    refine ⟨fun m hm => ?_, fun _ done rest => retry_httpError hreg err done rest⟩
    obtain ⟨addr, haddr, text, herr⟩ := hreg.new m hm
    have hclient : client = sentinel n _ := congrArg Prod.fst (unwrapError_of_unregistered hnone n)
    rw [hclient, herr, ← Bool.not_eq_true, sentinel_is_sentinel]
    omega

def errUnknownType : GoError := sentinel 2 "unknown type"

def errReadonly : GoError := sentinel 3 "read-only"

/-- The registry after the `init` functions. -/
def errorRegistry : ErrorRegistry :=
  [] |> registerError "unknown-type" errUnknownType |> registerError "readonly" errReadonly
    |> registerError "horizon" errHorizon |> registerError "out-of-sequence" errOutOfSequence

theorem registered_errorRegistry {n : Nat} (hn : 4 ≤ n) : Registered n errorRegistry where
  new m hm := by
    simp only [errorRegistry, registerError, List.nil_append, List.cons_append, List.mem_cons,
      List.not_mem_nil, or_false] at hm
    rcases hm with rfl | rfl | rfl | rfl
    · exact ⟨2, by omega, _, rfl⟩
    · exact ⟨3, by omega, _, rfl⟩
    · exact ⟨0, by omega, _, rfl⟩
    · exact ⟨1, by omega, _, rfl⟩
  distinct := by decide
  codes := by decide
  nonempty := by decide

/-- The server wrapped the error of the horizon. -/
theorem registered_errors_cross_horizon :
    let err : GoError := ⟨⟨.wrapError, 7⟩, "subscribe: sequence out of horizon", []⟩ :: errHorizon
    Registered 4 errorRegistry ∧ errorRegistry.first err = some ⟨"horizon", errHorizon⟩ ∧
      Crosses errorRegistry 4 err ⟨"horizon",
        errHorizon⟩ ((unwrapError errorRegistry (httpError errorRegistry err)).run 4).1 :=
  ⟨registered_errorRegistry le_rfl, rfl, (registered_errors_cross (registered_errorRegistry le_rfl) _).1 _ rfl⟩

end Wig.Crudlog
