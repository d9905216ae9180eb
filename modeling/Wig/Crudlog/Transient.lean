/-
The loop of `Follow`, call by call, and which failures end it. By its comments only what is not a transport
error does, and the client retries until the context is cancelled; as the client retries nothing, the first
failure of any kind is also the last.
-/
import Wig.Crudlog.Retry

namespace Wig.Crudlog

open Wig.Lib Wig.Httptransport

/-! ## Transient failures -/

/-- A transport error, or a server that may recover. -/
def Failure.Transient : Failure → Prop
  | .chain outer inner => ∃ l ∈ outer :: inner, l.ref.type = .urlError ∨ l.ref.type = .dnsError
  | .response resp => resp.statusCode = 429 ∨ 500 ≤ resp.statusCode

/-- A call that fails, under `backoff.Retry`. -/
def called (reg : ErrorRegistry) (f : Failure) (done : GoError) : Alloc (Option GoError) := do
  let err ← f.error reg
  retryStep err done

/-- With the context not done, the call is made again. -/
def Retries (reg : ErrorRegistry) (n : Nat) (f : Failure) : Prop := ((called reg f []).run n).1 = none

theorem called_eq {n : Nat} {reg : ErrorRegistry} (hreg : Registered n reg) (f : Failure) (done : GoError) :
    (called reg f done).run n = (some ((f.error reg).run n).1, ((f.error reg).run n).2 + 3) := by
  obtain ⟨hne, hknown, -⟩ := f.made_error hreg
  rw [called, StateT.run_bind]
  exact retryStep_eq hknown hne done

theorem not_retries {n : Nat} {reg : ErrorRegistry} (hreg : Registered n reg) (f : Failure) : ¬ Retries reg n f := by
  unfold Retries
  rw [called_eq hreg]
  exact Option.some_ne_none _

/-! ## The loop -/

/-- Where `Follow` is: in a call of `Subscribe` or `Snapshot`, reading operations, or returned. -/
inductive FollowPhase where
  | subscribing (restartFromSnapshot : Bool)
  | snapshotting
  | streaming
  | returned (err : GoError)

structure FollowLoop where
  phase : FollowPhase
  next : Nat

/-- What the loop meets. -/
inductive FollowInput where
  /-- A call of `doSubscribe` or `doSnapshot` fails; `done` is the context's error, if it is done by then. -/
  | failed (f : Failure) (done : GoError)
  /-- The call succeeds; a snapshot is also loaded. -/
  | succeeded
  | loadFailed (seq : Nat) (err : GoError)
  | applyFailed (seq : Nat) (err : GoError)
  /-- The channel is closed. -/
  | eof
  /-- The context is done while operations are read. -/
  | cancelled (err : GoError)

namespace FollowLoop

variable (reg : ErrorRegistry)

def fail (n : Nat) (text : String) (err : GoError) : FollowLoop :=
  let (err, n) := (Chain.alloc .wrapError (text ++ err.text) err).run n
  ⟨.returned err, n⟩

/-- After `Subscribe` returned. -/
def subscribed (restartFromSnapshot : Bool) (err : GoError) (n : Nat) : FollowLoop :=
  match (afterSubscribe restartFromSnapshot err).run n with
  | (.snapshot, n) => ⟨.snapshotting, n⟩
  | (.fail err, n) => ⟨.returned err, n⟩
  | (.follow, n) => ⟨.streaming, n⟩

def step (s : FollowLoop) : FollowInput → Option FollowLoop
  | .failed f done =>
    match s.phase, (called reg f done).run s.next with
    | .subscribing _, (none, n) => some ⟨s.phase, n⟩
    | .subscribing restart, (some err, n) => some (subscribed restart err n)
    | .snapshotting, (none, n) => some ⟨s.phase, n⟩
    | .snapshotting, (some err, n) => some (fail n "Snapshot() error: " err)
    | _, _ => none
  | .succeeded =>
    match s.phase with
    | .subscribing _ => some { s with phase := .streaming }
    | .snapshotting => some { s with phase := .subscribing false }
    | _ => none
  | .loadFailed seq err =>
    match s.phase with
    | .snapshotting => some (fail s.next ("loading snapshot " ++ sequenceString seq ++ ": ") err)
    | _ => none
  | .applyFailed seq err =>
    match s.phase with
    | .streaming => some (fail s.next ("sequence " ++ sequenceString seq ++ ": ") err)
    | _ => none
  | .eof =>
    match s.phase with
    | .streaming => some { s with phase := .subscribing true }
    | _ => none
  | .cancelled err =>
    match s.phase with
    | .streaming => some { s with phase := .returned err }
    | _ => none

def system : System FollowLoop FollowInput := ⟨step reg⟩

/-- `Follow`, as its first call is made. -/
def start (n : Nat) : FollowLoop := ⟨.subscribing true, n⟩

end FollowLoop

/-- What `Follow` may return after: a failure that is not transient, or a cancellation. -/
def FollowInput.Excuses : FollowInput → Prop
  | .failed f done => ¬ f.Transient ∨ done ≠ []
  | .loadFailed _ _ => True
  | .applyFailed _ _ => True
  | .cancelled _ => True
  | .succeeded => False
  | .eof => False

/-- If a run of the loop has returned, its last input excuses that. -/
def ReturnsExcused (reg : ErrorRegistry) (n : Nat) (inputs : List FollowInput) : Prop :=
  ∀ s err, (FollowLoop.system reg).run (.start n) inputs = some s → s.phase = .returned err →
    ∃ input, inputs.getLast? = some input ∧ input.Excuses

namespace FollowLoop

variable {reg : ErrorRegistry}

/-- Success and the end of the stream do not end the loop. -/
theorem step_returned {s s' : FollowLoop} {input : FollowInput} {err : GoError} (h : s.step reg input = some s')
    (hret : s'.phase = .returned err) : input.Excuses ∨ ∃ f done, input = .failed f done := by
  cases input with
  | failed f done => exact .inr ⟨f, done, rfl⟩
  | loadFailed _ _ => exact .inl trivial
  | applyFailed _ _ => exact .inl trivial
  | cancelled _ => exact .inl trivial
  | succeeded =>
    obtain ⟨phase, n⟩ := s
    cases phase <;> cases h <;> cases hret
  | eof =>
    obtain ⟨phase, n⟩ := s
    cases phase <;> cases h
    cases hret

/-- A failure of the subscription ends the loop unless it is the horizon's, and one of the snapshot always. -/
theorem step_failed_returns {n : Nat} (hreg : Registered n reg) (f : Failure) (done : GoError) (restart : Bool)
    (hhorizon : ((f.error reg).run n).1.is errHorizon = false) :
    (∃ s err, step reg ⟨.subscribing restart, n⟩ (.failed f done) = some s ∧ s.phase = .returned err) ∧
    ∃ s err, step reg ⟨.snapshotting, n⟩ (.failed f done) = some s ∧ s.phase = .returned err := by
  obtain ⟨hne, -, -⟩ := f.made_error hreg
  have hcons : ((f.error reg).run n).1.isEmpty = false := by simpa using hne
  have hcalled := called_eq hreg f done
  constructor
  · unfold step
    simp only [hcalled, subscribed, afterSubscribe, hhorizon, hcons]
    exact ⟨_, _, rfl, rfl⟩
  · unfold step
    simp only [hcalled]
    exact ⟨_, _, rfl, rfl⟩

end FollowLoop

/-- A failure is retried as it should be just if it is not transient, for none is; and a run in which no call
fails with a transient error before it is cancelled returns for good reason only. -/
theorem transient_retried_iff {n : Nat} {reg : ErrorRegistry} (hreg : Registered n reg) :
    (∀ f : Failure, (Retries reg n f ↔ f.Transient) ↔ ¬ f.Transient) ∧
    ∀ inputs : List FollowInput, (∀ f done, .failed f done ∈ inputs → f.Transient → done ≠ []) →
      ReturnsExcused reg n inputs := by
  constructor
  · intro f
    simp [not_retries hreg f]
  · intro inputs hall s err hrun hret
    rcases List.eq_nil_or_concat' inputs with rfl | ⟨before, input, rfl⟩
    · cases hrun
      cases hret
    · rw [System.run_concat] at hrun
      obtain ⟨s', -, hstep⟩ := Option.bind_eq_some_iff.1 hrun
      refine ⟨input, by simp, ?_⟩
      rcases FollowLoop.step_returned hstep hret with h | ⟨f, done, rfl⟩
      · exact h
      · by_cases ht : f.Transient
        · exact .inr (hall f done (by simp) ht)
        · exact .inl ht

/-- A server that does not have the log. -/
theorem transient_retried_not_found :
    let f : Failure := .response ⟨404, "text/plain", none⟩
    Registered 4 errorRegistry ∧ ¬ f.Transient ∧ (Retries errorRegistry 4 f ↔ f.Transient) ∧
      ReturnsExcused errorRegistry 4 [.failed f []] := by
  intro f
  have hreg := registered_errorRegistry (le_refl 4)
  have hnot : ¬ f.Transient := by
    rintro (h | h)
    · cases h
    · exact absurd h (by decide)
  refine ⟨hreg, hnot, ((transient_retried_iff hreg).1 f).2 hnot,
    (transient_retried_iff hreg).2 _ fun f' done hmem htransient => ?_⟩
  cases List.mem_singleton.1 hmem
  exact absurd htransient hnot

/-- The first call is refused by the network, the context is not done, and `Follow` returns. -/
theorem follow_gives_up_on_url_error :
    let f : Failure := .chain ⟨⟨.urlError, 9⟩, "Get /api/v1/log/subscribe: connection refused", []⟩ []
    f.Transient ∧ ¬ Retries errorRegistry 4 f ∧ ¬ ReturnsExcused errorRegistry 4 [.failed f []] := by
  intro f
  have hreg := registered_errorRegistry (le_refl 4)
  have htransient : f.Transient := ⟨_, .head _, .inl rfl⟩
  refine ⟨htransient, not_retries hreg f, fun h => ?_⟩
  obtain ⟨⟨s, err, hstep, hret⟩, -⟩ := FollowLoop.step_failed_returns hreg f [] true rfl
  have hrun : (FollowLoop.system errorRegistry).run (.start 4) [.failed f []] = some s :=
    Option.bind_eq_some_iff.2 ⟨s, hstep, rfl⟩
  obtain ⟨input, hlast, hexcuses⟩ := h s err hrun hret
  cases hlast
  rcases hexcuses with hnot | hdone
  · exact hnot htransient
  · exact hdone rfl

end Wig.Crudlog
