/-
The goroutines of a remote subscription: one scans the response and sends what it reads on a channel, the
other waits for the first, or for the context, and then closes the channel. Nothing makes it wait for both.
-/
import Wig.Crudlog.Framing
import Wig.Lib.System

namespace Wig.Crudlog

open Wig.Lib Wig.Crud

variable {V : Type}

/-- The scanning goroutine is in `Scan`, at its send, or has returned, which closes `done`. -/
inductive Scanner (V : Type) where
  | scanning
  | sending (op : Op V)
  | finished

namespace Scanner

def pending : Scanner V → List (Op V)
  | .sending op => [op]
  | _ => []

def isFinished : Scanner V → Bool
  | .finished => true
  | _ => false

end Scanner

/-- `loop` is in its `select`, past it, or has returned. -/
inductive Selecting where
  | waiting
  | leaving
  | returned
  deriving DecidableEq

/-- `buf` and `closed` are the channel's; `consuming` tells whether the consumer still reads from it.
`scanned` has the tokens that were read so far, and `received` what the consumer got. -/
structure RemoteLoop (V : Type) where
  scanner : Scanner V
  selecting : Selecting
  cancelled : Bool
  bodyClosed : Bool
  buf : List (Op V)
  closed : Bool
  consuming : Bool
  panicked : Bool
  scanned : List (List UInt8)
  received : List (Op V)

/-- `scanEnd` is a `Scan` that returns false, after an error or at the end of the response. -/
inductive LoopEvent where
  | scan (b : List UInt8)
  | scanEnd
  | send
  | handOver
  | cancel
  | selectCtx
  | selectDone
  | close
  | receive
  | leave

/-- Where the goroutine is after a token. -/
def Scanner.afterToken (J : JsonText) (enc : Encoding V) (b : List UInt8) : Scanner V :=
  if b = [] then .scanning
  else
    match (J.unmarshal b).bind (Op.unmarshalJSON enc) with
    | .error _ => .finished
    | .ok op => .sending op

namespace RemoteLoop

/-- `Notify`. -/
def start : RemoteLoop V := ⟨.scanning, .waiting, false, false, [], false, true, false, [], []⟩

variable (c : Nat) (J : JsonText) (enc : Encoding V)

/-- The scanner may have tokens left when the body is closed. A send on a closed channel panics, and
the process is gone. -/
def step (s : RemoteLoop V) (e : LoopEvent) : Option (RemoteLoop V) :=
  if s.panicked then none
  else match e with
    | .scan b =>
      match s.scanner with
      | .scanning => some { s with scanner := .afterToken J enc b, scanned := s.scanned ++ [b] }
      | _ => none
    | .scanEnd =>
      match s.scanner with
      | .scanning => some { s with scanner := .finished }
      | _ => none
    | .send =>
      match s.scanner with
      | .sending op =>
        if s.closed then some { s with panicked := true }
        else if s.buf.length < c then some { s with scanner := .scanning, buf := s.buf ++ [op] }
        else none
      | _ => none
    | .handOver =>
      match s.scanner with
      | .sending op =>
        if s.closed = false ∧ s.consuming = true ∧ s.buf = [] then
          some { s with scanner := .scanning, received := s.received ++ [op] }
        else none
      | _ => none
    | .cancel => some { s with cancelled := true }
    | .selectCtx =>
      if s.selecting = .waiting ∧ s.cancelled = true then
        some { s with selecting := .leaving, bodyClosed := true } else none
    | .selectDone =>
      if s.selecting = .waiting ∧ s.scanner.isFinished = true then some { s with selecting := .leaving } else none
    -- the deferred `close(ch)`
    | .close => if s.selecting = .leaving then some { s with selecting := .returned, closed := true } else none
    | .receive =>
      match s.buf with
      | op :: buf => if s.consuming then some { s with buf := buf, received := s.received ++ [op] } else none
      | [] => none
    -- the consumer returns, and calls `Close` on the subscription
    | .leave => if s.consuming then some { s with consuming := false, bodyClosed := true } else none

def system : System (RemoteLoop V) LoopEvent := ⟨step c J enc⟩

/-- A send is attempted on the channel, which is closed. -/
def SendsOnClosed (s : RemoteLoop V) : Prop := s.closed = true ∧ ∃ op, s.scanner = .sending op

/-- The channel is closed only when the scanning goroutine has returned. -/
def Joined (s : RemoteLoop V) : LoopEvent → Prop
  | .close => s.scanner.isFinished = true
  | _ => True

instance decidableJoined (s : RemoteLoop V) : ∀ e, Decidable (Joined s e)
  | .close => inferInstanceAs (Decidable (_ = true))
  | .scan _ | .scanEnd | .send | .handOver | .cancel | .selectCtx | .selectDone | .receive | .leave => isTrue trivial

variable {c J enc} {s s' : RemoteLoop V} {e : LoopEvent}

/-! ## What an event does -/

/-- Everything an event can do, as far as the scanning goroutine, the `select` and the channel go. -/
inductive Stepped (c : Nat) (J : JsonText) (enc : Encoding V) (s : RemoteLoop V) : LoopEvent → RemoteLoop V → Prop
  | scanned (b : List UInt8) (scanning : s.scanner = .scanning) :
      Stepped c J enc s (.scan b) { s with scanner := .afterToken J enc b, scanned := s.scanned ++ [b] }
  | ended (scanning : s.scanner = .scanning) : Stepped c J enc s .scanEnd { s with scanner := .finished }
  | panicked (op : Op V) (sending : s.scanner = .sending op) (closed : s.closed = true) :
      Stepped c J enc s .send { s with panicked := true }
  | sent (op : Op V) (sending : s.scanner = .sending op) (opened : s.closed = false) :
      Stepped c J enc s .send { s with scanner := .scanning, buf := s.buf ++ [op] }
  | handedOver (op : Op V) (sending : s.scanner = .sending op) (empty : s.buf = []) :
      Stepped c J enc s .handOver { s with scanner := .scanning, received := s.received ++ [op] }
  | cancelled : Stepped c J enc s .cancel { s with cancelled := true }
  | selectedCtx (cancelled : s.cancelled = true) :
      Stepped c J enc s .selectCtx { s with selecting := .leaving, bodyClosed := true }
  | selectedDone (finished : s.scanner.isFinished = true) :
      Stepped c J enc s .selectDone { s with selecting := .leaving }
  | closed (leaving : s.selecting = .leaving) :
      Stepped c J enc s .close { s with selecting := .returned, closed := true }
  | received (op : Op V) (buf : List (Op V)) (nonempty : s.buf = op :: buf) :
      Stepped c J enc s .receive { s with buf := buf, received := s.received ++ [op] }
  | left : Stepped c J enc s .leave { s with consuming := false, bodyClosed := true }

theorem step_stepped (h : step c J enc s e = some s') : Stepped c J enc s e s' := by
  unfold step at h
  split at h
  · cases h
  · cases e with
    | scan b =>
      simp only at h
      split at h
      · rename_i hscan; cases h; exact .scanned b hscan
      · cases h
    | scanEnd =>
      simp only at h
      split at h
      · rename_i hscan; cases h; exact .ended hscan
      · cases h
    | send =>
      simp only at h
      split at h
      · rename_i op hsend
        split at h
        · rename_i hclosed; cases h; exact .panicked op hsend hclosed
        · rename_i hopen
          split at h
          · cases h; exact .sent op hsend (by simpa using hopen)
          · cases h
      · cases h
    | handOver =>
      simp only at h
      split at h
      · rename_i op hsend
        split at h
        · rename_i hwait; cases h; exact .handedOver op hsend hwait.2.2
        · cases h
      · cases h
    | cancel => cases h; exact .cancelled
    | selectCtx =>
      simp only at h
      split at h
      · rename_i hsel; cases h; exact .selectedCtx hsel.2
      · cases h
    | selectDone =>
      simp only at h
      split at h
      · rename_i hsel; cases h; exact .selectedDone hsel.2
      · cases h
    | close =>
      simp only at h
      split at h
      · rename_i hsel; cases h; exact .closed hsel
      · cases h
    | receive =>
      simp only at h
      split at h
      · rename_i op buf hbuf
        split at h
        · cases h; exact .received op buf hbuf
        · cases h
      · cases h
    | leave =>
      simp only at h
      split at h
      · cases h; exact .left
      · cases h

/-! ## Closing after the goroutine -/

/-- Once the channel is closed, the scanning goroutine has returned. -/
def ClosedLast (s : RemoteLoop V) : Prop := s.closed = true → s.scanner.isFinished = true

theorem ClosedLast.not_sendsOnClosed (h : ClosedLast s) : ¬ SendsOnClosed s := by
  rintro ⟨hclosed, op, hsend⟩
  have hfin := h hclosed
  rw [hsend] at hfin
  cases hfin

theorem ClosedLast.step (h : ClosedLast s) (he : Joined s e) (hs : step c J enc s e = some s') : ClosedLast s' := by
  -- while the goroutine has not returned the channel is open
  have hopen : s.scanner.isFinished = false → s.closed = false := fun hfin =>
    Bool.eq_false_iff.2 fun hclosed => by rw [h hclosed] at hfin; cases hfin
  cases step_stepped hs with
  | scanned b hscan =>
    intro hclosed
    have hnot : s.closed = false := hopen (by rw [hscan]; rfl)
    exact absurd hclosed (by simp [hnot])
  | ended _ => exact fun _ => rfl
  | panicked op hsend hclosed => exact h
  | sent op hsend hnot => exact fun hclosed => absurd hclosed (by simp [hnot])
  | handedOver op hsend _ =>
    intro hclosed
    have hnot : s.closed = false := hopen (by rw [hsend]; rfl)
    exact absurd hclosed (by simp [hnot])
  | cancelled => exact h
  | selectedCtx _ => exact h
  | selectedDone _ => exact h
  | closed _ => exact fun _ => he
  | received op buf _ => exact h
  | left => exact h

/-- In every run in which the channel is closed after the scanning goroutine has returned, no send is
attempted on a closed channel. -/
theorem not_sendsOnClosed_of_joined (h : (system c J enc).Reach Joined start s) : ¬ SendsOnClosed s := by
  have hstart : ClosedLast (start : RemoteLoop V) := fun hclosed => by cases hclosed
  exact (h.invariant hstart fun _ _ _ hi he hs => ClosedLast.step hi he hs).not_sendsOnClosed

/-- If the context is never cancelled, `loop` waits for the goroutine. -/
structure Waits (s : RemoteLoop V) : Prop where
  uncancelled : s.cancelled = false
  selecting : s.selecting ≠ .waiting → s.scanner.isFinished = true
  closedLast : ClosedLast s

theorem Waits.step (h : Waits s) (he : e ≠ .cancel) (hs : step c J enc s e = some s') : Waits s' := by
  have hjoined : Joined s e := by
    cases step_stepped hs with
    | closed hleaving => exact h.selecting (by rw [hleaving]; decide)
    | _ => trivial
  have hlast := h.closedLast.step hjoined hs
  have hwaiting : s.scanner.isFinished = false → s.selecting = .waiting := fun hfin => by
    by_contra hne
    rw [h.selecting hne] at hfin
    cases hfin
  cases step_stepped hs with
  | scanned b hscan => exact ⟨h.uncancelled, fun hne => absurd (hwaiting (by rw [hscan]; rfl)) hne, hlast⟩
  | ended _ => exact ⟨h.uncancelled, fun _ => rfl, hlast⟩
  | panicked op hsend hclosed => exact ⟨h.uncancelled, h.selecting, hlast⟩
  | sent op hsend hnot => exact ⟨h.uncancelled, fun hne => absurd (hwaiting (by rw [hsend]; rfl)) hne, hlast⟩
  | handedOver op hsend _ => exact ⟨h.uncancelled, fun hne => absurd (hwaiting (by rw [hsend]; rfl)) hne, hlast⟩
  | cancelled => exact absurd rfl he
  | selectedCtx hcancelled => rw [h.uncancelled] at hcancelled; cases hcancelled
  | selectedDone hfin => exact ⟨h.uncancelled, fun _ => hfin, hlast⟩
  | closed hleaving => exact ⟨h.uncancelled, fun _ => h.selecting (by rw [hleaving]; decide), hlast⟩
  | received op buf _ => exact ⟨h.uncancelled, h.selecting, hlast⟩
  | left => exact ⟨h.uncancelled, h.selecting, hlast⟩

theorem not_sendsOnClosed_of_uncancelled (h : (system c J enc).Reach (fun _ e => e ≠ .cancel) start s) :
    ¬ SendsOnClosed s := by
  have hstart : Waits (start : RemoteLoop V) := ⟨rfl, fun hne => absurd rfl hne, fun hclosed => by cases hclosed⟩
  exact (h.invariant hstart fun _ _ _ hi he hs => Waits.step hi he hs).closedLast.not_sendsOnClosed

/-! ## What the consumer gets -/

/-- The tokens were read as operations, but for empty ones. -/
def Decoded (J : JsonText) (enc : Encoding V) (tokens : List (List UInt8)) : Prop :=
  ∀ b ∈ tokens, b ≠ [] → ∃ op, (J.unmarshal b).bind (Op.unmarshalJSON enc) = .ok op

theorem loop_concat : ∀ {tokens : List (List UInt8)}, Decoded J enc tokens → ∀ b,
    loop J enc (tokens ++ [b]) = loop J enc tokens ++ (Scanner.afterToken J enc b).pending
  | [], _, b => by
    rw [List.nil_append, loop, loop, Scanner.afterToken]
    by_cases hb : b = []
    · rw [if_pos hb, if_pos hb]; rfl
    · rw [if_neg hb, if_neg hb]
      cases (J.unmarshal b).bind (Op.unmarshalJSON enc) <;> rfl
  | token :: tokens, h, b => by
    obtain ⟨htoken, htokens⟩ := List.forall_mem_cons.1 h
    rw [List.cons_append, loop, loop, loop_concat htokens b]
    by_cases ht : token = []
    · rw [if_pos ht, if_pos ht]
    · obtain ⟨op, hop⟩ := htoken ht
      rw [if_neg ht, if_neg ht, hop]
      rfl

/-- What was received, waits in the channel or is being sent is what the tokens hold, in order. -/
structure Delivering (J : JsonText) (enc : Encoding V) (s : RemoteLoop V) : Prop where
  stream : s.received ++ s.buf ++ s.scanner.pending = loop J enc s.scanned
  decoded : s.scanner.isFinished = false → Decoded J enc s.scanned

theorem Delivering.step (h : Delivering J enc s) (hs : step c J enc s e = some s') : Delivering J enc s' := by
  have hstream := h.stream
  cases step_stepped hs with
  | scanned b hscan =>
    rw [hscan] at hstream
    have hdecoded := h.decoded (by rw [hscan]; rfl)
    refine ⟨?_, fun hfin => ?_⟩
    · show s.received ++ s.buf ++ (Scanner.afterToken J enc b).pending = loop J enc (s.scanned ++ [b])
      rw [loop_concat hdecoded, ← hstream]
      simp [Scanner.pending]
    · refine List.forall_mem_append.2 ⟨hdecoded, fun b' hb' hne => ?_⟩
      rw [List.mem_singleton.1 hb'] at hne ⊢
      -- the goroutine did not return, so the token was read
      change (Scanner.afterToken J enc b).isFinished = false at hfin
      rw [Scanner.afterToken, if_neg hne] at hfin
      cases hop : (J.unmarshal b).bind (Op.unmarshalJSON enc) with
      | error err => rw [hop] at hfin; cases hfin
      | ok op => exact ⟨op, rfl⟩
  | ended hscan =>
    rw [hscan] at hstream
    exact ⟨hstream, fun hfin => by cases hfin⟩
  | panicked op hsend hclosed => exact ⟨hstream, h.decoded⟩
  | sent op hsend hnot =>
    rw [hsend] at hstream
    refine ⟨?_, fun _ => h.decoded (by rw [hsend]; rfl)⟩
    rw [← hstream]
    simp [Scanner.pending]
  | handedOver op hsend hempty =>
    rw [hsend, hempty] at hstream
    refine ⟨?_, fun _ => h.decoded (by rw [hsend]; rfl)⟩
    rw [← hstream]
    simp [Scanner.pending, hempty]
  | cancelled => exact ⟨hstream, h.decoded⟩
  | selectedCtx _ => exact ⟨hstream, h.decoded⟩
  | selectedDone _ => exact ⟨hstream, h.decoded⟩
  | closed _ => exact ⟨hstream, h.decoded⟩
  | received op buf hbuf =>
    rw [hbuf] at hstream
    refine ⟨?_, h.decoded⟩
    rw [← hstream]
    simp
  | left => exact ⟨hstream, h.decoded⟩

/-- In every run, the consumer has a first part of what the tokens hold. -/
theorem received_isPrefix (h : (system c J enc).Reach (fun _ _ => True) start s) :
    s.received <+: loop J enc s.scanned := by
  have hstart : Delivering J enc (start : RemoteLoop V) := ⟨rfl, fun _ _ hb => (List.not_mem_nil hb).elim⟩
  have hdel := h.invariant hstart fun _ _ _ hi _ hs => Delivering.step hi hs
  exact ⟨s.buf ++ s.scanner.pending, by rw [← List.append_assoc]; exact hdel.stream⟩

/-! ## A cancellation during a send -/

/-- A token that holds an operation, and its send. -/
theorem step_scan {b : List UInt8} {op : Op V} (hb : b ≠ [])
    (hop : (J.unmarshal b).bind (Op.unmarshalJSON enc) = .ok op) :
    (system c J enc).step start (.scan b) = some ⟨.sending op, .waiting, false, false, [], false,
      true, false, [b], []⟩ := by
  have hafter : Scanner.afterToken J enc b = .sending op := by
    rw [Scanner.afterToken, if_neg hb, hop]
  show some _ = some _
  rw [hafter]
  rfl

open Wig.Model

/-- The line of an operation, as far as one reader knows it. -/
theorem exists_line : ∃ (J : JsonText) (b : List UInt8) (op : Op Value), b ≠ [] ∧
    (J.unmarshal b).bind (Op.unmarshalJSON encoding) = .ok op := by
  have hassumed := assumed_createSecret "secret" _ List.mem_cons_self
  obtain ⟨doc, hdoc⟩ := Op.exists_document hassumed.1.1 hassumed.1.2.1 hassumed.1.2.2 hassumed.2
  refine ⟨printed (secretDoc "secret"), _, (createSecret "secret").untimed, hdoc.faithful.nonempty, ?_⟩
  rw [hdoc.faithful.reads]
  exact hdoc.unmarshal

/-- An operation is read, sent and received, and the channel closed after the response has ended. -/
theorem joined_run :
    ∃ (J : JsonText) (s : RemoteLoop Value), (system 1 J encoding).Reach Joined start s ∧ s.closed = true ∧
    s.received ≠ [] ∧ ¬ SendsOnClosed s := by
  obtain ⟨J, b, op, hb, hop⟩ := exists_line
  have hscan : (system 1 J encoding).Reach Joined start ⟨.sending op, .waiting, false, false, [],
    false, true, false, [b], []⟩ :=
    .next (e := .scan b) ⟨[], trivial, rfl⟩ trivial (step_scan hb hop)
  have hsent := hscan.next (e := LoopEvent.send) trivial rfl
  have hreceived := hsent.next (e := LoopEvent.receive) trivial rfl
  have hended := hreceived.next (e := LoopEvent.scanEnd) trivial rfl
  have hdone := hended.next (e := LoopEvent.selectDone) trivial rfl
  have hclosed := hdone.next (e := LoopEvent.close) rfl rfl
  exact ⟨J, _, hclosed, rfl, List.cons_ne_nil _ _, not_sendsOnClosed_of_joined hclosed⟩

/-- The context is cancelled while an operation is being sent. -/
theorem cancelled_send :
    ¬ ∀ (c : Nat) (J : JsonText) (s : RemoteLoop Value), (system c J encoding).Reach (fun _ _ => True) start s →
    ¬ SendsOnClosed s := by
  intro h
  obtain ⟨J, b, op, hb, hop⟩ := exists_line
  have hscan : (system chanBufSize J encoding).Reach (fun _ _ => True) start
      ⟨.sending op, .waiting, false, false, [], false, true, false, [b], []⟩ :=
    .next (e := .scan b) ⟨[], trivial, rfl⟩ trivial (step_scan hb hop)
  have hcancelled := hscan.next (e := LoopEvent.cancel) trivial rfl
  have hselected := hcancelled.next (e := LoopEvent.selectCtx) trivial rfl
  have hclosed := hselected.next (e := LoopEvent.close) trivial rfl
  exact h chanBufSize J _ hclosed ⟨rfl, op, rfl⟩

end RemoteLoop

end Wig.Crudlog
