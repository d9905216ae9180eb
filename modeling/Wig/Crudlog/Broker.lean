/-
The pubsub between an `Emit` that holds its mutex and subscribers that come and go. Every channel is a
bounded queue, of any capacity; an operation passes the live channel, the `Notify` goroutine and its output
channel on the way to a handler. A handler that stops reading needs the mutex to be removed, and `Emit`
may be waiting for that very handler.
-/
import Wig.Crudlog.Datastore
import Wig.Lib.System

namespace Wig.Crudlog

open Wig.Lib

variable {V : Type}

/-! ## One subscription -/

/-- A handler reads, or has left its loop and waits for the mutex in `Close`, or is gone. -/
inductive Handler where
  | reading
  | departing
  | gone
  deriving DecidableEq

/-- A subscription after `Notify`: what its goroutine has still to forward, an operation that it took
off the live channel, and what waits in the output channel. -/
structure Served (V : Type) where
  preload : List (Op V)
  hand : Option (Op V)
  out : List (Op V)
  handler : Handler

namespace Served

/-- The operation that the goroutine is sending, and the subscription without it. -/
def next (b : Served V) : Option (Op V × Served V) :=
  match b.preload, b.hand with
  | op :: preload, _ => some (op, { b with preload := preload })
  | [], some op => some (op, { b with hand := none })
  | [], none => none

/-- The operations behind the live channel. -/
def load (b : Served V) : Nat := b.preload.length + b.hand.toList.length + b.out.length

/-- The subscription takes one more operation, also if nobody reads it. `buf` is what waits in the live
channel, `c₁` the capacity of that, and `c₂` the one of the output channel. -/
def HasRoom (c₁ c₂ : Nat) (buf : List (Op V)) (b : Served V) : Prop := buf.length < c₁ ∨ b.load ≤ c₂

instance (c₁ c₂ : Nat) (buf : List (Op V)) (b : Served V) : Decidable (b.HasRoom c₁ c₂ buf) :=
  inferInstanceAs (Decidable (_ ∨ _))

end Served

/-- What a subscription does by itself: its goroutine takes an operation off the live channel, puts one
into the output channel or delivers it to the waiting handler; the handler reads, or leaves. -/
inductive Move where
  | take
  | put
  | deliver
  | read
  | exit
  deriving DecidableEq

/-- A move changes the live channel and the subscription. -/
def Move.apply (c₂ : Nat) (buf : List (Op V)) (b : Served V) : Move → Option (List (Op V) × Served V)
  | .take =>
    match b.preload, b.hand, buf with
    | [], none, op :: buf => some (buf, { b with hand := some op })
    | _, _, _ => none
  | .put => if b.out.length < c₂ then b.next.map fun x => (buf, { x.2 with out := x.2.out ++ [x.1] }) else none
  | .deliver => if b.handler = .reading ∧ b.out = [] then b.next.map fun x => (buf, x.2) else none
  | .read =>
    match b.handler, b.out with
    | .reading, _ :: out => some (buf, { b with out := out })
    | _, _ => none
  | .exit => if b.handler = .reading then some (buf, { b with handler := .departing }) else none

/-! ## The pubsub and its subscriptions -/

/-- `emitting` has the operation of the `Emit` that holds the mutex, and the channels it has still to
send to. -/
structure Broker (V : Type) where
  pubsub : Pubsub V
  served : Nat → Option (Served V)
  emitting : Option (Op V × List Nat)

/-- `send` puts the operation of `Emit` into the next channel and `handOver` gives it to the goroutine
that waits there. -/
inductive BrokerEvent (V : Type) where
  | subscribe (preload : List (Op V))
  | emit (op : Op V)
  | send
  | handOver
  | unlock
  | move (ch : Nat) (m : Move)
  | close (ch : Nat)

namespace Broker

def start : Broker V := ⟨Pubsub.new, fun _ => none, none⟩

/-- A channel and its subscription, set. -/
def set (s : Broker V) (ch : Nat) (buf : List (Op V)) (b : Served V) : Broker V :=
  { s with
    pubsub := { s.pubsub with chan := Function.update s.pubsub.chan ch { s.pubsub.chan ch with buf := buf } }
    served := Function.update s.served ch (some b) }

@[simp] theorem set_served_self (s : Broker V) (ch : Nat) (buf : List (Op V)) (b : Served V) :
    (s.set ch buf b).served ch = some b :=
  Function.update_self ..

theorem set_served_of_ne (s : Broker V) {ch c : Nat} (h : c ≠ ch) (buf : List (Op V)) (b : Served V) :
    (s.set ch buf b).served c = s.served c :=
  Function.update_of_ne h ..

@[simp] theorem set_buf_self (s : Broker V) (ch : Nat) (buf : List (Op V)) (b : Served V) :
    ((s.set ch buf b).pubsub.chan ch).buf = buf := by
  simp [set]

@[simp] theorem set_closed (s : Broker V) (ch c : Nat) (buf : List (Op V)) (b : Served V) :
    ((s.set ch buf b).pubsub.chan c).closed = (s.pubsub.chan c).closed := by
  by_cases h : c = ch
  · subst h; simp [set]
  · simp [set, h]

/-- `c₁` is the capacity of a subscriber's channel and `c₂` that of the output of `Notify`. -/
def step (c₁ c₂ : Nat) (s : Broker V) : BrokerEvent V → Option (Broker V)
  | .subscribe preload =>
    if s.emitting.isSome then none
    else some { s with
      pubsub := s.pubsub.subscribed
      served := Function.update s.served s.pubsub.next (some ⟨preload, none, [], .reading⟩) }
  | .emit op =>
    if s.emitting.isSome then none
    else match Proc.forEach Pubsub.close s.pubsub.toClose s.pubsub with
      | (.ok _, p) => some { s with pubsub := { p with toClose := [] }, emitting := some (op, p.subscribers) }
      | _ => none
  | .send =>
    match s.emitting with
    | some (op, ch :: rest) =>
      if (s.pubsub.chan ch).closed = false ∧ (s.pubsub.chan ch).buf.length < c₁ then
        some { s with pubsub := s.pubsub.sending op [ch], emitting := some (op, rest) }
      else none
    | _ => none
  | .handOver =>
    match s.emitting with
    | some (op, ch :: rest) => (s.served ch).bind fun b =>
      -- the goroutine waits in its loop over the live channel
      if (s.pubsub.chan ch).closed = false ∧ (s.pubsub.chan ch).buf = [] ∧ b.preload = [] ∧ b.hand = none then
        some {
          pubsub := { s.pubsub with sent := s.pubsub.sent ++ [(ch, op)] }
          served := Function.update s.served ch (some { b with hand := some op })
          emitting := some (op, rest) }
      else none
    | _ => none
  | .unlock =>
    match s.emitting with
    | some (_, []) => some { s with emitting := none }
    | _ => none
  | .move ch m => (s.served ch).bind fun b => (m.apply c₂ (s.pubsub.chan ch).buf b).map fun x => s.set ch x.1 x.2
  | .close ch => (s.served ch).bind fun b =>
    if b.handler = .departing ∧ s.emitting.isSome = false then
      some { s with
        pubsub := s.pubsub.removeSubscriber ch
        served := Function.update s.served ch (some { b with handler := .gone }) }
    else none

def system (c₁ c₂ : Nat) : System (Broker V) (BrokerEvent V) := ⟨step c₁ c₂⟩

/-- An `Emit` that has closed the queued channels, and has all subscribers to send to. -/
def began (s : Broker V) (op : Op V) : Broker V where
  pubsub := { s.pubsub.closing s.pubsub.toClose with toClose := [] }
  served := s.served
  emitting := some (op, s.pubsub.subscribers)

/-- An `Emit` is pending, and nobody can do anything. -/
def Deadlocked (c₁ c₂ : Nat) (s : Broker V) : Prop := s.emitting.isSome ∧ ∀ e, step c₁ c₂ s e = none

end Broker

/-! ## What a move keeps -/

section Moves

variable {b b' : Served V} {buf buf' : List (Op V)} {m : Move} {c₁ c₂ : Nat}

theorem Served.next_cases (b : Served V) : (b.preload = [] ∧ b.hand = none ∧ b.next = none) ∨
    ∃ op b', b.next = some (op, b') ∧ b'.out = b.out ∧ b'.handler = b.handler ∧ b.load = b'.load + 1 := by
  obtain ⟨preload, hand, out, handler⟩ := b
  cases preload with
  | cons op preload => exact .inr ⟨op, _, rfl, rfl, rfl, by simp [load]; omega⟩
  | nil =>
    cases hand with
    | some op => exact .inr ⟨op, _, rfl, rfl, rfl, by simp [load]; omega⟩
    | none => exact .inl ⟨rfl, rfl, rfl⟩

theorem Served.next_some {op : Op V} (h : b.next = some (op, b')) :
    b'.out = b.out ∧ b'.handler = b.handler ∧ b.load = b'.load + 1 := by
  rcases b.next_cases with ⟨-, -, hnone⟩ | ⟨op', b₁, hnext, hsame⟩
  · rw [hnone] at h; cases h
  · rw [hnext] at h; cases h; exact hsame

/-- What every move keeps: a subscription that had room has it afterwards. -/
structure Move.Kept (m : Move) (c₁ c₂ : Nat) (buf : List (Op V)) (b : Served V) (buf' : List (Op V))
    (b' : Served V) : Prop where
  shorter : buf'.length ≤ buf.length
  gone : b'.handler = .gone ↔ b.handler = .gone
  reading : m ≠ .exit → b.handler = .reading → b'.handler = .reading
  room : buf.length ≤ c₁ → b.HasRoom c₁ c₂ buf → b'.HasRoom c₁ c₂ buf'

theorem Move.apply_kept (h : m.apply c₂ buf b = some (buf', b')) : m.Kept c₁ c₂ buf b buf' b' := by
  cases m with
  | take =>
    simp only [Move.apply] at h
    split at h
    · rename_i op rest hpreload hhand
      cases h
      refine ⟨Nat.le_succ _, Iff.rfl, fun _ => id, fun hle _ => .inl ?_⟩
      rw [List.length_cons] at hle
      omega
    · cases h
  | put =>
    simp only [Move.apply] at h
    split at h
    · obtain ⟨⟨op, b₁⟩, hnext, heq⟩ := Option.map_eq_some_iff.1 h
      cases heq
      obtain ⟨-, hhandler, hload⟩ := Served.next_some hnext
      refine ⟨le_rfl, by rw [← hhandler], fun _ hr => hhandler.trans hr, fun _ hroom => hroom.imp id fun hle => ?_⟩
      simp only [Served.load, List.length_append, List.length_singleton] at hload hle ⊢
      omega
    · cases h
  | deliver =>
    simp only [Move.apply] at h
    split at h
    · obtain ⟨⟨op, b₁⟩, hnext, heq⟩ := Option.map_eq_some_iff.1 h
      cases heq
      obtain ⟨-, hhandler, hload⟩ := Served.next_some hnext
      exact ⟨le_rfl,
        by rw [← hhandler], fun _ hr => hhandler.trans hr, fun _ hroom => hroom.imp id fun hle =>
          show b₁.load ≤ c₂ by omega⟩
    · cases h
  | read =>
    simp only [Move.apply] at h
    split at h
    · rename_i op out hreading hout
      cases h
      refine ⟨le_rfl, Iff.rfl, fun _ => id, fun _ hroom => hroom.imp id fun hle => ?_⟩
      simp only [Served.load, hout, List.length_cons] at hle ⊢
      omega
    · cases h
  | exit =>
    simp only [Move.apply] at h
    split at h
    · rename_i hreading
      cases h
      exact ⟨le_rfl, by simp [hreading], fun hne => absurd rfl hne, fun _ => id⟩
    · cases h

/-- A subscription with room can be sent to, or can move, or waits for an operation. -/
theorem Served.HasRoom.progress (h : b.HasRoom c₁ c₂ buf) : buf.length < c₁ ∨ (∃ m, (Move.apply c₂ buf b m).isSome) ∨
    (buf = [] ∧ b.preload = [] ∧ b.hand = none) := by
  rcases h with h | h
  · exact .inl h
  rcases b.next_cases with ⟨hpreload, hhand, -⟩ | ⟨op, b', hnext, hout, -, hload⟩
  · cases buf with
    | nil => exact .inr (.inr ⟨rfl, hpreload, hhand⟩)
    | cons op buf => exact .inr (.inl ⟨.take, by simp [Move.apply, hpreload, hhand]⟩)
  · -- what the goroutine is sending fits the output channel
    have hfits : b.out.length < c₂ := by
      simp only [Served.load, hout] at hload h
      omega
    exact .inr (.inl ⟨.put, by simp [Move.apply, hfits, hnext]⟩)

end Moves

namespace Broker

variable {s s' : Broker V} {c₁ c₂ : Nat}

/-! ## The condition -/

/-- A handler leaves while an `Emit` has still to send to it, or an `Emit` begins while it waits for the
mutex, only if its subscription takes one more operation. -/
def Roomy (c₁ c₂ : Nat) (s : Broker V) : BrokerEvent V → Prop
  | .emit _ => ∀ ch ∈ s.pubsub.subscribers, ∀ b ∈ s.served ch, b.handler = .departing →
    b.HasRoom c₁ c₂ (s.pubsub.chan ch).buf
  | .move ch .exit => ∀ x ∈ s.emitting, ch ∈ x.2 → ∀ b ∈ s.served ch, b.HasRoom c₁ c₂ (s.pubsub.chan ch).buf
  | _ => True

instance decidableRoomy (c₁ c₂ : Nat) (s : Broker V) : ∀ e, Decidable (Roomy c₁ c₂ s e)
  | .emit _ => inferInstanceAs (Decidable (∀ ch ∈ s.pubsub.subscribers, ∀ b ∈ s.served ch, b.handler = .departing → _))
  | .move ch .exit => inferInstanceAs (Decidable (∀ x ∈ s.emitting, ch ∈ x.2 → ∀ b ∈ s.served ch, _))
  | .subscribe _ | .send | .handOver | .unlock | .close _ | .move _ .take | .move _ .put | .move _
    .deliver | .move _ .read =>
    isTrue trivial

/-- The channels are in order, and `Emit` waits for no handler that has left, unless its subscription
has room. -/
structure Orderly (c₁ c₂ : Nat) (s : Broker V) : Prop where
  live : s.pubsub.Live
  pending : s.pubsub.Pending
  served : ∀ ch b, s.served ch = some b → ch < s.pubsub.next ∧ (ch ∈ s.pubsub.subscribers ↔ b.handler ≠ .gone)
  registered : ∀ ch ∈ s.pubsub.subscribers, ∃ b, s.served ch = some b
  within : ∀ ch, (s.pubsub.chan ch).buf.length ≤ c₁
  remaining : ∀ op rest, s.emitting = some (op, rest) → rest.Nodup ∧ rest ⊆ s.pubsub.subscribers ∧
    ∀ ch ∈ rest, ∀ b, s.served ch = some b → b.handler = .reading ∨ b.HasRoom c₁ c₂ (s.pubsub.chan ch).buf

/-- In order, a pending `Emit` leaves somebody something to do. -/
theorem Orderly.not_deadlocked (h : Orderly c₁ c₂ s) : ¬ Deadlocked c₁ c₂ s := by
  rintro ⟨hpending, hnone⟩
  obtain ⟨⟨op, rest⟩, hemit⟩ := Option.isSome_iff_exists.1 hpending
  cases rest with
  | nil => have hstep := hnone .unlock; simp [step, hemit] at hstep
  | cons ch rest =>
    obtain ⟨-, hsub, hrooms⟩ := h.remaining op _ hemit
    obtain ⟨b, hb⟩ := h.registered ch (hsub List.mem_cons_self)
    have hopen := h.live.opened ch (hsub List.mem_cons_self)
    rcases hrooms ch List.mem_cons_self b hb with hreading | hroom
    · -- a handler that reads may leave
      have hstep := hnone (.move ch .exit)
      simp [step, hb, Move.apply, hreading] at hstep
    · rcases hroom.progress with hlt | ⟨m, hm⟩ | ⟨hbuf, hpreload, hhand⟩
      · have hstep := hnone .send
        simp [step, hemit, hopen, hlt] at hstep
      · have hstep := hnone (.move ch m)
        obtain ⟨x, hx⟩ := Option.isSome_iff_exists.1 hm
        simp [step, hb, hx] at hstep
      · have hstep := hnone .handOver
        simp [step, hemit, hb, hopen, hbuf, hpreload, hhand] at hstep

/-! ## What an event keeps -/

theorem Orderly.start : Orderly c₁ c₂ (start : Broker V) where
  live := .new
  pending := .new
  served _ _ h := by cases h
  registered _ h := (List.not_mem_nil h).elim
  within _ := Nat.zero_le _
  remaining _ _ h := by cases h

theorem Orderly.subscribed (h : Orderly c₁ c₂ s) (hfree : s.emitting = none) (preload : List (Op V)) :
    Orderly c₁ c₂ { s with
      pubsub := s.pubsub.subscribed
      served := Function.update s.served s.pubsub.next (some ⟨preload, none, [], .reading⟩) } where
  live := h.live.subscribed
  pending := h.pending.subscribed h.live
  served ch b hb := by
    change Function.update s.served s.pubsub.next _ ch = some b at hb
    by_cases hch : ch = s.pubsub.next
    · subst hch
      rw [Function.update_self] at hb
      cases hb
      exact ⟨Nat.lt_succ_self _, (fun _ hgone => by cases hgone), fun _ => List.mem_cons_self⟩
    · rw [Function.update_of_ne hch] at hb
      obtain ⟨hlt, hreg⟩ := h.served ch b hb
      refine ⟨Nat.lt_succ_of_lt hlt, ?_⟩
      rw [← hreg]
      exact ⟨fun hm => (List.mem_cons.1 hm).resolve_left hch, List.mem_cons_of_mem _⟩
  registered ch hch := by
    by_cases hnext : ch = s.pubsub.next
    · subst hnext
      exact ⟨_, Function.update_self ..⟩
    · obtain ⟨b, hb⟩ := h.registered ch ((List.mem_cons.1 hch).resolve_left hnext)
      exact ⟨b, (Function.update_of_ne hnext ..).trans hb⟩
  within ch := by
    change (s.pubsub.subscribed.chan ch).buf.length ≤ c₁
    by_cases hch : ch = s.pubsub.next
    · subst hch
      rw [Pubsub.subscribed_chan_next]
      exact Nat.zero_le _
    · rw [Pubsub.subscribed_chan hch]
      exact h.within ch
  remaining op rest hemit := by rw [hfree] at hemit; cases hemit

/-- An `Emit` begins: the queued channels are closed, and all subscribers are to be sent to. -/
theorem Orderly.emit (h : Orderly c₁ c₂ s) (op : Op V)
    (hroom : ∀ ch ∈ s.pubsub.subscribers, ∀ b ∈ s.served ch, b.handler = .departing →
      b.HasRoom c₁ c₂ (s.pubsub.chan ch).buf) :
    Orderly c₁ c₂ (s.began op) where
  live := by
    refine ⟨h.live.nodup, h.live.lt, fun ch hch => ?_, fun _ _ => List.not_mem_nil,
      fun _ hc => (List.not_mem_nil hc).elim⟩
    show ((s.pubsub.chan ch).closed || decide (ch ∈ s.pubsub.toClose)) = false
    simp [h.live.opened ch hch, h.live.disjoint ch hch]
  pending := ⟨List.nodup_nil, fun _ hc => (List.not_mem_nil hc).elim⟩
  served := h.served
  registered := h.registered
  within := h.within
  remaining op' rest hemit := by
    cases hemit
    refine ⟨h.live.nodup, List.Subset.refl _, fun ch hch b hb => ?_⟩
    cases hhandler : b.handler with
    | reading => exact .inl rfl
    | departing => exact .inr (hroom ch hch b hb hhandler)
    | gone => exact absurd hhandler ((h.served ch b hb).2.1 hch)

/-- A step of one subscription, or of `Emit` with one: nothing else changes. -/
structure Touched (s s' : Broker V) (ch : Nat) (b' : Served V) : Prop where
  subscribers : s'.pubsub.subscribers = s.pubsub.subscribers
  toClose : s'.pubsub.toClose = s.pubsub.toClose
  next : s'.pubsub.next = s.pubsub.next
  closed : ∀ c, (s'.pubsub.chan c).closed = (s.pubsub.chan c).closed
  buf : ∀ c, c ≠ ch → (s'.pubsub.chan c).buf = (s.pubsub.chan c).buf
  served : s'.served = Function.update s.served ch (some b')

theorem Orderly.touched (h : Orderly c₁ c₂ s) {ch : Nat} {b b' : Served V} (hb : s.served ch = some b)
    (ht : Touched s s' ch b') (hgone : b'.handler = .gone ↔ b.handler = .gone)
    (hlen : (s'.pubsub.chan ch).buf.length ≤ c₁)
    (hrest : ∀ op rest, s'.emitting = some (op, rest) → ∃ rest₀, s.emitting = some (op, rest₀) ∧ rest.Sublist rest₀ ∧
      (ch ∈ rest → b'.handler = .reading ∨ b'.HasRoom c₁ c₂ (s'.pubsub.chan ch).buf)) : Orderly c₁ c₂ s' where
  live := by
    refine ⟨ht.subscribers ▸ h.live.nodup, ?_, ?_, ?_, ?_⟩ <;> intro c hc
    · rw [ht.subscribers] at hc; rw [ht.next]; exact h.live.lt c hc
    · rw [ht.subscribers] at hc; rw [ht.closed]; exact h.live.opened c hc
    · rw [ht.subscribers] at hc; rw [ht.toClose]; exact h.live.disjoint c hc
    · rw [ht.toClose] at hc; rw [ht.next]; exact h.live.pending_lt c hc
  pending := by
    refine ⟨ht.toClose ▸ h.pending.nodup, fun c hc => ?_⟩
    rw [ht.toClose] at hc
    rw [ht.closed]
    exact h.pending.opened c hc
  served c x hx := by
    rw [ht.served] at hx
    rw [ht.next, ht.subscribers]
    by_cases hc : c = ch
    · subst hc
      rw [Function.update_self] at hx
      cases hx
      rw [Ne, hgone]
      exact h.served c b hb
    · rw [Function.update_of_ne hc] at hx
      exact h.served c x hx
  registered c hc := by
    rw [ht.subscribers] at hc
    rw [ht.served]
    by_cases hcc : c = ch
    · subst hcc
      exact ⟨b', Function.update_self ..⟩
    · obtain ⟨x, hx⟩ := h.registered c hc
      exact ⟨x, (Function.update_of_ne hcc ..).trans hx⟩
  within c := by
    by_cases hc : c = ch
    · rw [hc]; exact hlen
    · rw [ht.buf c hc]; exact h.within c
  remaining op rest hemit := by
    obtain ⟨rest₀, hemit₀, hsub, hch⟩ := hrest op rest hemit
    obtain ⟨hnodup, hsubs, hrooms⟩ := h.remaining op rest₀ hemit₀
    refine ⟨hnodup.sublist hsub, ht.subscribers ▸ fun c hc => hsubs (hsub.subset hc), fun c hc x hx => ?_⟩
    rw [ht.served] at hx
    by_cases hcc : c = ch
    · subst hcc
      rw [Function.update_self] at hx
      cases hx
      exact hch hc
    · rw [Function.update_of_ne hcc] at hx
      rw [ht.buf c hcc]
      exact hrooms c (hsub.subset hc) x hx

/-- The mutex is free, and a handler that has left is removed. -/
theorem Orderly.closed (h : Orderly c₁ c₂ s) {ch : Nat} {b : Served V} (hb : s.served ch = some b)
    (hdeparting : b.handler = .departing) (hfree : s.emitting = none) :
    Orderly c₁ c₂ { s with
      pubsub := s.pubsub.removeSubscriber ch
      served := Function.update s.served ch (some { b with handler := .gone }) } where
  live := h.live.removeSubscriber (h.served ch b hb).1
  pending := h.pending.removeSubscriber h.live ((h.served ch b hb).2.2 (by rw [hdeparting]; decide))
  served c x hx := by
    change Function.update s.served ch _ c = some x at hx
    by_cases hc : c = ch
    · subst hc
      rw [Function.update_self] at hx
      cases hx
      exact ⟨(h.served c b hb).1, fun hm => absurd rfl (Pubsub.mem_removeSubscriber.1 hm).2, fun hne => absurd rfl hne⟩
    · rw [Function.update_of_ne hc] at hx
      obtain ⟨hlt, hreg⟩ := h.served c x hx
      refine ⟨hlt, ?_⟩
      rw [← hreg]
      exact ⟨fun hm => (Pubsub.mem_removeSubscriber.1 hm).1, fun hm => Pubsub.mem_removeSubscriber.2 ⟨hm, hc⟩⟩
  registered c hc := by
    obtain ⟨hmem, hne⟩ := Pubsub.mem_removeSubscriber.1 hc
    obtain ⟨x, hx⟩ := h.registered c hmem
    exact ⟨x, (Function.update_of_ne hne ..).trans hx⟩
  within := h.within
  remaining op rest hemit := by
    have hnone : s.emitting = some (op, rest) := hemit
    rw [hfree] at hnone
    cases hnone

theorem Orderly.sent (h : Orderly c₁ c₂ s) {op : Op V} {ch : Nat} {rest : List Nat}
    (hemit : s.emitting = some (op, ch :: rest)) (hlt : (s.pubsub.chan ch).buf.length < c₁) :
    Orderly c₁ c₂ { s with pubsub := s.pubsub.sending op [ch], emitting := some (op, rest) } := by
  obtain ⟨hnodup, hsub, -⟩ := h.remaining op _ hemit
  obtain ⟨b, hb⟩ := h.registered ch (hsub List.mem_cons_self)
  refine h.touched hb ⟨rfl, rfl, rfl, fun _ => rfl, fun c hc => ?_, ?_⟩ Iff.rfl ?_ fun op' rest' hemit' => ?_
  · exact if_neg fun hm => hc (List.mem_singleton.1 hm)
  · exact (Function.update_eq_self_iff.2 hb.symm).symm
  · show (if ch ∈ [ch] then (s.pubsub.chan ch).buf ++ [op] else (s.pubsub.chan ch).buf).length ≤ c₁
    rw [if_pos (List.mem_singleton_self ch), List.length_append]
    exact hlt
  · cases hemit'
    exact ⟨_, hemit, List.sublist_cons_self _ _, fun hm => absurd hm (List.nodup_cons.1 hnodup).1⟩

theorem Orderly.handedOver (h : Orderly c₁ c₂ s) {op : Op V} {ch : Nat} {rest : List Nat}
    (hemit : s.emitting = some (op, ch :: rest)) {b : Served V} (hb : s.served ch = some b) :
    Orderly c₁ c₂
      ⟨{ s.pubsub with sent := s.pubsub.sent ++ [(ch, op)] },
        Function.update s.served ch (some { b with hand := some op }), some (op, rest)⟩ := by
  obtain ⟨hnodup, -⟩ := h.remaining op _ hemit
  refine h.touched hb ⟨rfl, rfl, rfl, fun _ => rfl, fun _ _ => rfl, rfl⟩ Iff.rfl (h.within ch)
    fun op' rest' hemit' => ?_
  cases hemit'
  exact ⟨_, hemit, List.sublist_cons_self _ _, fun hm => absurd hm (List.nodup_cons.1 hnodup).1⟩

theorem Orderly.moved (h : Orderly c₁ c₂ s) {ch : Nat} {m : Move} {b b' : Served V} {buf : List (Op V)}
    (hb : s.served ch = some b) (hm : m.apply c₂ (s.pubsub.chan ch).buf b = some (buf, b'))
    (hexit : m = .exit → ∀ x ∈ s.emitting, ch ∈ x.2 → b.HasRoom c₁ c₂ (s.pubsub.chan ch).buf) :
    Orderly c₁ c₂ (s.set ch buf b') := by
  have hkept : m.Kept c₁ c₂ (s.pubsub.chan ch).buf b buf b' := Move.apply_kept hm
  refine h.touched hb ⟨rfl, rfl, rfl, fun c => s.set_closed ch c buf b',
    fun c hc => by simp [set, hc], rfl⟩ hkept.gone ?_ fun op rest hemit => ?_
  · rw [set_buf_self]
    exact hkept.shorter.trans (h.within ch)
  · refine ⟨rest, hemit, List.Sublist.refl _, fun hmem => ?_⟩
    rw [set_buf_self]
    obtain ⟨-, -, hrooms⟩ := h.remaining op rest hemit
    rcases hrooms ch hmem b hb with hreading | hroom
    · by_cases hm' : m = .exit
      · exact .inr (hkept.room (h.within ch) (hexit hm' _ hemit hmem))
      · exact .inl (hkept.reading hm' hreading)
    · exact .inr (hkept.room (h.within ch) hroom)

/-- The step lemma: under the condition, every event keeps the order. -/
theorem Orderly.step {e : BrokerEvent V} (h : Orderly c₁ c₂ s) (he : Roomy c₁ c₂ s e)
    (hs : Broker.step c₁ c₂ s e = some s') : Orderly c₁ c₂ s' := by
  cases e with
  | subscribe preload =>
    simp only [Broker.step] at hs
    split at hs
    · cases hs
    · rename_i hfree
      cases hs
      exact h.subscribed (by simpa using hfree) preload
  | emit op =>
    simp only [Broker.step, Pubsub.forEach_close_ok _ _ h.pending.nodup h.pending.opened] at hs
    split at hs
    · cases hs
    · cases hs
      exact h.emit op he
  | send =>
    simp only [Broker.step] at hs
    split at hs
    · rename_i op ch rest hemit
      split at hs
      · rename_i hroom
        cases hs
        exact h.sent hemit hroom.2
      · cases hs
    · cases hs
  | handOver =>
    simp only [Broker.step] at hs
    split at hs
    · rename_i op ch rest hemit
      obtain ⟨b, hb, hs⟩ := Option.bind_eq_some_iff.1 hs
      split at hs
      · cases hs
        exact h.handedOver hemit hb
      · cases hs
    · cases hs
  | unlock =>
    simp only [Broker.step] at hs
    split at hs
    · cases hs
      exact ⟨h.live, h.pending, h.served, h.registered, h.within, fun _ _ hemit => by cases hemit⟩
    · cases hs
  | move ch m =>
    obtain ⟨b, hb, hs⟩ := Option.bind_eq_some_iff.1 hs
    obtain ⟨⟨buf, b'⟩, hm, rfl⟩ := Option.map_eq_some_iff.1 hs
    refine h.moved hb hm fun hexit x hx hmem => ?_
    subst hexit
    exact he x hx hmem b hb
  | close ch =>
    obtain ⟨b, hb, hs⟩ := Option.bind_eq_some_iff.1 hs
    split at hs
    · rename_i hclose
      cases hs
      exact h.closed hb hclose.1 (by simpa using hclose.2)
    · cases hs

/-! ## An `Emit` without interruption -/

theorem run_sends (op : Op V) : ∀ (ids : List Nat) (s : Broker V), s.emitting = some (op, ids) → ids.Nodup →
    (∀ ch ∈ ids, (s.pubsub.chan ch).closed = false ∧ (s.pubsub.chan ch).buf.length < c₁) →
    (system c₁ c₂).run s (List.replicate ids.length .send) =
      some { s with pubsub := s.pubsub.sending op ids, emitting := some (op, []) }
  | [], s, hemit, _, _ => by
    obtain ⟨p, served, emitting⟩ := s
    obtain rfl : emitting = some (op, []) := hemit
    have hnil : p.sending op [] = p := by simp [Pubsub.sending]
    rw [hnil]
    rfl
  | ch :: ids, s, hemit, hnodup, hroom => by
    obtain ⟨hch, hnodup⟩ := List.nodup_cons.1 hnodup
    have hsend : (system c₁ c₂).step s .send =
        some { s with pubsub := s.pubsub.sending op [ch], emitting := some (op, ids) } := by
      simp [system, step, hemit, hroom ch List.mem_cons_self]
    have hrest : ∀ c ∈ ids, ((s.pubsub.sending op [ch]).chan c).closed = false ∧
        ((s.pubsub.sending op [ch]).chan c).buf.length < c₁ := by
      intro c hc
      have hne : c ≠ ch := fun heq => hch (heq ▸ hc)
      simpa [Pubsub.sending, hne] using hroom c (List.mem_cons_of_mem _ hc)
    have hsending : (s.pubsub.sending op [ch]).sending op ids = s.pubsub.sending op (ch :: ids) :=
      Pubsub.sending_sending _ _ fun c hc => List.mem_singleton.1 hc ▸ hch
    rw [List.length_cons, List.replicate_succ, System.run_cons, hsend, Option.bind_some,
      run_sends op ids _ rfl hnodup hrest]
    simp only [hsending]

/-- With room in every channel an `Emit` can go through at once, and does what the datastore's call does. -/
theorem Orderly.run_emit (h : Orderly c₁ c₂ s) (hfree : s.emitting = none)
    (hroom : ∀ ch ∈ s.pubsub.subscribers, (s.pubsub.chan ch).buf.length < c₁) (op : Op V) :
    (system c₁ c₂).run s ((.emit op :: List.replicate s.pubsub.subscribers.length .send) ++ [.unlock]) =
      some { s with pubsub := s.pubsub.emitted op } := by
  have hemit : (system c₁ c₂).step s (.emit op) = some (s.began op) := by
    simp only [system, Broker.step, hfree, Option.isSome_none, Bool.false_eq_true, if_false,
      Pubsub.forEach_close_ok _ _ h.pending.nodup h.pending.opened]
    rfl
  have hopen : ∀ ch ∈ s.pubsub.subscribers, ((s.pubsub.chan ch).closed || decide (ch ∈ s.pubsub.toClose)) = false :=
    fun ch hch => by
    simp [h.live.opened ch hch, h.live.disjoint ch hch]
  have hsends : (system c₁ c₂).run (s.began op) (List.replicate s.pubsub.subscribers.length .send) = _ :=
    run_sends op s.pubsub.subscribers (s.began op) rfl h.live.nodup fun ch hch => ⟨hopen ch hch, hroom ch hch⟩
  rw [System.run_concat, System.run_cons, hemit, Option.bind_some, hsends, Option.bind_some, hfree]
  rfl

/-- In every run in which handlers leave only subscriptions with room, no state is deadlocked. -/
theorem not_deadlocked_of_roomy (h : (system c₁ c₂).Reach (Roomy c₁ c₂) (start : Broker V) s) : ¬ Deadlocked c₁ c₂ s :=
  (h.invariant .start fun _ _ _ hi he hs => Orderly.step hi he hs).not_deadlocked

/-- A handler leaves while an `Emit` has still to send to it, into a channel that is empty. -/
theorem not_deadlocked_after_exit :
    ∃ s : Broker Unit, (system 1 1).Reach (Roomy 1 1) start s ∧ s.emitting.isSome = true ∧
    ¬ Deadlocked 1 1 s := by
  have hrun : ((system 1 1).run (start : Broker Unit) [.subscribe [],
    .emit ⟨1, .create, Time.zero, ()⟩, .move 0 .exit]).map
      (fun s => s.emitting.isSome) = some true := by decide +kernel
  obtain ⟨s, hs, hemit⟩ := Option.map_eq_some_iff.1 hrun
  have hreach : (system 1 1).Reach (Roomy 1 1) (start : Broker Unit) s := ⟨_, by decide +kernel, hs⟩
  exact ⟨s, hreach, hemit, not_deadlocked_of_roomy hreach⟩

/-! ## The deadlock -/

/-- The state is stuck if `Emit` is in front of a full channel, whose goroutine is busy, and no
subscription can move. -/
theorem deadlocked_of_stuck {op : Op V} {ch : Nat} {rest : List Nat} (hemit : s.emitting = some (op, ch :: rest))
    (hfull : c₁ ≤ (s.pubsub.chan ch).buf.length) (hbusy : ∀ b, s.served ch = some b → b.preload ≠ [])
    (hstuck : ∀ c b, s.served c = some b → ∀ m, Move.apply c₂ (s.pubsub.chan c).buf b m = none) :
    Deadlocked c₁ c₂ s := by
  refine ⟨by rw [hemit]; rfl, fun e => ?_⟩
  cases e with
  | subscribe preload => simp [step, hemit]
  | emit op => simp [step, hemit]
  | send => simp [step, hemit, hfull]
  | handOver =>
    cases hb : s.served ch with
    | none => simp [step, hemit, hb]
    | some b => simp [step, hemit, hb, hbusy b hb]
  | unlock => simp [step, hemit]
  | move c m =>
    cases hb : s.served c with
    | none => simp [step, hb]
    | some b => simp [step, hb, hstuck c b hb m]
  | close c =>
    cases hb : s.served c with
    | none => simp [step, hb]
    | some b => simp [step, hb, hemit]

/-- One subscriber, whose goroutine has put `k` of `c₂ + 1` preloaded operations into the output channel;
`n` operations wait in its live channel. -/
structure Filled (c₂ k n : Nat) (s : Broker V) : Prop where
  free : s.emitting = none
  subscribers : s.pubsub.subscribers = [0]
  toClose : s.pubsub.toClose = []
  opened : (s.pubsub.chan 0).closed = false
  buf : (s.pubsub.chan 0).buf.length = n
  only : ∀ ch, ch ≠ 0 → s.served ch = none
  served : ∃ b, s.served 0 = some b ∧ b.preload.length = c₂ + 1 - k ∧ b.out.length = k ∧ b.handler = .reading

/-- A subscriber that does not read: its output channel fills. -/
theorem exists_filled_out (op : Op V) :
    ∀ k ≤ c₂, ∃ s : Broker V, (system c₁ c₂).Reach (fun _ _ => True) start s ∧ Filled c₂ k 0 s
  | 0, _ => by
    have hstep : (system c₁ c₂).step start (.subscribe (List.replicate (c₂ + 1) op)) = some ⟨Pubsub.new.subscribed,
        Function.update (fun _ => none) 0 (some ⟨List.replicate (c₂ + 1) op, none, [], .reading⟩), none⟩ := rfl
    refine ⟨_, .next ⟨[], trivial, rfl⟩ trivial hstep, rfl, rfl, rfl, rfl, rfl, fun ch hch => ?_,
      ⟨_, rfl, ?_, rfl, rfl⟩⟩
    · show Function.update (fun _ => none) 0 _ ch = none
      rw [Function.update_of_ne hch]
    · rw [List.length_replicate, Nat.sub_zero]
  | k + 1, hk => by
    obtain ⟨s, hs, hf⟩ := exists_filled_out op k (by omega)
    obtain ⟨b, hb, hpreload, hout, hreading⟩ := hf.served
    obtain ⟨op', rest, hcons⟩ := List.exists_cons_of_length_pos (show 0 < b.preload.length by omega)
    have hmove : Move.apply c₂ (s.pubsub.chan 0).buf b .put =
        some ((s.pubsub.chan 0).buf, { b with preload := rest, out := b.out ++ [op'] }) := by
      simp only [Move.apply, Served.next, hcons]
      rw [if_pos (by omega)]
      rfl
    have hstep : (system c₁ c₂).step s (.move 0 .put) =
        some (s.set 0 (s.pubsub.chan 0).buf { b with preload := rest, out := b.out ++ [op'] }) := by
      simp [system, step, hb, hmove]
    rw [hcons, List.length_cons] at hpreload
    refine ⟨_, hs.next trivial hstep, hf.free, hf.subscribers, hf.toClose, ?_, ?_, fun ch hch => ?_, _,
      set_served_self .., ?_, ?_, hreading⟩
    · rw [set_closed]; exact hf.opened
    · rw [set_buf_self]; exact hf.buf
    · rw [set_served_of_ne _ hch]; exact hf.only ch hch
    · show rest.length = c₂ + 1 - (k + 1)
      omega
    · rw [List.length_append, hout, List.length_singleton]

/-- `Emit` gets the mutex and has the one subscriber to send to. -/
theorem Filled.emit_step {k n : Nat} (hf : Filled c₂ k n s) (op : Op V) :
    (system c₁ c₂).step s (.emit op) = some { s with emitting := some (op, [0]) } := by
  obtain ⟨⟨chan, next, subscribers, toClose, sent⟩, served, emitting⟩ := s
  obtain rfl : emitting = none := hf.free
  obtain rfl : subscribers = [0] := hf.subscribers
  obtain rfl : toClose = [] := hf.toClose
  rfl

/-- Then its live channel fills, by one operation from each `Emit`. -/
theorem exists_filled (op : Op V) :
    ∀ n ≤ c₁, ∃ s : Broker V, (system c₁ c₂).Reach (fun _ _ => True) start s ∧ Filled c₂ c₂ n s
  | 0, _ => exists_filled_out op c₂ le_rfl
  | n + 1, hn => by
    obtain ⟨s, hs, hf⟩ := exists_filled op n (by omega)
    have hsend : (system c₁ c₂).step { s with emitting := some (op, [0]) } .send =
        some { s with pubsub := s.pubsub.sending op [0], emitting := some (op, []) } := by
      have hlt : (s.pubsub.chan 0).buf.length < c₁ := by rw [hf.buf]; omega
      simp [system, step, hf.opened, hlt]
    refine ⟨{ s with pubsub := s.pubsub.sending op [0], emitting := none },
      ((hs.next trivial (hf.emit_step op)).next trivial hsend).next trivial (e := .unlock) rfl,
      rfl, hf.subscribers, hf.toClose, hf.opened, ?_, hf.only, hf.served⟩
    show (if 0 ∈ [0] then (s.pubsub.chan 0).buf ++ [op] else (s.pubsub.chan 0).buf).length = n + 1
    rw [if_pos (List.mem_singleton_self 0), List.length_append, hf.buf, List.length_singleton]

/-- Whatever the capacities, a handler that leaves behind full channels stops the datastore. -/
theorem exists_deadlocked (op : Op V) (c₁ c₂ : Nat) :
    ∃ s : Broker V, (system c₁ c₂).Reach (fun _ _ => True) start s ∧ Deadlocked c₁ c₂ s := by
  obtain ⟨s, hs, hf⟩ : ∃ s : Broker V, (system c₁ c₂).Reach (fun _ _ => True) start s ∧ Filled c₂ c₂ c₁ s :=
    exists_filled op c₁ le_rfl
  obtain ⟨b, hb, hpreload, hout, hreading⟩ := hf.served
  have hne : b.preload ≠ [] := List.ne_nil_of_length_pos (by omega)
  have hexit : (system c₁ c₂).step { s with emitting := some (op, [0]) } (.move 0 .exit) =
      some (set { s with emitting := some (op, [0]) } 0 (s.pubsub.chan 0).buf { b with handler := .departing }) := by
    simp [system, step, hb, Move.apply, hreading]
  refine ⟨_, (hs.next trivial (hf.emit_step op)).next trivial hexit,
    deadlocked_of_stuck rfl ?_ (fun b' hb' => ?_) fun c b' hb' m => ?_⟩
  · rw [set_buf_self]; exact hf.buf.ge
  · rw [set_served_self] at hb'
    cases hb'
    exact hne
  · by_cases hc : c = 0
    · subst hc
      rw [set_served_self] at hb'
      cases hb'
      cases m <;> simp [Move.apply, hne, hout]
    · rw [set_served_of_ne _ hc] at hb'
      rw [show s.served c = none from hf.only c hc] at hb'
      cases hb'

/-- A handler that leaves at the wrong moment stops every other party. -/
theorem exit_stops_all : ¬ ∀ (c₁ c₂ : Nat) (s : Broker Unit), (system c₁ c₂).Reach (fun _ _ => True) start s →
    ¬ Deadlocked c₁ c₂ s := by
  intro h
  obtain ⟨s, hs, hdead⟩ := exists_deadlocked (⟨1, .create, Time.zero, ()⟩ : Op Unit) chanBufSize chanBufSize
  exact h chanBufSize chanBufSize s hs hdead

end Broker

end Wig.Crudlog
