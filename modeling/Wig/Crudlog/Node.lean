/-
A datastore with its subscribers, as a system that takes one event after another. An `Apply` is several
of them: its writes, one send of `Emit` for each subscriber, and at last the commit. It holds the
datastore's lock meanwhile, so that other calls wait, but the `Notify` goroutine of each subscription and
its reader go on; and it stays where it is while the next subscriber's channel is full. `LoadSnapshot` and
`Subscribe` are one event each. A call that waits for the lock has not happened yet.
-/
import Wig.Crudlog.Calls
import Wig.Lib.System

namespace Wig.Crudlog

open Wig.Lib Wig.Crud

variable {T V : Type}

/-- A subscription after `Notify`: what its goroutine has still to forward (the rest of the preload,
and an operation taken off the live channel), what waits in the output channel, and what was read. -/
structure Subscriber (V : Type) where
  start : Nat
  preload : List (Op V)
  hand : Option (Op V)
  out : List (Op V)
  read : List (Op V)
  closed : Bool

/-- An `Apply` between its writes and its commit: the operation with its number, the database as the
transaction has written it, the channels that were sent the operation and those still to be. -/
structure Emission (T V : Type) where
  op : Op V
  db : Database T
  reached : List Nat
  unsent : List Nat

/-- `store` has the database as it is committed, and `subs` the subscription of each channel that has one. -/
structure Node (T V : Type) where
  store : Datastore T V
  subs : Nat → Option (Subscriber V)
  emission : Option (Emission T V)
  crashed : Bool

inductive Event (V : Type) where
  /-- `Apply`, up to the sends of `Emit`. -/
  | apply (op : Op V) (fromLog : Bool)
  /-- `Emit` sends to the next subscriber. -/
  | send
  /-- The transaction of the `Apply` ends; `ok` tells whether its commit succeeds. -/
  | commit (ok : Bool)
  | loadSnapshot (snap : Snapshot V) (commit : Bool)
  | subscribe (start : Nat) (commit : Bool)
  | forward (ch : Nat)
  | read (ch : Nat)
  | close (ch : Nat)

namespace Node

def start (s : Datastore T V) : Node T V := ⟨s, fun _ => none, none, false⟩

def setSub (n : Node T V) (ch : Nat) (b : Subscriber V) : Node T V :=
  { n with subs := Function.update n.subs ch (some b) }

def setPubsub (n : Node T V) (p : Pubsub V) : Node T V := { n with store := { n.store with pubsub := p } }

/-- The node after a call that returned or ended the process. -/
def returned {α : Type} (n : Node T V) (ok : α → Node T V → Node T V) : Outcome Error α × Datastore T V →
    Option (Node T V)
  | (.ok a, s) => some (ok a { n with store := s })
  | (.err _, s) => some { n with store := s }
  | (.crash, s) => some { n with store := s, crashed := true }
  | (.block, _) => none

/-- One move of the `Notify` goroutine. -/
def forward (n : Node T V) (ch : Nat) (b : Subscriber V) : Option (Node T V) :=
  match b.preload, b.hand, (n.store.pubsub.chan ch).buf with
  | op :: preload, _, _ =>
    if b.out.length < chanBufSize then some (n.setSub ch { b with preload := preload, out := b.out ++ [op] }) else none
  | [], some op, _ =>
    if b.out.length < chanBufSize then some (n.setSub ch { b with hand := none, out := b.out ++ [op] }) else none
  | [], none, op :: buf =>
    let p := n.store.pubsub
    some ((n.setPubsub { p with chan := Function.update p.chan ch { p.chan ch with buf := buf } }).setSub ch
      { b with hand := some op })
  | [], none, [] => none

def read (n : Node T V) (ch : Nat) (b : Subscriber V) : Option (Node T V) :=
  match b.out with
  | op :: out => some (n.setSub ch { b with out := out, read := b.read ++ [op] })
  | [] => none

def close (n : Node T V) (ch : Nat) (b : Subscriber V) : Node T V :=
  (n.setPubsub (n.store.pubsub.removeSubscriber ch)).setSub ch { b with closed := true }

/-- `Emit` holds the mutex of the pubsub until its last send. -/
def mutexFree (n : Node T V) : Bool := n.emission.all fun m => m.unsent.isEmpty

def send (n : Node T V) (m : Emission T V) : Option (Node T V) :=
  match m.unsent with
  | [] => none
  | ch :: unsent =>
    match Pubsub.send m.op ch n.store.pubsub with
    | (.ok _, p) =>
      some { n.setPubsub p with emission := some { m with reached := m.reached ++ [ch], unsent := unsent } }
    | (.err _, _) => none
    | (.crash, p) => some { n.setPubsub p with crashed := true }
    | (.block, _) => none

/-- A commit that fails rolls the writes back. -/
def commit (n : Node T V) (m : Emission T V) (ok : Bool) : Option (Node T V) :=
  if m.unsent.isEmpty then
    some { n with store := { n.store with db := if ok then m.db else n.store.db }, emission := none }
  else none

variable (crud : CRUD T V) (enc : Encoding V)

/-- The writes are not seen by others before the commit. -/
def apply (n : Node T V) (op : Op V) (fromLog : Bool) : Option (Node T V) :=
  match Datastore.applyWrites crud enc op fromLog n.store with
  | (.ok _, s) => some { n with
      store := { s with db := n.store.db }
      emission := some ⟨op.assign fromLog n.store.db, s.db, [], s.pubsub.subscribers⟩ }
  | (.err _, s) => some { n with store := { s with db := n.store.db } }
  | (.crash, s) => some { n with store := { s with db := n.store.db }, crashed := true }
  | (.block, _) => none

def step (n : Node T V) (e : Event V) : Option (Node T V) :=
  if n.crashed then none
  else match e, n.emission with
    | .apply op fromLog, none => n.apply crud enc op fromLog
    | .send, some m => n.send m
    | .commit ok, some m => n.commit m ok
    | .loadSnapshot snap commit, none => n.returned (fun _ n => n) (Datastore.loadSnapshot crud snap commit n.store)
    | .subscribe start commit, none =>
      n.returned (fun sub n => n.setSub sub.ch ⟨start, sub.preload, none, [], [], false⟩)
        (Datastore.subscribe enc start commit n.store)
    | .forward ch, _ => (n.subs ch).bind (n.forward ch)
    | .read ch, _ => (n.subs ch).bind (n.read ch)
    | .close ch, _ => if n.mutexFree then (n.subs ch).map (n.close ch) else none
    | _, _ => none

def system : System (Node T V) (Event V) := ⟨step crud enc⟩

/-! ## What an event does -/

variable {crud enc}

theorem step_read {n : Node T V} (h : n.crashed = false) (ch : Nat) :
    step crud enc n (.read ch) = (n.subs ch).bind (n.read ch) := by
  unfold step
  rw [h, if_neg Bool.false_ne_true]

/-- The goroutine forwards the first operation of the preload to a reader who is not behind. -/
theorem step_forward_preload {n : Node T V} (h : n.crashed = false) {ch : Nat} {b : Subscriber V}
    (hb : n.subs ch = some b) {op : Op V} {preload : List (Op V)} (hpre : b.preload = op :: preload)
    (hout : b.out = []) :
    step crud enc n (.forward ch) = some (n.setSub ch { b with preload := preload, out := [op] }) := by
  unfold step
  rw [h, if_neg Bool.false_ne_true]
  show (n.subs ch).bind _ = _
  rw [hb, Option.bind_some]
  unfold forward
  rw [hpre, hout]
  rfl

theorem step_read_out {n : Node T V} (h : n.crashed = false) {ch : Nat} {b : Subscriber V}
    (hb : n.subs ch = some b) {op : Op V} {out : List (Op V)} (hout : b.out = op :: out) :
    step crud enc n (.read ch) = some (n.setSub ch { b with out := out, read := b.read ++ [op] }) := by
  rw [step_read h, hb, Option.bind_some]
  unfold read
  rw [hout]

theorem step_subscribe {n : Node T V} (h : n.crashed = false) (hm : n.emission = none) (start : Nat) (commit : Bool) :
    step crud enc n (.subscribe start commit) =
      n.returned (fun sub n => n.setSub sub.ch ⟨start, sub.preload, none, [], [], false⟩)
        (Datastore.subscribe enc start commit n.store) := by
  unfold step
  rw [h, if_neg Bool.false_ne_true, hm]

/-- While an `Apply` is in progress, a subscription waits for the lock. -/
theorem step_subscribe_some {n n' : Node T V} {start : Nat} {commit : Bool}
    (h : step crud enc n (.subscribe start commit) = some n') : n.crashed = false ∧ n.emission = none := by
  unfold step at h
  cases hc : n.crashed with
  | true => rw [hc, if_pos rfl] at h; cases h
  | false =>
    rw [hc, if_neg Bool.false_ne_true] at h
    cases hm : n.emission with
    | none => exact ⟨rfl, rfl⟩
    | some m => rw [hm] at h; cases h

/-- The operations on their way to the reader of a subscription. -/
def pending (n : Node T V) (ch : Nat) (b : Subscriber V) : List (Op V) :=
  b.out ++ (b.preload ++ (b.hand.toList ++ (n.store.pubsub.chan ch).buf))

/-- A move of a subscription changes its own state and its channel's buffer. -/
structure Moved (n n' : Node T V) (ch : Nat) (b b' : Subscriber V) : Prop where
  subs : n'.subs = Function.update n.subs ch (some b')
  db : n'.store.db = n.store.db
  subscribers : n'.store.pubsub.subscribers = n.store.pubsub.subscribers
  toClose : n'.store.pubsub.toClose = n.store.pubsub.toClose
  next : n'.store.pubsub.next = n.store.pubsub.next
  sent : n'.store.pubsub.sent = n.store.pubsub.sent
  closed_eq : ∀ c, (n'.store.pubsub.chan c).closed = (n.store.pubsub.chan c).closed
  buf_eq : ∀ c, c ≠ ch → (n'.store.pubsub.chan c).buf = (n.store.pubsub.chan c).buf
  emission : n'.emission = n.emission
  crashed : n'.crashed = n.crashed
  start : b'.start = b.start
  closed : b'.closed = b.closed
  stream : b'.read ++ n'.pending ch b' = b.read ++ n.pending ch b

theorem forward_moved {n n' : Node T V} {ch : Nat} {b : Subscriber V} (h : n.forward ch b = some n') :
    ∃ b', Moved n n' ch b b' ∧ b'.read = b.read := by
  unfold forward at h
  split at h
  · rename_i op preload hp
    split at h
    · cases h
      refine ⟨_, ⟨rfl, rfl, rfl, rfl, rfl, rfl, fun _ => rfl, fun _ _ => rfl, rfl, rfl, rfl, rfl, ?_⟩, rfl⟩
      simp [pending, setSub, hp]
    · cases h
  · rename_i op hp hh
    split at h
    · cases h
      refine ⟨_, ⟨rfl, rfl, rfl, rfl, rfl, rfl, fun _ => rfl, fun _ _ => rfl, rfl, rfl, rfl, rfl, ?_⟩, rfl⟩
      simp [pending, setSub, hp, hh]
    · cases h
  · rename_i op buf hp hh hb
    cases h
    refine ⟨_, ⟨rfl, rfl, rfl, rfl, rfl, rfl, ?_, ?_, rfl, rfl, rfl, rfl, ?_⟩, rfl⟩
    · intro c
      by_cases hc : c = ch
      · subst hc; simp [setPubsub, setSub]
      · simp [setPubsub, setSub, hc]
    · intro c hc; simp [setPubsub, setSub, hc]
    · simp [pending, setPubsub, setSub, hp, hh, hb]
  · cases h

theorem read_moved {n n' : Node T V} {ch : Nat} {b : Subscriber V} (h : n.read ch b = some n') :
    ∃ b' op, Moved n n' ch b b' ∧ b'.read = b.read ++ [op] := by
  unfold read at h
  split at h
  · rename_i op out ho
    cases h
    refine ⟨_, op, ⟨rfl, rfl, rfl, rfl, rfl, rfl, fun _ => rfl, fun _ _ => rfl, rfl, rfl, rfl, rfl, ?_⟩, rfl⟩
    simp [pending, setSub, ho]
  · cases h

/-- The channels that `Emit` has still to send to are subscribed ones. -/
def Unsent (n : Node T V) : Prop :=
  ∀ m, n.emission = some m → m.unsent.Nodup ∧ ∀ ch ∈ m.unsent, ch ∈ n.store.pubsub.subscribers

/-- Everything an event can do to a node whose live channels are in order. -/
inductive Stepped (crud : CRUD T V) (enc : Encoding V) (n : Node T V) : Event V → Node T V → Prop where
  /-- A call failed and changed nothing. -/
  | unchanged (e : Event V) : Stepped crud enc n e n
  /-- A call ended the process. -/
  | crashed (e : Event V) (p : Pubsub V) (hm : n.emission = none) (h : p.sent = n.store.pubsub.sent)
      (hw : (∃ snap commit, e = .loadSnapshot snap commit) ∨ ∃ op fromLog, e = .apply op fromLog ∧
        ((Database.record crud enc (op.assign fromLog n.store.db) n.store.db).1 = .crash ∨
          (Pubsub.closeRemoved n.store.pubsub).1 = .crash)) :
      Stepped crud enc n e { n with store := ⟨n.store.db, p⟩, crashed := true }
  | written (op : Op V) (fromLog : Bool) (row : OpSerialized) (d' : Database T) (hm : n.emission = none)
      (h : Database.Recorded crud enc (op.assign fromLog n.store.db) row n.store.db d') :
      Stepped crud enc n (.apply op fromLog)
        { n with
          store := ⟨n.store.db, n.store.pubsub.cleared⟩
          emission := some ⟨op.assign fromLog n.store.db, d', [], n.store.pubsub.subscribers⟩ }
  | sent (m : Emission T V) (ch : Nat) (unsent : List Nat) (hm : n.emission = some m) (hu : m.unsent = ch :: unsent) :
      Stepped crud enc n .send
        { n with
          store := ⟨n.store.db, n.store.pubsub.sending m.op [ch]⟩
          emission := some { m with reached := m.reached ++ [ch], unsent := unsent } }
  | committed (m : Emission T V) (hm : n.emission = some m) (hu : m.unsent = []) :
      Stepped crud enc n (.commit true) { n with store := ⟨m.db, n.store.pubsub⟩, emission := none }
  /-- The commit fails after the operation has gone out. -/
  | lost (m : Emission T V) (hm : n.emission = some m) (hu : m.unsent = []) :
      Stepped crud enc n (.commit false) { n with emission := none }
  | loaded (snap : Snapshot V) (commit : Bool) (d' : Database T) (hm : n.emission = none) (hl : d'.log = n.store.db.log)
      (hs : d'.sequence = snap.seq) :
      Stepped crud enc n (.loadSnapshot snap commit) { n with store := ⟨d', n.store.pubsub⟩ }
  | subscribed (start : Nat) (preload : List (Op V)) (hm : n.emission = none) (h : start ≤ n.store.db.sequence + 1)
      (hq : n.store.db.queryLogSince enc start = .ok preload) :
      Stepped crud enc n (.subscribe start true)
        ((n.setPubsub n.store.pubsub.subscribed).setSub n.store.pubsub.next ⟨start, preload, none, [], [], false⟩)
  | leaked (start : Nat) (hm : n.emission = none) :
      Stepped crud enc n (.subscribe start false) (n.setPubsub n.store.pubsub.subscribed)
  | moved (e : Event V) (n' : Node T V) (ch : Nat) (b b' : Subscriber V) (hb : n.subs ch = some b)
      (h : Moved n n' ch b b') (hr : b'.read = b.read ∨ e = .read ch) (he : e = .forward ch ∨ e = .read ch) :
      Stepped crud enc n e n'
  | closed (ch : Nat) (b : Subscriber V) (hb : n.subs ch = some b) (hu : ∀ m, n.emission = some m → m.unsent = []) :
      Stepped crud enc n (.close ch) (n.close ch b)

theorem apply_stepped {n n' : Node T V} (hm : n.emission = none) {op : Op V} {fromLog : Bool}
    (h : n.apply crud enc op fromLog = some n') : Stepped crud enc n (.apply op fromLog) n' := by
  unfold apply at h
  have hc := Datastore.applyWrites_cases crud enc op fromLog n.store
  revert h hc
  generalize Datastore.applyWrites crud enc op fromLog n.store = r
  intro h hc
  cases hc with
  | rejected e d' he => cases h; exact .unchanged _
  | crashed d' p hs hw => cases h; exact .crashed _ p hm hs (.inr ⟨op, fromLog, rfl, hw⟩)
  | blocked s' hw => cases h
  | written row d' hr => cases h; exact .written op fromLog row d' hm hr

/-- A send goes to an open channel, if the channels still to be sent to are subscribed. -/
theorem send_stepped {n n' : Node T V} (hp : n.store.pubsub.Live) (hu : n.Unsent) {m : Emission T V}
    (hm : n.emission = some m) (h : n.send m = some n') : Stepped crud enc n .send n' := by
  unfold send at h
  split at h
  · cases h
  · rename_i ch unsent hch
    have hsub := (hu m hm).2 ch (by rw [hch]; exact List.mem_cons_self)
    rcases Pubsub.send_cases m.op ch n.store.pubsub (hp.opened ch hsub) with hs | hs
    -- a full channel: `Emit` waits
    · rw [hs] at h; cases h
    · rw [hs] at h; cases h; exact .sent m ch unsent hm hch

theorem commit_stepped {n n' : Node T V} {m : Emission T V} (hm : n.emission = some m) {ok : Bool}
    (h : n.commit m ok = some n') : Stepped crud enc n (.commit ok) n' := by
  unfold commit at h
  split at h
  · rename_i hu
    have hu : m.unsent = [] := List.isEmpty_iff.1 hu
    cases h
    cases ok with
    | true => exact .committed m hm hu
    | false => exact .lost m hm hu
  · cases h

theorem step_cases {n n' : Node T V} {e : Event V} (hp : n.store.pubsub.Live) (hu : n.Unsent)
    (h : step crud enc n e = some n') : n.crashed = false ∧ Stepped crud enc n e n' := by
  unfold step at h
  cases hcr : n.crashed with
  | true => rw [hcr, if_pos rfl] at h; cases h
  | false =>
    rw [hcr, if_neg Bool.false_ne_true] at h
    refine ⟨rfl, ?_⟩
    split at h
    · rename_i op fromLog hm
      exact apply_stepped hm h
    · rename_i m hm
      exact send_stepped hp hu hm h
    · rename_i ok m hm
      exact commit_stepped hm h
    · rename_i snap commit hm
      have hc := Datastore.loadSnapshot_cases crud snap commit n.store
      revert h hc
      generalize Datastore.loadSnapshot crud snap commit n.store = r
      intro h hc
      cases hc with
      | failed e => cases h; exact .unchanged _
      | crashed => cases h; exact .crashed _ n.store.pubsub hm rfl (.inl ⟨snap, commit, rfl⟩)
      | blocked s' => cases h
      | committed d' hl hs => cases h; exact .loaded snap commit d' hm hl hs
    · rename_i start commit hm
      have hc := Datastore.subscribe_cases enc start commit n.store
      revert h hc
      generalize Datastore.subscribe enc start commit n.store = r
      intro h hc
      cases hc with
      | horizon hs => cases h; exact .unchanged _
      | rejected e hs hq => cases h; exact .unchanged _
      | accepted preload hs hq hc => cases h; subst hc; exact .subscribed start preload hm hs hq
      | leaked preload hs hq hc => cases h; subst hc; exact .leaked start hm
    · rename_i ch
      obtain ⟨b, hb, h⟩ := Option.bind_eq_some_iff.1 h
      obtain ⟨b', hmv, hr⟩ := forward_moved h
      exact .moved _ n' ch b b' hb hmv (.inl hr) (.inl rfl)
    · rename_i ch
      obtain ⟨b, hb, h⟩ := Option.bind_eq_some_iff.1 h
      obtain ⟨b', op, hmv, -⟩ := read_moved h
      exact .moved _ n' ch b b' hb hmv (.inr rfl) (.inr rfl)
    · rename_i ch
      split at h
      · rename_i hfree
        obtain ⟨b, hb, rfl⟩ := Option.map_eq_some_iff.1 h
        refine .closed ch b hb fun m hm => ?_
        rw [mutexFree, hm, Option.all_some] at hfree
        exact List.isEmpty_iff.1 hfree
      · cases h
    · cases h

/-! ## The channels of a node -/

theorem Moved.live {n n' : Node T V} {ch : Nat} {b b' : Subscriber V} (h : Moved n n' ch b b')
    (hl : n.store.pubsub.Live) : n'.store.pubsub.Live := by
  obtain ⟨h1, h2, h3, h4, h5⟩ := hl
  refine ⟨?_, ?_, ?_, ?_, ?_⟩
  · rw [h.subscribers]; exact h1
  · rw [h.subscribers, h.next]; exact h2
  · intro c hc; rw [h.closed_eq]; exact h3 c (h.subscribers ▸ hc)
  · rw [h.subscribers, h.toClose]; exact h4
  · rw [h.toClose, h.next]; exact h5

theorem unsent_of_none {n : Node T V} (h : n.emission = none) : n.Unsent := by
  intro m hm
  rw [h] at hm
  cases hm

theorem Stepped.unsent {n n' : Node T V} {e : Event V} (hst : Stepped crud enc n e n') (hp : n.store.pubsub.Live)
    (hu : n.Unsent) : n'.Unsent := by
  cases hst with
  | unchanged => exact hu
  | crashed e p hm hp hw => exact unsent_of_none hm
  | written op fromLog row d' hm hr =>
    intro m hm'
    cases hm'
    exact ⟨hp.nodup, fun ch hch => hch⟩
  | sent m ch unsent hm hch =>
    obtain ⟨hnd, hsub⟩ := hu m hm
    rw [hch] at hnd hsub
    intro m' hm'
    cases hm'
    exact ⟨(List.nodup_cons.1 hnd).2, fun c hc => hsub c (List.mem_cons_of_mem _ hc)⟩
  | committed m hm hu' => exact unsent_of_none rfl
  | lost m hm hu' => exact unsent_of_none rfl
  | loaded snap commit d' hm hl hq => exact unsent_of_none hm
  | subscribed start preload hm hle hq => exact unsent_of_none hm
  | leaked start hm => exact unsent_of_none hm
  | moved e n' ch b b' hb hmv hr =>
    intro m hm
    rw [hmv.subscribers]
    exact hu m (hmv.emission ▸ hm)
  | closed ch b hb hdone =>
    intro m hm
    rw [hdone m hm]
    exact ⟨List.nodup_nil, fun c hc => (List.not_mem_nil hc).elim⟩

/-- While the process runs, its channels are in order, and every subscription has its own. -/
structure Ordered (n : Node T V) : Prop where
  live : n.crashed = false → n.store.pubsub.Live
  unsent : n.crashed = false → n.Unsent
  lt : n.crashed = false → ∀ ch b, n.subs ch = some b → ch < n.store.pubsub.next

theorem Ordered.start (d : Database T) : (Node.start (Datastore.wrap d) : Node T V).Ordered :=
  ⟨fun _ => .new, fun _ => unsent_of_none rfl, fun _ _ _ h => (by cases h)⟩

/-- An event happens to a running process, in one of the ways of `Stepped`. -/
theorem Ordered.cases {n n' : Node T V} {e : Event V} (h : n.Ordered) (hs : Node.step crud enc n e = some n') :
    n.crashed = false ∧ Stepped crud enc n e n' := by
  cases hc : n.crashed with
  | true => unfold Node.step at hs; rw [hc, if_pos rfl] at hs; cases hs
  | false => exact hc ▸ step_cases (h.live hc) (h.unsent hc) hs

theorem Ordered.step {n n' : Node T V} {e : Event V} (h : n.Ordered) (hs : Node.step crud enc n e = some n') :
    n'.Ordered := by
  obtain ⟨halive, hst⟩ := h.cases hs
  have hlive := h.live halive
  have hlt := h.lt halive
  have hunsent := hst.unsent hlive (h.unsent halive)
  cases hst with
  | unchanged => exact h
  | crashed e p hm hp hw => exact ⟨fun hf => (by cases hf), fun hf => (by cases hf), fun hf => (by cases hf)⟩
  | written op fromLog row d' hm hr => exact ⟨fun _ => hlive.cleared, fun _ => hunsent, fun _ => hlt⟩
  | sent m ch unsent hm hu => exact ⟨fun _ => hlive.sending _ _, fun _ => hunsent, fun _ => hlt⟩
  | committed m hm hu => exact ⟨fun _ => hlive, fun _ => hunsent, fun _ => hlt⟩
  | lost m hm hu => exact ⟨fun _ => hlive, fun _ => hunsent, fun _ => hlt⟩
  | loaded snap commit d' hm hl hq => exact ⟨fun _ => hlive, fun _ => hunsent, fun _ => hlt⟩
  | subscribed start preload hm hle hq =>
    refine ⟨fun _ => hlive.subscribed, fun _ => hunsent, ?_⟩
    intro _ ch b hb
    by_cases hch : ch = n.store.pubsub.next
    -- the new channel takes the next number, and every other one is below it already
    · subst hch; exact Nat.lt_succ_self _
    · exact Nat.lt_succ_of_lt (hlt ch b (by simpa [setSub, setPubsub, hch] using hb))
  | leaked start hm =>
    exact ⟨fun _ => hlive.subscribed, fun _ => hunsent, fun _ ch b hb => Nat.lt_succ_of_lt (hlt ch b hb)⟩
  | moved e n' ch b b' hb hm hr =>
    refine ⟨fun _ => hm.live hlive, fun _ => hunsent, ?_⟩
    intro _ c x hx
    rw [hm.next]
    rw [hm.subs] at hx
    by_cases hc : c = ch
    · subst hc; exact hlt c b hb
    · rw [Function.update_of_ne hc] at hx; exact hlt c x hx
  | closed ch b hb hu =>
    refine ⟨fun _ => hlive.removeSubscriber (hlt ch b hb), fun _ => hunsent, ?_⟩
    intro _ c x hx
    by_cases hc : c = ch
    · subst hc; exact hlt c b hb
    · exact hlt c x (by simpa [Node.close, setSub, setPubsub, hc] using hx)

/-- An event other than its reader's leaves a subscription its start and what was read. -/
theorem Ordered.step_sub {n n' : Node T V} {e : Event V} (h : n.Ordered)
    (hs : Node.step crud enc n e = some n') {ch : Nat}
    {b : Subscriber V} (hb : n.subs ch = some b) (hne : e ≠ .read ch) :
    ∃ b', n'.subs ch = some b' ∧ b'.start = b.start ∧ b'.read = b.read := by
  obtain ⟨halive, hst⟩ := h.cases hs
  have hlt := h.lt halive ch b hb
  cases hst with
  | subscribed start preload hm hle hq =>
    exact ⟨b, by simpa [setSub, setPubsub, Nat.ne_of_lt hlt] using hb, rfl, rfl⟩
  | moved e n' c x x' hx hm hr =>
    by_cases hc : ch = c
    · subst hc
      rw [hx, Option.some.injEq] at hb
      subst hb
      exact ⟨x', by rw [hm.subs, Function.update_self], hm.start, hr.resolve_right hne⟩
    · exact ⟨b, by rw [hm.subs, Function.update_of_ne hc]; exact hb, rfl, rfl⟩
  | closed c x hx hu =>
    by_cases hc : ch = c
    · subst hc
      rw [hx, Option.some.injEq] at hb
      subst hb
      exact ⟨{ x with closed := true }, by simp [Node.close, setSub], rfl, rfl⟩
    · exact ⟨b, by simpa [Node.close, setSub, setPubsub, hc] using hb, rfl, rfl⟩
  | _ => exact ⟨b, hb, rfl, rfl⟩

/-! ## The database and what is written to it -/

/-- The database with the writes of the `Apply` in progress, if there is one. -/
def ahead (n : Node T V) : Database T := (n.emission.map Emission.db).getD n.store.db

/-- The database as a channel has been told of it: the operation of the `Apply` in progress counts
once it has been sent there. -/
def told (n : Node T V) (ch : Nat) : Database T :=
  (n.emission.map fun m => if ch ∈ m.unsent then n.store.db else m.db).getD n.store.db

theorem ahead_of_none {n : Node T V} (h : n.emission = none) : n.ahead = n.store.db := by
  unfold ahead
  rw [h]
  rfl

theorem ahead_of_some {n : Node T V} {m : Emission T V} (h : n.emission = some m) : n.ahead = m.db := by
  unfold ahead
  rw [h]
  rfl

theorem told_of_none {n : Node T V} (h : n.emission = none) (ch : Nat) : n.told ch = n.store.db := by
  unfold told
  rw [h]
  rfl

theorem told_of_some {n : Node T V} {m : Emission T V} (h : n.emission = some m) (ch : Nat) :
    n.told ch = if ch ∈ m.unsent then n.store.db else m.db := by
  unfold told
  rw [h]
  rfl

@[simp] theorem told_setSub (n : Node T V) (ch c : Nat) (b : Subscriber V) : (n.setSub ch b).told c = n.told c := rfl

@[simp] theorem told_setPubsub (n : Node T V) (p : Pubsub V) (c : Nat) : (n.setPubsub p).told c = n.told c := rfl

theorem Moved.ahead {n n' : Node T V} {ch : Nat} {b b' : Subscriber V} (h : Moved n n' ch b b') :
    n'.ahead = n.ahead := by
  unfold Node.ahead
  rw [h.emission, h.db]

theorem Moved.told {n n' : Node T V} {ch : Nat} {b b' : Subscriber V} (h : Moved n n' ch b b') (c : Nat) :
    n'.told c = n.told c := by
  unfold Node.told
  rw [h.emission, h.db]

/-- What the `Apply` in progress has written is its operation, recorded. -/
def Writing (crud : CRUD T V) (enc : Encoding V) (n : Node T V) : Prop :=
  ∀ m, n.emission = some m → ∃ row, Database.Recorded crud enc m.op row n.store.db m.db

theorem writing_of_none {n : Node T V} (h : n.emission = none) : n.Writing crud enc := by
  intro m hm
  rw [h] at hm
  cases hm

theorem Stepped.writing {n n' : Node T V} {e : Event V} (hst : Stepped crud enc n e n') (h : n.Writing crud enc) :
    n'.Writing crud enc := by
  cases hst with
  | unchanged => exact h
  | crashed e p hm hp hw => exact writing_of_none hm
  | written op fromLog row d' hm hr =>
    intro m hm'
    cases hm'
    exact ⟨row, hr⟩
  | sent m ch unsent hm hu =>
    intro m' hm'
    cases hm'
    exact h m hm
  | committed m hm hu => exact writing_of_none rfl
  | lost m hm hu => exact writing_of_none rfl
  | loaded snap commit d' hm hl hq => exact writing_of_none hm
  | subscribed start preload hm hle hq => exact writing_of_none hm
  | leaked start hm => exact writing_of_none hm
  | moved e n' ch b b' hb hm hr =>
    intro m hm'
    rw [hm.db]
    exact h m (hm.emission ▸ hm')
  | closed ch b hb hu => exact h

end Node

end Wig.Crudlog
