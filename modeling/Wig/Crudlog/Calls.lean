/-
What the calls on a datastore come to, each said once: the cases of `Apply` and of its first part, of
`Subscribe` and of `LoadSnapshot`, with the state each leaves behind. And the law that ties an encoding
to a CRUD: a value read back from its encoding encodes the same and is treated the same.
-/
import Wig.Crudlog.Datastore

namespace Wig.Crudlog

open Wig.Lib Wig.Crud

variable {T V : Type} {crud : CRUD T V} {enc : Encoding V}

/-! ## Transactions -/

namespace Datastore

theorem withTransaction_ok {α : Type} {f : Proc (Datastore T V) Error α} {commit : Bool} {s s' : Datastore T V} {a : α}
    (h : f s = (.ok a, s')) : withTransaction commit f s =
      if commit then (.ok a, s') else (.err .commit, { s' with db := s.db }) := by
  unfold withTransaction; rw [h]

theorem withTransaction_err {α : Type} {f : Proc (Datastore T V) Error α} {commit : Bool} {s s' : Datastore T V}
    {e : Error} (h : f s = (.err e, s')) : withTransaction commit f s = (.err e, { s' with db := s.db }) := by
  unfold withTransaction; rw [h]

theorem withTransaction_crash {α : Type} {f : Proc (Datastore T V) Error α} {commit : Bool} {s s' : Datastore T V}
    (h : f s = (.crash, s')) : withTransaction commit f s = (.crash, { s' with db := s.db }) := by
  unfold withTransaction; rw [h]

theorem withTransaction_block {α : Type} {f : Proc (Datastore T V) Error α} {commit : Bool} {s s' : Datastore T V}
    (h : f s = (.block, s')) : withTransaction commit f s = (.block, s') := by
  unfold withTransaction; rw [h]

/-! ## Apply -/

/-- The ways `Apply` of an operation, its number assigned, ends. -/
inductive Applied (crud : CRUD T V) (enc : Encoding V) (op : Op V) (commit : Bool) (s : Datastore T V) :
    Outcome Error Unit × Datastore T V → Prop where
  /-- A write fails. -/
  | rejected (e : Error) (h : (Database.record crud enc op s.db).1 = .err e) : Applied crud enc op commit s (.err e, s)
  /-- A write, or closing a channel again, ends the process. -/
  | crashed (p : Pubsub V) (h : p.sent = s.pubsub.sent)
      (hw : (Database.record crud enc op s.db).1 = .crash ∨ (Pubsub.emit op s.pubsub).1 = .crash) :
      Applied crud enc op commit s (.crash, ⟨s.db, p⟩)
  /-- A write, or a full channel, makes it wait. -/
  | blocked (s' : Datastore T V)
      (hw : (Database.record crud enc op s.db).1 = .block ∨ (Pubsub.emit op s.pubsub).1 = .block) :
      Applied crud enc op commit s (.block, s')
  /-- The transaction commits. -/
  | committed (row : OpSerialized) (d' : Database T) (h : Database.Recorded crud enc op row s.db d')
      (hc : commit = true) :
      Applied crud enc op commit s (.ok (), ⟨d', s.pubsub.emitted op⟩)
  /-- The commit fails after the operation has gone out. -/
  | lost (row : OpSerialized) (d' : Database T) (h : Database.Recorded crud enc op row s.db d') (hc : commit = false) :
      Applied crud enc op commit s (.err .commit, ⟨s.db, s.pubsub.emitted op⟩)

variable (crud enc) in
theorem applyTx_eq (op : Op V) (fromLog : Bool) (s : Datastore T V) : applyTx crud enc op fromLog s =
    (do onDB (Database.record crud enc (op.assign fromLog s.db)); onPubsub (Pubsub.emit (op.assign fromLog s.db)) :
      Proc (Datastore T V) Error Unit) s := rfl

variable (crud enc) in
theorem apply_cases {s : Datastore T V} (hp : s.pubsub.Live) (op : Op V) (fromLog commit : Bool) :
    Applied crud enc (op.assign fromLog s.db) commit s (apply crud enc op fromLog commit s) := by
  generalize ho : op.assign fromLog s.db = op'
  have heq := applyTx_eq crud enc op fromLog s
  rw [ho] at heq
  unfold apply
  rcases hr : Database.record crud enc op' s.db with ⟨(_ | e | _ | _), d'⟩
  · have h1 : onDB (Database.record crud enc op') s = (.ok (), { s with db := d' }) := by rw [onDB_apply, hr]
    obtain ⟨row, hrec⟩ := Database.record_ok hr
    -- the writes are done; emit runs inside the transaction, so what it does decides the rest
    rcases Pubsub.emit_cases hp op' with ⟨p, he, hs⟩ | ⟨p, he⟩ | he
    · rw [Proc.bind_of_ok h1, onPubsub_apply, he] at heq
      rw [withTransaction_crash heq]; exact .crashed p hs (.inr (by rw [he]))
    · rw [Proc.bind_of_ok h1, onPubsub_apply, he] at heq
      rw [withTransaction_block heq]; exact .blocked _ (.inr (by rw [he]))
    · rw [Proc.bind_of_ok h1, onPubsub_apply, he] at heq
      rw [withTransaction_ok heq]
      cases commit with
      | true => exact .committed row d' hrec rfl
      | false => exact .lost row d' hrec rfl
  · rw [Proc.bind_of_err (by rw [onDB_apply, hr])] at heq
    rw [withTransaction_err heq]; exact .rejected e (by rw [hr])
  · rw [Proc.bind_of_crash (by rw [onDB_apply, hr])] at heq
    rw [withTransaction_crash heq]; exact .crashed s.pubsub rfl (.inl (by rw [hr]))
  · rw [Proc.bind_of_block (by rw [onDB_apply, hr])] at heq
    rw [withTransaction_block heq]; exact .blocked _ (.inl (by rw [hr]))

/-- The ways the first part of `Apply` ends. -/
inductive Written (crud : CRUD T V) (enc : Encoding V) (op : Op V) (s : Datastore T V) :
    Outcome Error Unit × Datastore T V → Prop where
  | rejected (e : Error) (d' : Database T) (h : (Database.record crud enc op s.db).1 = .err e) :
      Written crud enc op s (.err e, ⟨d', s.pubsub⟩)
  | crashed (d' : Database T) (p : Pubsub V) (h : p.sent = s.pubsub.sent)
      (hw : (Database.record crud enc op s.db).1 = .crash ∨ (Pubsub.closeRemoved s.pubsub).1 = .crash) :
      Written crud enc op s (.crash, ⟨d', p⟩)
  | blocked (s' : Datastore T V) (hw : (Database.record crud enc op s.db).1 = .block) :
      Written crud enc op s (.block, s')
  | written (row : OpSerialized) (d' : Database T) (h : Database.Recorded crud enc op row s.db d') :
      Written crud enc op s (.ok (), ⟨d', s.pubsub.cleared⟩)

variable (crud enc) in
theorem applyWrites_cases (op : Op V) (fromLog : Bool) (s : Datastore T V) :
    Written crud enc (op.assign fromLog s.db) s (applyWrites crud enc op fromLog s) := by
  generalize ho : op.assign fromLog s.db = op'
  have heq : applyWrites crud enc op fromLog s =
      (do onDB (Database.record crud enc op'); onPubsub Pubsub.closeRemoved : Proc (Datastore T V) Error Unit) s := by
    rw [← ho]
    rfl
  rw [heq]
  rcases hr : Database.record crud enc op' s.db with ⟨(_ | e | _ | _), d'⟩
  · obtain ⟨row, hrec⟩ := Database.record_ok hr
    rw [Proc.bind_of_ok (show onDB (Database.record crud enc op') s = (.ok (), ⟨d', s.pubsub⟩) by rw [onDB_apply, hr]),
      onPubsub_apply]
    rcases Pubsub.closeRemoved_cases s.pubsub with ⟨p, hc, hs⟩ | hc
    · have hcrash := congrArg Prod.fst hc
      rw [hc]
      exact .crashed d' p hs (.inr hcrash)
    · rw [hc]
      exact .written row d' hrec
  · rw [Proc.bind_of_err (show onDB (Database.record crud enc op') s = (.err e, ⟨d', s.pubsub⟩) by rw [onDB_apply, hr])]
    exact .rejected e d' (by rw [hr])
  · rw [Proc.bind_of_crash (show onDB (Database.record crud enc op') s =
      (.crash, ⟨d', s.pubsub⟩) by rw [onDB_apply, hr])]
    exact .crashed d' s.pubsub rfl (.inl (by rw [hr]))
  · rw [Proc.bind_of_block (by rw [onDB_apply, hr])]
    exact .blocked _ (by rw [hr])

/-- An operation that can be recorded is applied, unless a channel is full. -/
theorem apply_of_recorded {s : Datastore T V} (hp : s.pubsub.Live) (hq : s.pubsub.Pending) {op : Op V} {fromLog : Bool}
    {row : OpSerialized} {d' : Database T} (h : Database.Recorded crud enc (op.assign fromLog s.db) row s.db d') :
    (apply crud enc op fromLog true s).1 = .block ∨
      apply crud enc op fromLog true s = (.ok (), ⟨d', s.pubsub.emitted (op.assign fromLog s.db)⟩) := by
  have hrec := Database.record_of h
  have hcase := apply_cases crud enc hp op fromLog true
  revert hcase
  generalize apply crud enc op fromLog true s = r
  intro hcase
  cases hcase with
  | rejected e he => rw [hrec] at he; cases he
  | crashed p hs hw =>
    exfalso
    rcases hw with hw | hw
    · rw [hrec] at hw; cases hw
    · rcases Pubsub.emit_not_crash hp hq (op.assign fromLog s.db) with ⟨p', he⟩ | he <;> rw [he] at hw <;> cases hw
  | blocked s' hw => exact .inl rfl
  | committed row' d'' hr hc =>
    have := hrec.symm.trans (Database.record_of hr)
    cases this
    exact .inr rfl
  | lost row' d'' hr hc => cases hc

/-! ## Subscribe -/

/-- The ways `Subscribe` ends. -/
inductive Subscribed (enc : Encoding V) (start : Nat) (commit : Bool) (s : Datastore T V) :
    Outcome Error (Subscription V) × Datastore T V → Prop where
  | horizon (h : s.db.sequence + 1 < start) : Subscribed enc start commit s (.err .horizon, s)
  | rejected (e : Error) (h : start ≤ s.db.sequence + 1) (hq : s.db.queryLogSince enc start = .error e) :
      Subscribed enc start commit s (.err e, s)
  | accepted (preload : List (Op V)) (h : start ≤ s.db.sequence + 1) (hq : s.db.queryLogSince enc start = .ok preload)
      (hc : commit = true) :
      Subscribed enc start commit s (.ok ⟨preload, s.pubsub.next⟩, ⟨s.db, s.pubsub.subscribed⟩)
  /-- The commit fails; the channel stays subscribed and nobody reads it. -/
  | leaked (preload : List (Op V)) (h : start ≤ s.db.sequence + 1) (hq : s.db.queryLogSince enc start = .ok preload)
      (hc : commit = false) : Subscribed enc start commit s (.err .commit, ⟨s.db, s.pubsub.subscribed⟩)

theorem next_mod (s : Datastore T V) : (s.db.getSequence + 1) % 2 ^ 64 = s.db.sequence + 1 := s.db.getNextSequence_eq

variable (enc) in
theorem subscribeTx_eq (start : Nat) (s : Datastore T V) : subscribeTx enc start s =
    if s.db.sequence + 1 < start then (.err .horizon, s)
    else match s.db.queryLogSince enc start with
      | .error e => (.err e, s)
      | .ok preload => (.ok ⟨preload, s.pubsub.next⟩, ⟨s.db, s.pubsub.subscribed⟩) := by
  unfold subscribeTx
  rw [Proc.bind_of_ok (Proc.get_apply s)]
  simp only [next_mod, gt_iff_lt]
  split
  · rfl
  · cases hq : s.db.queryLogSince enc start with
    | error e => exact Proc.bind_of_err rfl
    | ok preload => rfl

variable (enc) in
theorem subscribe_cases (start : Nat) (commit : Bool) (s : Datastore T V) :
    Subscribed enc start commit s (subscribe enc start commit s) := by
  have heq := subscribeTx_eq enc start s
  unfold subscribe
  -- the one check on the start; what the log still holds is not looked at
  by_cases hs : s.db.sequence + 1 < start
  · rw [if_pos hs] at heq
    rw [withTransaction_err heq]; exact .horizon hs
  · rw [if_neg hs] at heq
    have hle : start ≤ s.db.sequence + 1 := Nat.le_of_not_lt hs
    cases hq : s.db.queryLogSince enc start with
    | error e =>
      rw [hq] at heq
      rw [withTransaction_err heq]; exact .rejected e hle hq
    | ok preload =>
      rw [hq] at heq
      rw [withTransaction_ok heq]
      cases commit with
      | true => exact .accepted preload hle hq rfl
      | false => exact .leaked preload hle hq rfl

/-- From where the log can be read, the subscription goes through. -/
theorem subscribe_of_query {start : Nat} {s : Datastore T V} {preload : List (Op V)} (h : start ≤ s.db.sequence + 1)
    (hq : s.db.queryLogSince enc start = .ok preload) :
    subscribe enc start true s = (.ok ⟨preload, s.pubsub.next⟩, ⟨s.db, s.pubsub.subscribed⟩) := by
  have hcase := subscribe_cases enc start true s
  revert hcase
  generalize subscribe enc start true s = o
  rintro (hh | ⟨e, -, hq'⟩ | ⟨preload', -, hq', -⟩ | ⟨preload', -, -, hf⟩)
  · omega
  · rw [hq] at hq'
    cases hq'
  · rw [hq] at hq'
    cases hq'
    rfl
  · cases hf

/-! ## LoadSnapshot -/

/-- The ways `LoadSnapshot` ends. It never touches the log. -/
inductive Loaded (snap : Snapshot V) (s : Datastore T V) : Outcome Error Unit × Datastore T V → Prop where
  | failed (e : Error) : Loaded snap s (.err e, s)
  | crashed : Loaded snap s (.crash, s)
  | blocked (s' : Datastore T V) : Loaded snap s (.block, s')
  | committed (d' : Database T) (hl : d'.log = s.db.log) (hs : d'.sequence = snap.seq) :
      Loaded snap s (.ok (), ⟨d', s.pubsub⟩)

theorem forEach_create_log (crud : CRUD T V) : ∀ (items : List V) (d d' : Database T),
    Proc.forEach (fun obj => Database.onTables (crud.create obj)) items d = (.ok (), d') → d'.log = d.log
  | [], d, d', h => by cases h; rfl
  | v :: items, d, d', h => by
    rw [Proc.forEach_cons] at h
    obtain ⟨_, d1, h1, h2⟩ := Proc.bind_ok h
    rw [forEach_create_log crud items d1 d' h2, (Database.onTables_ok h1).2.1]

theorem loadSnapshotTx_ok {snap : Snapshot V} {s s' : Datastore T V} (h : loadSnapshotTx crud snap s = (.ok (), s')) :
    s'.pubsub = s.pubsub ∧ s'.db.log = s.db.log ∧ s'.db.sequence = snap.seq := by
  obtain ⟨h, hp⟩ := onDB_ok h
  obtain ⟨_, d1, h1, h23⟩ := Proc.bind_ok h
  obtain ⟨_, d2, h2, h3⟩ := Proc.bind_ok h23
  obtain ⟨-, -, hl3, hs3⟩ := Database.setSequence_ok h3
  exact ⟨hp, by rw [hl3, forEach_create_log crud _ _ _ h2, (Database.onTables_ok h1).2.1], hs3⟩

variable (crud) in
theorem loadSnapshot_cases (snap : Snapshot V) (commit : Bool) (s : Datastore T V) :
    Loaded snap s (loadSnapshot crud snap commit s) := by
  have hp : (loadSnapshotTx crud snap s).2.pubsub = s.pubsub := onDB_pubsub _ s
  -- a rollback restores the database, and loading touches nothing else
  have hback : ∀ s' : Datastore T V, s'.pubsub = s.pubsub → ({ s' with db := s.db } : Datastore T V) = s := by
    rintro ⟨d, p⟩ h; simp only at h; subst h; rfl
  unfold loadSnapshot
  rcases hx : loadSnapshotTx crud snap s with ⟨(_ | e | _ | _), s'⟩
  · obtain ⟨hpub, hl, hs⟩ := loadSnapshotTx_ok hx
    rw [withTransaction_ok hx]
    cases commit with
    | true =>
      obtain ⟨d', p'⟩ := s'
      simp only at hpub hl hs
      subst hpub
      exact .committed d' hl hs
    | false => rw [if_neg Bool.false_ne_true, hback s' hpub]; exact .failed _
  · rw [hx] at hp; rw [withTransaction_err hx, hback s' hp]; exact .failed e
  · rw [hx] at hp; rw [withTransaction_crash hx, hback s' hp]; exact .crashed
  · rw [withTransaction_block hx]; exact .blocked _

/-- The part of `LoadSnapshot` that works on the tables. -/
def reload (crud : CRUD T V) (items : List V) : Proc T Error Unit := do
  crud.deleteAll
  Proc.forEach crud.create items

theorem onTables_bind {α β : Type} (x : Proc T Error α) (f : α → Proc T Error β) (d : Database T) :
    Database.onTables (x >>= f) d = (Database.onTables x >>= fun a => Database.onTables (f a)) d := by
  rcases h : x d.tables with ⟨(a | e | _ | _), t⟩
  · rw [Proc.bind_of_ok (by rw [Database.onTables_apply, h]), Database.onTables_apply, Proc.bind_of_ok h]
    rfl
  · rw [Proc.bind_of_err (by rw [Database.onTables_apply, h]), Database.onTables_apply, Proc.bind_of_err h]
  · rw [Proc.bind_of_crash (by rw [Database.onTables_apply, h]), Database.onTables_apply, Proc.bind_of_crash h]
  · rw [Proc.bind_of_block (by rw [Database.onTables_apply, h]), Database.onTables_apply, Proc.bind_of_block h]

theorem onTables_forEach (f : V → Proc T Error Unit) (items : List V) :
    Database.onTables (Proc.forEach f items) = Proc.forEach (fun obj => Database.onTables (f obj)) items := by
  induction items with
  | nil => rfl
  | cons v items ih =>
    funext d
    rw [Proc.forEach_cons, ← ih]
    exact onTables_bind (f v) (fun _ => Proc.forEach f items) d

variable (crud) in
theorem loadSnapshotTx_eq (snap : Snapshot V) (s : Datastore T V) : loadSnapshotTx crud snap s =
    onDB (do Database.onTables (reload crud snap.items); Database.setSequence snap.seq) s := by
  have hload : Database.onTables (reload crud snap.items) = (do
      Database.onTables crud.deleteAll
      Proc.forEach (fun obj => Database.onTables (crud.create obj)) snap.items : Proc (Database T) Error Unit) := by
    funext d
    rw [← onTables_forEach]
    exact onTables_bind crud.deleteAll (fun _ => Proc.forEach crud.create snap.items) d
  rw [hload]
  unfold loadSnapshotTx
  rw [onDB_apply, onDB_apply]
  rcases h : Database.onTables crud.deleteAll s.db with ⟨(a | e | _ | _), d⟩
  · rw [Proc.bind_of_ok h]
    rcases hf : Proc.forEach (fun obj => Database.onTables (crud.create obj)) snap.items d with ⟨(a | e | _ | _), d'⟩
    · rw [Proc.bind_of_ok hf, Proc.bind_of_ok (by rw [Proc.bind_of_ok h, hf])]
    · rw [Proc.bind_of_err hf, Proc.bind_of_err (by rw [Proc.bind_of_ok h, hf])]
    · rw [Proc.bind_of_crash hf, Proc.bind_of_crash (by rw [Proc.bind_of_ok h, hf])]
    · rw [Proc.bind_of_block hf, Proc.bind_of_block (by rw [Proc.bind_of_ok h, hf])]
  · rw [Proc.bind_of_err h, Proc.bind_of_err (Proc.bind_of_err h)]
  · rw [Proc.bind_of_crash h, Proc.bind_of_crash (Proc.bind_of_crash h)]
  · rw [Proc.bind_of_block h, Proc.bind_of_block (Proc.bind_of_block h)]

/-- A snapshot whose objects can be created is loaded. -/
theorem loadSnapshot_of_ok {snap : Snapshot V} {s : Datastore T V} {t : T}
    (h : reload crud snap.items s.db.tables = (.ok (), t)) (hlt : snap.seq < 2 ^ 63) :
    loadSnapshot crud snap true s = (.ok (), ⟨⟨t, s.db.log, snap.seq, hlt⟩, s.pubsub⟩) := by
  have htab : Database.onTables (reload crud snap.items) s.db = (.ok (), { s.db with tables := t }) := by
    rw [Database.onTables_apply, h]
  have hseq : Database.setSequence snap.seq { s.db with tables := t } = (.ok (), ⟨t, s.db.log, snap.seq, hlt⟩) :=
    dif_pos hlt
  have htx : loadSnapshotTx crud snap s = (.ok (), ⟨⟨t, s.db.log, snap.seq, hlt⟩, s.pubsub⟩) := by
    rw [loadSnapshotTx_eq, onDB_apply, Proc.bind_of_ok htab, hseq]
  unfold loadSnapshot
  rw [withTransaction_ok htx]
  rfl

/-- And one of which an object is refused changes nothing. -/
theorem loadSnapshot_of_err {snap : Snapshot V} {s : Datastore T V} {e : Error} {t : T}
    (h : reload crud snap.items s.db.tables = (.err e, t)) (commit : Bool) :
    loadSnapshot crud snap commit s = (.err e, s) := by
  have htab : Database.onTables (reload crud snap.items) s.db = (.err e, { s.db with tables := t }) := by
    rw [Database.onTables_apply, h]
  have htx : loadSnapshotTx crud snap s = (.err e, ⟨{ s.db with tables := t }, s.pubsub⟩) := by
    rw [loadSnapshotTx_eq, onDB_apply, Proc.bind_of_err htab]
  unfold loadSnapshot
  rw [withTransaction_err htx]

/-- What was loaded are the tables that `reload` makes. -/
theorem loadSnapshot_ok {snap : Snapshot V} {s s' : Datastore T V} {commit : Bool}
    (h : loadSnapshot crud snap commit s = (.ok (), s')) :
    reload crud snap.items s.db.tables = (.ok (), s'.db.tables) ∧ s'.db.log = s.db.log ∧ s'.db.sequence = snap.seq ∧
      s'.pubsub = s.pubsub := by
  unfold loadSnapshot at h
  rcases hx : loadSnapshotTx crud snap s with ⟨(_ | e | _ | _), t⟩
  · rw [withTransaction_ok hx] at h
    cases commit with
    | false => cases h
    | true =>
      cases h
      obtain ⟨hp, hl, hs⟩ := loadSnapshotTx_ok hx
      rw [loadSnapshotTx_eq] at hx
      obtain ⟨_, d, hd, hset⟩ := Proc.bind_ok (onDB_ok hx).1
      refine ⟨?_, hl, hs, hp⟩
      rw [(Database.setSequence_ok hset).2.1]
      exact (Database.onTables_ok hd).1
  · rw [withTransaction_err hx] at h; cases h
  · rw [withTransaction_crash hx] at h; cases h
  · rw [withTransaction_block hx] at h; cases h

end Datastore

/-! ## CRUDs that copy -/

/-- What `Each` visits, created after `DeleteAll`, makes the same tables of any others. `Good` are
the tables that operations build. -/
structure Copies (crud : CRUD T V) (Good : T → Prop) : Prop where
  applied : ∀ op t t', Good t → applyOp crud op t = (.ok (), t') → Good t'
  copied : ∀ t, Good t → ∃ items, crud.each t = (.ok items, t) ∧ ∀ u, Datastore.reload crud items u = (.ok (), t)

theorem Copies.snapshot {Good : T → Prop} (h : Copies crud Good) {p : Datastore T V} (hp : Good p.db.tables) :
    ∃ snap, p.snapshot crud = .ok snap ∧ snap.seq = p.db.sequence ∧
      ∀ u, Datastore.reload crud snap.items u = (.ok (), p.db.tables) := by
  obtain ⟨items, heach, hload⟩ := h.copied _ hp
  refine ⟨⟨p.db.getSequence, items⟩, ?_, rfl, hload⟩
  unfold Datastore.snapshot
  rw [heach]

/-! ## Encodings that replay -/

/-- A value read back from its encoding encodes the same, and no operation tells the two apart; and
every operation on a value returns. -/
structure Replayable (crud : CRUD T V) (enc : Encoding V) : Prop where
  reread : ∀ v b, enc.marshalValue v = .ok b → ∃ v', enc.unmarshalValue b = .ok v' ∧ enc.marshalValue v' = .ok b ∧
    crud.create v' = crud.create v ∧ crud.update v' = crud.update v ∧ crud.delete v' = crud.delete v
  returned : ∀ v t, (crud.create v t).1.Returned ∧ (crud.update v t).1.Returned ∧ (crud.delete v t).1.Returned

namespace Replayable

theorem applyOp_returned (h : Replayable crud enc) (op : Op V) (t : T) : (applyOp crud op t).1.Returned := by
  obtain ⟨seq, ty, ts, v⟩ := op
  obtain ⟨hc, hu, hd⟩ := h.returned v t
  cases ty with
  | create => exact hc
  | update => exact hu
  | delete => exact hd
  | unknown code => trivial

/-- The operation decoded from a row encodes to the row, and does what the recorded one did. -/
theorem decode_serialize (h : Replayable crud enc) {op : Op V} {row : OpSerialized} (hr : op.serialize enc = .ok row) :
    ∃ op', row.decode enc = .ok op' ∧ op'.serialize enc = .ok row ∧ op'.seq = op.seq ∧
      applyOp crud op' = applyOp crud op := by
  obtain ⟨hm, hs, ht, hz⟩ := Op.serialize_eq_ok hr
  obtain ⟨v', hu, hm', hc, hup, hd⟩ := h.reread _ _ hm
  refine ⟨⟨row.seq, row.type, row.timestamp, v'⟩, ?_, ?_, hs, ?_⟩
  · unfold OpSerialized.decode; rw [hu]; rfl
  · unfold Op.serialize; rw [hm', ← hz]; rfl
  · unfold applyOp; rw [ht, hc, hup, hd]

/-- Operations with the same row do the same. -/
theorem applyOp_eq_of_serialize (h : Replayable crud enc) {op op' : Op V} {row : OpSerialized}
    (hr : op.serialize enc = .ok row) (hr' : op'.serialize enc = .ok row) : applyOp crud op = applyOp crud op' := by
  obtain ⟨o, hd, -, -, ha⟩ := h.decode_serialize hr
  obtain ⟨o', hd', -, -, ha'⟩ := h.decode_serialize hr'
  rw [hd] at hd'; cases hd'
  rw [← ha, ha']

end Replayable

end Wig.Crudlog
