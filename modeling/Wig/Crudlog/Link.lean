/-
One link of a replication chain: a node that has the primary's operations, and a datastore that
follows it. Every event of the link but a write keeps both in the primary's history; what it does to
the follower is nothing, the primary's next operation, or a snapshot.
-/
import Wig.Crudlog.Origin

namespace Wig.Crudlog

open Wig.Lib Wig.Crud

variable {T V : Type} {crud : CRUD T V} {enc : Encoding V} {tr : Transport V} {t₀ : T} {Good : T → Prop}
variable {hist : List (Database T)} {rows : List OpSerialized}

/-! ## The events of a link -/

def FollowEvent.commits : FollowEvent V → Bool
  | .primary e => e.commits
  | .subscribe commit => commit
  | .snapshot commit => commit
  | .deliver commit => commit
  | _ => true

/-- The steps of an `Apply` of the node that is followed. -/
def FollowEvent.isWrite : FollowEvent V → Bool
  | .primary (.apply _ _) => true
  | .primary .send => true
  | .primary (.commit _) => true
  | _ => false

def FollowEvent.isSnapshot : FollowEvent V → Bool
  | .snapshot _ => true
  | _ => false

def FollowEvent.isSubscribe : FollowEvent V → Bool
  | .subscribe _ => true
  | _ => false

/-- A snapshot is taken while no `Apply` is in progress. -/
theorem Replica.step_snapshot {r r' : Replica T V} {e : FollowEvent V} (hs : Replica.step crud enc tr r e = some r')
    (he : e.isSnapshot = true) : r.primary.emission = none := by
  cases e with
  | snapshot commit =>
    cases hph : r.phase with
    | snapshotting =>
      unfold Replica.step at hs
      rw [hph] at hs
      exact Replica.snapshotStep_some hs
    | _ => unfold Replica.step at hs; rw [hph] at hs; cases hs
  | _ => cases he

/-! ## One link -/

def Phase.Continues (enc : Encoding V) (rows : List OpSerialized) (n : Node T V) (f : Nat) : Phase V → Prop
  | .starting start _ => start = f
  | .following ch wire up => Feed enc rows n f ch wire up
  | _ => True

/-- The follower of a node has the primary's tables at its number, and `doFollow` goes on from there. -/
structure Linked (enc : Encoding V) (hist : List (Database T)) (rows : List OpSerialized)
    (n : Node T V) (d : Database T) (phase : Phase V) : Prop where
  tables : At hist d.sequence d.tables
  continues : phase.Continues enc rows n d.sequence

/-- The connection to the source is up. -/
def Phase.connected : Phase V → Bool
  | .following _ _ up => up
  | _ => false

/-- The phase when the other side hangs up. -/
def Phase.hangUp : Phase V → Phase V
  | .following ch wire _ => .following ch wire false
  | phase => phase

namespace Linked

variable {n n' : Node T V} {d : Database T} {phase : Phase V}

theorem extend (h : Linked enc hist rows n d phase) (hist' : List (Database T)) (rows' : List OpSerialized) :
    Linked enc (hist ++ hist') (rows ++ rows') n d phase := by
  refine ⟨h.tables.append hist', ?_⟩
  have hc := h.continues
  cases phase with
  | following ch wire up => exact Feed.extend hc rows'
  | _ => exact hc

/-- The link does not depend on more of the node than what is on its way. -/
theorem congr (h : Linked enc hist rows n d phase)
    (hf : ∀ ch wire up, phase = .following ch wire up → Feed enc rows n d.sequence ch wire up →
      Feed enc rows n' d.sequence ch wire up) :
    Linked enc hist rows n' d phase := by
  refine ⟨h.tables, ?_⟩
  have hc := h.continues
  cases phase with
  | following ch wire up => exact hf ch wire up rfl hc
  | _ => exact hc

theorem hangUp (h : Linked enc hist rows n d phase) : Linked enc hist rows n' d phase.hangUp := by
  refine ⟨h.tables, ?_⟩
  have hc := h.continues
  cases phase with
  | following ch wire up => exact ⟨Feed.arriving hc, fun hup => (nomatch hup)⟩
  | _ => exact hc

end Linked

/-- What a link has between two steps. -/
structure Link (enc : Encoding V) (hist : List (Database T)) (rows : List OpSerialized) (r : Replica T V) : Prop where
  source : r.primary.Source hist rows
  live : r.follower.pubsub.Live
  pending : r.follower.pubsub.Pending
  linked : Linked enc hist rows r.primary r.follower.db r.phase

/-- What an event of a link can do to the follower. -/
inductive Advanced (crud : CRUD T V) (enc : Encoding V) (rows : List OpSerialized) (n : Node T V) (s : Datastore T V)
    (e : FollowEvent V) : Datastore T V → Prop where
  | kept : Advanced crud enc rows n s e s
  /-- The primary's next operation. -/
  | applied (op : Op V) (row : OpSerialized) (d' : Database T) (hr : Database.Recorded crud enc op row s.db d')
      (hrow : rows[s.db.sequence]? = some row) (hs : op.seq = s.db.sequence + 1) :
      Advanced crud enc rows n s e ⟨d', s.pubsub.emitted op⟩
  /-- A snapshot: the node's number, and the log as it was. -/
  | loaded (d' : Database T) (hl : d'.log = s.db.log) (hs : d'.sequence = n.store.db.sequence)
      (he : e.isSnapshot = true) : Advanced crud enc rows n s e ⟨d', s.pubsub⟩

namespace Advanced

variable {n b : Node T V} {s s' : Datastore T V} {e : FollowEvent V}

theorem live (h : Advanced crud enc rows n s e s') (hl : s.pubsub.Live) : s'.pubsub.Live := by
  cases h with
  | kept => exact hl
  | applied op row d' hr hrow hs => exact hl.emitted op
  | loaded d' hd hs he => exact hl

theorem pending (h : Advanced crud enc rows n s e s') (hp : s.pubsub.Pending) : s'.pubsub.Pending := by
  cases h with
  | kept => exact hp
  | applied op row d' hr hrow hs => exact .emitted _ op
  | loaded d' hd hs he => exact hp

/-- A follower that serves others stays a source as it advances. -/
theorem source (h : Advanced crud enc rows n b.store e s') (hb : b.Source hist rows) (hm : b.emission = none)
    (ht : At hist s'.db.sequence s'.db.tables) (hle : e.isSnapshot = true → b.store.db.sequence ≤ n.store.db.sequence) :
    Node.Source hist rows { b with store := s' } := by
  cases h with
  | kept => exact hb
  | applied op row d' hr hrow hs =>
    have hd : d'.sequence = b.store.db.sequence + 1 := hr.sequence.trans hs
    exact hb.applied hm hr hrow hs (hd ▸ ht)
  | loaded d' hd hs he => exact hb.loaded ht hd (hs ▸ hle he)

/-- What its own follower is sent goes on, unless a snapshot takes it further past an open connection. -/
theorem linked (h : Advanced crud enc rows n b.store e s') (hb : b.Source hist rows) (hm : b.emission = none)
    {d : Database T} {phase : Phase V} (hd : Linked enc hist rows b d phase)
    (hord : e.isSnapshot = true → phase.connected = false ∨ n.store.db.sequence = b.store.db.sequence) :
    Linked enc hist rows { b with store := s' } d phase := by
  cases h with
  | kept => exact hd
  | applied op row d' hr hrow hs =>
    exact hd.congr fun _ _ _ _ hf => hf.applied hb.toWired hm hrow hr.serialized (hr.sequence.trans hs)
  | loaded d' hl hs he =>
    refine hd.congr fun ch wire up hph hf => ?_
    rcases hord he with hno | heq
    · rw [hph] at hno
      exact ⟨hf.arriving, fun hup => absurd (hup.symm.trans hno) Bool.false_ne_true.symm⟩
    · refine hf.kept fun _ x hx => ⟨x, hx, rfl, ?_, id⟩
      rw [Node.told_of_none (n := { b with store := ⟨d', b.store.pubsub⟩ }) hm, Node.told_of_none hm]
      exact hs.trans heq

end Advanced

/-- What an event of a link, other than a write, leaves behind. -/
structure Link.Stepped (crud : CRUD T V) (enc : Encoding V) (hist : List (Database T)) (rows : List OpSerialized)
    (e : FollowEvent V) (r r' : Replica T V) : Prop where
  source : r'.primary.Source hist rows
  db : r'.primary.store.db = r.primary.store.db
  emission : r'.primary.emission = r.primary.emission
  history : r'.history = r.history
  linked : Linked enc hist rows r'.primary r'.follower.db r'.phase
  advanced : Advanced crud enc rows r.primary r.follower e r'.follower

/-- Loading what arrives of a snapshot, if it succeeds, is loading the snapshot. -/
def Transport.Faithful (crud : CRUD T V) (tr : Transport V) : Prop :=
  ∀ snap u t, Datastore.reload crud (tr.carrySnapshot snap).items u = (.ok (), t) →
    Datastore.reload crud snap.items u = (.ok (), t)

theorem Transport.faithful_inProcess (crud : CRUD T V) : (.inProcess : Transport V).Faithful crud := fun _ _ _ h => h

namespace Link

variable {p : Database T} {r r' : Replica T V}

/-- The follower is not touched, and neither is what it is sent. -/
theorem unchanged (h : Link enc hist rows r) {e : FollowEvent V} {phase : Phase V} (failed : Bool)
    (hph : phase.Continues enc rows r.primary r.follower.db.sequence) :
    Stepped crud enc hist rows e r { r with phase := phase, commitFailed := failed } :=
  ⟨h.source, rfl, rfl, rfl, ⟨h.linked.tables, hph⟩, .kept⟩

theorem serveStep (h : Link enc hist rows r) {e : Event V} (he : r.primary.ServerEvent e)
    (hread : ∀ ch wire, e = .read ch → r.phase ≠ .following ch wire true) (hs : r.primaryStep crud enc e = some r') :
    Stepped crud enc hist rows (.primary e) r r' := by
  obtain ⟨n', hn, rfl⟩ := Option.map_eq_some_iff.1 hs
  obtain ⟨hsrc, hdb, hem, hkept⟩ := h.source.serve he hn
  refine ⟨hsrc, hdb, hem, by show (if _ then _ else _) = _; rw [hdb, if_pos rfl], ?_, .kept⟩
  refine h.linked.congr fun ch wire up hph hf => hf.kept fun hup b hb => ?_
  refine hkept ch b hb ?_
  rintro rfl
  exact hread ch wire rfl (hup ▸ hph)

theorem subscribeStep (hR : Replayable crud enc) (hT : Timeline crud enc t₀ Good hist p)
    (h : Link enc hist p.log.rows r) {start : Nat} {restart : Bool} (hph : r.phase = .starting start restart)
    (hback : r.primary.store.db.ReachesBack (r.follower.db.sequence + 1))
    (hs : r.subscribeStep crud enc start restart true = some r') :
    Stepped crud enc hist p.log.rows (.subscribe true) r r' := by
  have hstart : start = r.follower.db.sequence := by
    have hc := h.linked.continues
    rw [hph] at hc
    exact hc
  have hlt := r.follower.db.sequence_lt
  have hmod : (start + 1) % 2 ^ 64 = r.follower.db.sequence + 1 := by omega
  obtain ⟨n, phase, hn, rfl, hcase⟩ := Replica.subscribeStep_cases h.source.alive hs
  obtain ⟨hsrc, hdb, hem, -⟩ := h.source.serve (e := .subscribe _ true) rfl hn
  have hnone := (Node.step_subscribe_some hn).2
  refine ⟨hsrc, hdb, hem, rfl, ⟨h.linked.tables, ?_⟩, .kept⟩
  rw [hmod] at hcase
  cases hcase with
  | snapshotting => trivial
  | stopped e => trivial
  | following preload hle hq =>
    obtain ⟨hseg, hlen⟩ := h.source.preload hR hT.integral.encoded (by omega) hback hq
    refine ⟨trivial, fun _ => ⟨⟨r.follower.db.sequence + 1, preload, none, [], [], false⟩,
      by simp [Node.setSub], ?_, fun _ => ?_⟩⟩
    · simpa [Node.pending, Node.setSub, Node.setPubsub] using hseg
    · rw [Node.told_setSub, Node.told_setPubsub, Node.told_of_none hnone]
      simpa [Node.pending, Node.setSub, Node.setPubsub] using hlen

theorem snapshotStep (hC : Copies crud Good) (hT : Timeline crud enc t₀ Good hist p) (htr : tr.Faithful crud)
    (h : Link enc hist rows r) (hs : r.snapshotStep crud tr true = some r') :
    Stepped crud enc hist rows (.snapshot true) r r' := by
  obtain ⟨snap, hsnap, hseq, hload⟩ := hC.snapshot (hT.good_at h.source.tables)
  rw [Replica.snapshotStep_eq (Replica.snapshotStep_some hs), hsnap] at hs
  simp only at hs
  rcases hx : r.follower.loadSnapshot crud (tr.carrySnapshot snap) true with ⟨(_ | e | _ | _), f⟩
  · rw [hx] at hs
    cases hs
    obtain ⟨hre, hlog, hq, hpub⟩ := Datastore.loadSnapshot_ok hx
    rw [tr.carrySnapshot_seq, hseq] at hq
    -- what arrived loads as the snapshot does, which loads as the node's tables
    have htab : f.db.tables = r.primary.store.db.tables :=
      (congrArg Prod.snd ((hload _).symm.trans (htr snap _ _ hre))).symm
    have hf : f = ⟨f.db, r.follower.pubsub⟩ := by rw [← hpub]
    refine ⟨h.source, rfl, rfl, rfl,
      ⟨by show At hist f.db.sequence f.db.tables; rw [hq, htab]; exact h.source.tables, ?_⟩, ?_⟩
    · exact hseq.trans hq.symm
    · show Advanced crud enc rows r.primary r.follower _ f
      rw [hf]
      exact .loaded f.db hlog hq rfl
  · have hcase := Datastore.loadSnapshot_cases crud (tr.carrySnapshot snap) true r.follower
    rw [hx] at hs hcase
    cases hcase
    cases hs
    exact h.unchanged _ trivial
  · have hcase := Datastore.loadSnapshot_cases crud (tr.carrySnapshot snap) true r.follower
    rw [hx] at hs hcase
    cases hcase
    cases hs
    exact h.unchanged r.commitFailed trivial
  · rw [hx] at hs
    cases hs

theorem fetchStep (hR : Replayable crud enc) (hT : Timeline crud enc t₀ Good hist p)
    (h : Link enc hist p.log.rows r) {ch : Nat} {wire : List (Op V)} (hph : r.phase = .following ch wire true)
    (hs : r.fetchStep crud enc tr ch wire = some r') : Stepped crud enc hist p.log.rows .fetch r r' := by
  have hfeed : Feed enc p.log.rows r.primary r.follower.db.sequence ch wire true := by
    have hc := h.linked.continues
    rw [hph] at hc
    exact hc
  obtain ⟨b, hb, hseg, -⟩ := hfeed.reader rfl
  obtain ⟨op, out, hout, hread, hr'⟩ := Replica.fetchStep_cases h.source.alive hb hs
  obtain ⟨hsrc, hdb, hem, -⟩ := h.source.serve (e := .read ch) trivial hread
  -- the first operation behind the wire has its row, and so has what arrives of it
  have hnext : ∃ row, p.log.rows[r.follower.db.sequence + wire.length]? = some row ∧ op.serialize enc = .ok row := by
    rw [Node.pending, hout] at hseg
    exact hseg.1
  obtain ⟨row, hrow, ho⟩ := hnext
  obtain ⟨op', hcarry, ho'⟩ := hT.carry hR tr hrow ho
  rw [hr' op' hcarry]
  refine ⟨hsrc, hdb, hem, rfl, ⟨h.linked.tables, hfeed.fetched hb hout fun row' hrow' => ?_⟩, .kept⟩
  rw [ho] at hrow'
  cases hrow'
  exact ho'

/-- What is on top of the wire is the primary's next operation, so that applying it, if it succeeds,
takes the follower to the primary's next tables. -/
theorem deliverStep (hR : Replayable crud enc) (hT : Timeline crud enc t₀ Good hist p)
    (h : Link enc hist p.log.rows r) {ch : Nat} {op : Op V} {wire : List (Op V)} {up : Bool}
    (hph : r.phase = .following ch (op :: wire) up)
    (hs : r.returned true (fun r => { r with phase := .following ch wire up })
      (r.follower.apply crud enc op true true) = some r') :
    Stepped crud enc hist p.log.rows (.deliver true) r r' := by
  have hfeed : Feed enc p.log.rows r.primary r.follower.db.sequence ch (op :: wire) up := by
    have hc := h.linked.continues
    rw [hph] at hc
    exact hc
  obtain ⟨⟨row, hrow, ho⟩, hrest⟩ := hfeed.delivered
  have hseq : op.seq = r.follower.db.sequence + 1 := (Op.serialize_eq_ok ho).2.1.symm.trans (hT.seq_eq hrow)
  rcases Datastore.apply_alive hR h.live h.pending op true with ⟨e, he⟩ | hblock | ⟨row', d', hrec, hok⟩
  · rw [he] at hs
    cases hs
    exact h.unchanged _ trivial
  · rcases hx : r.follower.apply crud enc op true true with ⟨y, f⟩
    rw [hx] at hs hblock
    cases hblock
    cases hs
  · rw [hok] at hs
    cases hs
    have hrec : Database.Recorded crud enc op row' r.follower.db d' := hrec
    have hrr : row' = row := Except.ok.inj (hrec.serialized.symm.trans ho)
    subst hrr
    have hd : d'.sequence = r.follower.db.sequence + 1 := hrec.sequence.trans hseq
    refine ⟨h.source, rfl, rfl, rfl, ⟨?_, ?_⟩, .applied op row' d' hrec hrow hseq⟩
    · show At hist d'.sequence d'.tables
      rw [hd]
      exact hT.next hR h.linked.tables hrow ho hrec.applied
    · show Feed enc p.log.rows r.primary d'.sequence ch wire up
      rw [hd]
      exact hrest

end Link

theorem Link.step (hR : Replayable crud enc) (hC : Copies crud Good) {p : Database T}
    (hT : Timeline crud enc t₀ Good hist p) (htr : tr.Faithful crud) {r r' : Replica T V} {e : FollowEvent V}
    (h : Link enc hist p.log.rows r) (ha : r.Admitted e) (hc : e.commits = true) (hw : e.isWrite = false)
    (hback : e.isSubscribe = true → r.primary.store.db.ReachesBack (r.follower.db.sequence + 1))
    (hs : Replica.step crud enc tr r e = some r') : Link.Stepped crud enc hist p.log.rows e r r' := by
  unfold Replica.step at hs
  split at hs
  · rename_i e
    refine h.serveStep ?_ ?_ hs
    · cases e with
      | apply op fromLog => cases hw
      | send => cases hw
      | commit ok => cases hw
      | loadSnapshot snap commit => exact ha
      | subscribe start commit => exact hc
      | forward ch => trivial
      | read ch => trivial
      | close ch => exact ha
    · rintro ch wire rfl
      exact ha wire
  · cases hs
    exact h.unchanged r.commitFailed rfl
  · rename_i commit start restart hph
    obtain rfl : commit = true := hc
    exact h.subscribeStep hR hT hph (hback rfl) hs
  · rename_i commit hph
    obtain rfl : commit = true := hc
    exact h.snapshotStep hC hT htr hs
  · rename_i hph
    exact h.fetchStep hR hT hph hs
  · rename_i commit ch op wire up hph
    obtain rfl : commit = true := hc
    exact h.deliverStep hR hT hph hs
  · rename_i keep ch wire hph
    cases hs
    have hcont := h.linked.continues
    rw [hph] at hcont
    exact h.unchanged r.commitFailed (Feed.down hcont keep)
  · cases hs
    exact h.unchanged r.commitFailed trivial
  · cases hs
    exact h.unchanged r.commitFailed trivial
  · cases hs

end Wig.Crudlog
