/-
A follower agrees with its primary: as long as no snapshot was loaded and no commit failed, its
database is one the primary had, after as many operations as the follower's sequence says, or the one
that the `Apply` in progress on the primary is about to commit; and what is on the wire goes on from there.
-/
import Wig.Crudlog.Follow
import Wig.Crudlog.Stream

namespace Wig.Crudlog

open Wig.Lib Wig.Crud

variable {T V : Type} {crud : CRUD T V} {enc : Encoding V} {tr : Transport V} {t₀ : T}

/-! ## The history of a primary -/

/-- The databases a primary went through, up to the current one. -/
structure History (crud : CRUD T V) (enc : Encoding V) (ds : List (Database T)) (d : Database T) : Prop where
  length : ds.length = d.sequence + 1
  last : ds[d.sequence]? = some d
  prefixes : ∀ (k : Nat) x, ds[k]? = some x → x.sequence = k ∧ x.log.rows = d.log.rows.take k
  recorded : ∀ (k : Nat) x y, ds[k]? = some x → ds[k + 1]? = some y → ∃ (op : Op V) (row : OpSerialized),
    Database.Recorded crud enc op row x y

namespace History

theorem fresh (crud : CRUD T V) (enc : Encoding V) (t₀ : T) :
    History crud enc [Database.fresh t₀] (Database.fresh t₀) := by
  refine ⟨rfl, rfl, ?_, ?_⟩
  · intro k x h
    obtain ⟨hk, rfl⟩ := List.getElem?_eq_some_iff.1 h
    have : k = 0 := by simpa using hk
    subst this
    exact ⟨rfl, rfl⟩
  · intro k x y _ h
    simp at h

theorem lt {ds : List (Database T)} {d x : Database T} (h : History crud enc ds d) {k : Nat} (hx : ds[k]? = some x) :
    k ≤ d.sequence := by
  have := (List.getElem?_eq_some_iff.1 hx).1
  have := h.length
  omega

/-- One more operation. -/
theorem concat {ds : List (Database T)} {d d' : Database T} {op : Op V} {row : OpSerialized} (h : History crud enc ds d)
    (hl : d.log.rows.length = d.sequence) (hr : Database.Recorded crud enc op row d d') (hs : op.seq = d.sequence + 1) :
    History crud enc (ds ++ [d']) d' := by
  have hseq : d'.sequence = d.sequence + 1 := hr.sequence.trans hs
  have hold : ∀ k, k ≤ d.sequence → (ds ++ [d'])[k]? = ds[k]? := by
    intro k hk
    exact List.getElem?_append_left (by rw [h.length]; omega)
  have hnew : (ds ++ [d'])[d.sequence + 1]? = some d' := by
    rw [← h.length]; exact List.getElem?_concat_length
  -- a database of the longer history is an old one, or the one just reached
  have hsplit : ∀ (k : Nat) x, (ds ++ [d'])[k]? = some x → (k ≤ d.sequence ∧ ds[k]? = some x) ∨
      (k = d.sequence + 1 ∧ x = d') := by
    intro k x hx
    have hk := (List.getElem?_eq_some_iff.1 hx).1
    rw [List.length_append, List.length_singleton, h.length] at hk
    by_cases hle : k ≤ d.sequence
    · exact .inl ⟨hle, (hold k hle).symm.trans hx⟩
    · have hk' : k = d.sequence + 1 := by omega
      subst hk'
      rw [hnew] at hx
      exact .inr ⟨rfl, (Option.some.inj hx).symm⟩
  refine ⟨?_, ?_, ?_, ?_⟩
  · rw [List.length_append, List.length_singleton, h.length, hseq]
  · rw [hseq]; exact hnew
  · intro k x hx
    rcases hsplit k x hx with ⟨hk, hx⟩ | ⟨rfl, rfl⟩
    · obtain ⟨h1, h2⟩ := h.prefixes k x hx
      refine ⟨h1, ?_⟩
      rw [h2, hr.rows, List.take_append_of_le_length (by omega)]
    · refine ⟨hseq, ?_⟩
      rw [hr.rows, List.take_of_length_le (by simp [hl])]
  · intro k x y hx hy
    rcases hsplit (k + 1) y hy with ⟨hk, hy⟩ | ⟨hk, rfl⟩
    · rw [hold k (by omega)] at hx
      exact h.recorded k x y hx hy
    · have hk : k = d.sequence := by omega
      subst hk
      rw [hold d.sequence (Nat.le_refl _), h.last, Option.some.injEq] at hx
      subst hx
      exact ⟨op, row, hr⟩

/-- An operation with the row after the first `k` takes the `k`-th database to the next one. -/
theorem next (hR : Replayable crud enc) {ds : List (Database T)} {d x : Database T}
    (h : History crud enc ds d) {k : Nat} (hx : ds[k]? = some x) {op : Op V} {row : OpSerialized}
    (hrow : d.log.rows[k]? = some row) (hlen : d.log.rows.length = d.sequence)
    (ho : op.serialize enc = .ok row) : ∃ y, ds[k + 1]? = some y ∧ Database.Recorded crud enc op row x y := by
  have hk : k < d.log.rows.length := (List.getElem?_eq_some_iff.1 hrow).1
  have hlt : k + 1 < ds.length := by rw [h.length]; omega
  obtain ⟨y, hy⟩ : ∃ y, ds[k + 1]? = some y := ⟨_, List.getElem?_eq_getElem hlt⟩
  refine ⟨y, hy, ?_⟩
  obtain ⟨op', row', hr⟩ := h.recorded k x y hx hy
  -- the row that was recorded is the one after the first `k`
  have hxr := (h.prefixes k x hx).2
  have hyr := (h.prefixes (k + 1) y hy).2
  rw [List.take_add_one, hrow, Option.toList_some, ← hxr, hr.rows] at hyr
  have hrr : row' = row := by simpa using hyr
  subst hrr
  have hseq : op.seq = op'.seq := (Op.serialize_eq_ok ho).2.1.symm.trans (Op.serialize_eq_ok hr.serialized).2.1
  refine ⟨?_, ho, hseq ▸ hr.seq_lt, hseq ▸ hr.fresh, hr.rows, hr.sequence.trans hseq.symm⟩
  rw [hR.applyOp_eq_of_serialize ho hr.serialized]
  exact hr.applied

end History

/-! ## The databases of a node that is written -/

namespace Node

/-- The databases after each operation: those committed, and at last that of an `Apply` in progress. -/
def known (n : Node T V) (history : List (Database T)) : List (Database T) :=
  history ++ (n.emission.map Emission.db).toList

/-- The committed databases, as an event leaves them. -/
def grown (n n' : Node T V) (history : List (Database T)) : List (Database T) :=
  if n'.store.db.sequence = n.store.db.sequence then history else history ++ [n'.store.db]

theorem known_of_none {n : Node T V} (h : n.emission = none) (history : List (Database T)) :
    n.known history = history := by
  unfold known
  rw [h]
  exact List.append_nil _

theorem known_of_some {n : Node T V} {m : Emission T V} (h : n.emission = some m) (history : List (Database T)) :
    n.known history = history ++ [m.db] := by
  unfold known
  rw [h]
  rfl

theorem grown_of_db {n n' : Node T V} (hdb : n'.store.db = n.store.db) {history : List (Database T)} :
    n.grown n' history = history := by
  unfold grown
  rw [hdb, if_pos rfl]

theorem known_congr {n n' : Node T V} (hdb : n'.store.db = n.store.db) (hm : n'.emission = n.emission)
    (history : List (Database T)) : n'.known (n.grown n' history) = n.known history ∧ n'.ahead = n.ahead := by
  rw [grown_of_db hdb]
  unfold known ahead
  rw [hdb, hm]
  exact ⟨rfl, rfl⟩

variable {n n' : Node T V} {e : Event V}

/-- The operation in progress has the next number. -/
theorem Stepped.next (hst : Stepped crud enc n e n') (he : n.PrimaryEvent e)
    (hn : ∀ m, n.emission = some m → m.op.seq = n.store.db.sequence + 1) :
    ∀ m, n'.emission = some m → m.op.seq = n'.store.db.sequence + 1 := by
  cases hst with
  | written op fromLog row d' hm hr =>
    obtain rfl : fromLog = false := he
    intro m hm'
    cases hm'
    exact Database.getNextSequence_eq _
  | sent m ch unsent hm hu =>
    intro m' hm'
    cases hm'
    exact hn m hm
  | committed m hm hu => exact fun m' hm' => by cases hm'
  | lost m hm hu => exact fun m' hm' => by cases hm'
  | loaded snap commit d' hm hl hq => exact he.elim
  | moved e n' ch b b' hb hm hr =>
    intro m hm'
    rw [hm.db]
    exact hn m (hm.emission ▸ hm')
  | _ => exact hn

/-- An event of a primary leaves the databases as they are, or adds one: an `Apply` that begins. -/
theorem Stepped.known (hst : Stepped crud enc n e n') (he : n.PrimaryEvent e) (hw : n.Writing crud enc)
    (hn : ∀ m, n.emission = some m → m.op.seq = n.store.db.sequence + 1) (history : List (Database T)) :
    (n'.known (n.grown n' history) = n.known history ∧ n'.ahead = n.ahead) ∨
      ∃ (op : Op V) (row : OpSerialized), e = .apply op false ∧ n.emission = none ∧
        Database.Recorded crud enc (op.assign false n.ahead) row n.ahead n'.ahead ∧
        n'.known (n.grown n' history) = n.known history ++ [n'.ahead] := by
  cases hst with
  | written op fromLog row d' hm hr =>
    obtain rfl : fromLog = false := he
    refine .inr ⟨op, row, rfl, hm, ?_, ?_⟩
    · rw [ahead_of_none hm, ahead_of_some rfl]
      exact hr
    · rw [known_of_some rfl, known_of_none hm, ahead_of_some rfl, grown, if_pos rfl]
  | sent m ch unsent hm hu =>
    refine .inl ⟨?_, ?_⟩
    · rw [known_of_some rfl, known_of_some hm, grown, if_pos rfl]
    · rw [ahead_of_some rfl, ahead_of_some hm]
  -- what was in progress is committed: the same databases
  | committed m hm hu =>
    obtain ⟨row, hr⟩ := hw m hm
    have hne : m.db.sequence ≠ n.store.db.sequence := by rw [hr.sequence, hn m hm]; omega
    refine .inl ⟨?_, ?_⟩
    · rw [known_of_none rfl, known_of_some hm, grown, if_neg hne]
    · rw [ahead_of_none rfl, ahead_of_some hm]
  | lost m hm hu => exact absurd he Bool.false_ne_true
  | loaded snap commit d' hm hl hq => exact he.elim
  | moved e n' ch b b' hb hm hr => exact .inl (known_congr hm.db hm.emission history)
  | unchanged | crashed | subscribed | leaked | closed => exact .inl (known_congr rfl rfl history)

theorem history_of_db (hdb : n'.store.db = n.store.db) {hist : List (Database T)}
    (h : History crud enc hist n.store.db) : History crud enc (n.grown n' hist) n'.store.db := by
  rw [grown_of_db hdb, hdb]
  exact h

/-- The committed databases go on with every commit. -/
theorem Stepped.history (hst : Stepped crud enc n e n') (he : n.PrimaryEvent e) (hw : n.Writing crud enc)
    (hn : ∀ m, n.emission = some m → m.op.seq = n.store.db.sequence + 1)
    (hl : n.store.db.log.rows.length = n.store.db.sequence)
    {hist : List (Database T)} (h : History crud enc hist n.store.db) :
    History crud enc (n.grown n' hist) n'.store.db := by
  cases hst with
  | committed m hm hu =>
    obtain ⟨row, hr⟩ := hw m hm
    have hseq := hn m hm
    have hne : m.db.sequence ≠ n.store.db.sequence := by rw [hr.sequence, hseq]; omega
    rw [grown, if_neg hne]
    exact h.concat hl hr hseq
  | loaded snap commit d' hm hl hq => exact he.elim
  | moved e n' ch b b' hb hm hr => exact history_of_db hm.db h
  | _ => exact history_of_db rfl h

/-- With the one of an `Apply` in progress, the databases are a history as well. -/
theorem history_known (hw : n.Writing crud enc) (hn : ∀ m, n.emission = some m → m.op.seq = n.store.db.sequence + 1)
    (hl : n.store.db.log.rows.length = n.store.db.sequence) {hist : List (Database T)}
    (h : History crud enc hist n.store.db) : History crud enc (n.known hist) n.ahead := by
  cases hm : n.emission with
  | none =>
    rw [known_of_none hm, ahead_of_none hm]
    exact h
  | some m =>
    obtain ⟨row, hr⟩ := hw m hm
    rw [known_of_some hm, ahead_of_some hm]
    exact h.concat hl hr (hn m hm)

end Node

/-! ## The invariant -/

namespace Replica

/-- The primary's databases after each of its operations, that of an `Apply` in progress being the last. -/
def known (r : Replica T V) : List (Database T) := r.primary.known r.history

/-- What is on the wire are the rows after the follower's, and an open connection goes on from there. -/
structure Wire (enc : Encoding V) (r : Replica T V) (ch : Nat) (wire : List (Op V)) (up : Bool) : Prop where
  rows : Encodes enc wire ((r.primary.ahead.log.rows.drop r.follower.db.sequence).take wire.length)
  reader : up = true → ∃ b, r.primary.subs ch = some b ∧ 1 ≤ b.start ∧
    b.start + b.read.length = r.follower.db.sequence + 1 + wire.length

def PhaseAgrees (enc : Encoding V) (r : Replica T V) : Phase V → Prop
  | .starting start _ => start = r.follower.db.sequence
  | .following ch wire up => r.Wire enc ch wire up
  | _ => True

structure Agrees (crud : CRUD T V) (enc : Encoding V) (t₀ : T) (r : Replica T V) : Prop where
  primary : r.primary.Primary crud enc t₀
  history : History crud enc r.history r.primary.store.db
  follower : r.known[r.follower.db.sequence]? = some r.follower.db
  quiet : r.follower.pubsub.Quiet
  phase : r.PhaseAgrees enc r.phase

theorem Agrees.fresh (crud : CRUD T V) (enc : Encoding V) (t₀ : T) : (Replica.fresh t₀).Agrees crud enc t₀ :=
  ⟨.start crud enc t₀, .fresh crud enc t₀, rfl, .new, trivial⟩

/-- The history with the operation in progress. -/
theorem Agrees.history_known {r : Replica T V} (h : r.Agrees crud enc t₀) : History crud enc r.known r.primary.ahead :=
  Node.history_known h.primary.writing h.primary.next h.primary.integral.length_rows h.history

theorem Agrees.follower_le (hR : Replayable crud enc) {r : Replica T V} (h : r.Agrees crud enc t₀) :
    r.follower.db.sequence ≤ r.primary.ahead.log.rows.length := by
  rw [(h.primary.ahead_integral hR).length_rows]
  exact h.history_known.lt h.follower

/-- The wire does not depend on what the primary does later. -/
theorem Wire.extend {r r' : Replica T V} {ch : Nat} {wire : List (Op V)} {up : Bool} (h : r.Wire enc ch wire up)
    {more : List OpSerialized} (hrows : r'.primary.ahead.log.rows = r.primary.ahead.log.rows ++ more)
    (hf : r'.follower = r.follower) (hle : r.follower.db.sequence ≤ r.primary.ahead.log.rows.length)
    (hreader : up = true → ∀ b, r.primary.subs ch = some b →
      ∃ b', r'.primary.subs ch = some b' ∧ b'.start = b.start ∧ b'.read = b.read) : r'.Wire enc ch wire up := by
  refine ⟨?_, ?_⟩
  · rw [hrows, hf, List.drop_append_of_le_length hle, List.take_append_of_le_length]
    · exact h.rows
    · have hlen := h.rows.length_eq
      rw [List.length_take] at hlen
      omega
  · intro hup
    obtain ⟨b, hb, h1, hpos⟩ := h.reader hup
    obtain ⟨b', hb', hs, hr⟩ := hreader hup b hb
    exact ⟨b', hb', hs ▸ h1, by rw [hs, hr, hf]; exact hpos⟩

theorem primaryEvent_of_admitted {r : Replica T V} {e : Event V} (ha : r.Admitted (.primary e))
    (hc : e.commits = true) : r.primary.PrimaryEvent e := by
  cases e with
  | apply op fromLog => exact ha
  | send => trivial
  | commit ok => exact hc
  | loadSnapshot snap commit => exact ha.elim
  | subscribe start commit => exact hc
  | forward ch => trivial
  | read ch => trivial
  | close ch => exact ha

theorem Agrees.primaryStep (hR : Replayable crud enc) {r r' : Replica T V} {e : Event V} (h : r.Agrees crud enc t₀)
    (ha : r.Admitted (.primary e)) (hs : r.primaryStep crud enc e = some r') (hc : r'.commitFailed = false) :
    r'.Agrees crud enc t₀ := by
  obtain ⟨n, hn, rfl⟩ := Option.map_eq_some_iff.1 hs
  have hcommit : e.commits = true := by
    have := (Bool.or_eq_false_iff.1 hc).2
    simpa using this
  have hp := primaryEvent_of_admitted ha hcommit
  have hprim := h.primary.step hR hp hn
  obtain ⟨-, hst⟩ := Node.step_cases h.primary.live h.primary.unsent hn
  have hhist := hst.history hp h.primary.writing h.primary.next h.primary.integral.length_rows h.history
  -- the rows of the log after the event, and the databases
  obtain ⟨more, hrows, hfol⟩ : ∃ more, n.ahead.log.rows = r.primary.ahead.log.rows ++ more ∧
      (n.known (r.primary.grown n r.history))[r.follower.db.sequence]? = some r.follower.db := by
    rcases hst.known hp h.primary.writing h.primary.next r.history with ⟨hk, hdb⟩ | ⟨op, row, -, -, hr, hk⟩
    · rw [hk, hdb]
      exact ⟨[], (List.append_nil _).symm, h.follower⟩
    · have hfollower : (r.primary.known r.history)[r.follower.db.sequence]? = some r.follower.db := h.follower
      refine ⟨[row], hr.rows, ?_⟩
      rw [hk, List.getElem?_append_left (List.getElem?_eq_some_iff.1 hfollower).1]
      exact hfollower
  refine ⟨hprim, hhist, hfol, h.quiet, ?_⟩
  have hphase := h.phase
  show PhaseAgrees enc _ r.phase
  cases hph : r.phase with
  | idle => trivial
  | starting start restart => rw [hph] at hphase; exact hphase
  | snapshotting => trivial
  | stopped e => trivial
  | following ch wire up =>
    rw [hph] at hphase
    refine Wire.extend (r := r) hphase hrows rfl (h.follower_le hR) ?_
    intro hup b hb
    refine h.primary.ordered.step_sub hn hb ?_
    rintro rfl
    exact ha wire (hup ▸ hph)

theorem Agrees.subscribeStep (hR : Replayable crud enc) {r r' : Replica T V} {start : Nat} {restart commit : Bool}
    (h : r.Agrees crud enc t₀) (hph : r.phase = .starting start restart)
    (hs : r.subscribeStep crud enc start restart commit = some r') (hc : r'.commitFailed = false) :
    r'.Agrees crud enc t₀ := by
  have hstart : start = r.follower.db.sequence := by
    have := h.phase
    rw [hph] at this
    exact this
  have hlt := r.follower.db.sequence_lt
  have hmod : (start + 1) % 2 ^ 64 = r.follower.db.sequence + 1 := by omega
  have hcommit : commit = true := by
    obtain ⟨n, -, rfl⟩ := Option.map_eq_some_iff.1 hs
    have := (Bool.or_eq_false_iff.1 hc).2
    simpa using this
  subst hcommit
  obtain ⟨n, phase, hn, rfl, hcase⟩ := subscribeStep_cases h.primary.alive hs
  have hprim := h.primary.step hR (e := .subscribe _ true) rfl hn
  rw [hmod] at hcase
  cases hcase with
  | snapshotting => exact ⟨hprim, h.history, h.follower, h.quiet, trivial⟩
  | stopped e => exact ⟨hprim, h.history, h.follower, h.quiet, trivial⟩
  | following preload hle hq =>
    refine ⟨hprim, h.history, h.follower, h.quiet, ⟨.nil, fun _ => ?_⟩⟩
    refine ⟨⟨r.follower.db.sequence + 1, preload, none, [], [], false⟩, ?_, by simp, by simp⟩
    simp [Node.setSub]

theorem Agrees.snapshotStep {r r' : Replica T V} {commit : Bool} (h : r.Agrees crud enc t₀)
    (hs : r.snapshotStep crud tr commit = some r') (hl : r'.snapshotLoaded = false) : r'.Agrees crud enc t₀ := by
  rw [snapshotStep_eq (snapshotStep_some hs)] at hs
  split at hs
  · rename_i snap hsnap
    have hcase := Datastore.loadSnapshot_cases crud (tr.carrySnapshot snap) commit r.follower
    revert hs hcase
    generalize r.follower.loadSnapshot crud (tr.carrySnapshot snap) commit = x
    intro hs hcase
    cases hcase with
    | failed e => cases hs; exact ⟨h.primary, h.history, h.follower, h.quiet, trivial⟩
    | crashed => cases hs; exact ⟨h.primary, h.history, h.follower, h.quiet, trivial⟩
    | blocked s' => cases hs
    | committed d' hlog hseq => cases hs; cases hl
  · cases hs; exact ⟨h.primary, h.history, h.follower, h.quiet, trivial⟩
  · cases hs
  · cases hs

/-- The next operation a subscription hands out has the row at the reader's position. -/
theorem Agrees.next_row (hR : Replayable crud enc) {r : Replica T V} (h : r.Agrees crud enc t₀)
    {ch : Nat} {b : Subscriber V} (hb : r.primary.subs ch = some b) {op : Op V} {out : List (Op V)}
    (ho : b.out = op :: out) :
    ∃ row, r.primary.ahead.log.rows[b.start - 1 + b.read.length]? = some row ∧ op.serialize enc = .ok row := by
  obtain ⟨-, hst, -, rows, henc, hpre, -⟩ := h.primary.streaming ch b hb
  have hdrop := henc.of_append.2
  have hpend : r.primary.pending ch b =
      op :: (out ++ (b.preload ++ (b.hand.toList ++ (r.primary.store.pubsub.chan ch).buf))) := by
    unfold Node.pending; rw [ho]; rfl
  rw [hpend] at hdrop
  cases hrows : rows.drop b.read.length with
  | nil => rw [hrows] at hdrop; cases hdrop
  | cons row rest =>
    rw [hrows] at hdrop
    refine ⟨row, ?_, (List.forall₂_cons.1 hdrop).1⟩
    have hget : rows[b.read.length]? = some row := by
      have := congrArg (·[0]?) hrows
      simpa using this
    obtain ⟨more, hmore⟩ := hpre.trans (h.primary.told_prefix hst)
    rw [(h.primary.ahead_integral hR).since_eq] at hmore
    rw [← List.getElem?_drop, ← hmore, List.getElem?_append_left (List.getElem?_eq_some_iff.1 hget).1]
    exact hget

theorem Agrees.fetchStep (hR : Replayable crud enc) {r r' : Replica T V} {ch : Nat} {wire : List (Op V)}
    (h : r.Agrees crud enc t₀) (hph : r.phase = .following ch wire true)
    (hs : r.fetchStep crud enc tr ch wire = some r') : r'.Agrees crud enc t₀ := by
  have hw : r.Wire enc ch wire true := by
    have := h.phase
    rw [hph] at this
    exact this
  obtain ⟨b, hb, h1, hpos⟩ := hw.reader rfl
  obtain ⟨op, out, ho, hread, hr'⟩ := fetchStep_cases h.primary.alive hb hs
  have hprim := h.primary.step hR (e := .read ch) trivial hread
  obtain ⟨row, hrow, hser⟩ := h.next_row hR hb ho
  have hint := h.primary.ahead_integral hR
  have hmem : row ∈ r.primary.ahead.log.rows := List.mem_of_getElem? hrow
  have hlt : row.seq < 2 ^ 63 := by
    have hk := ((hint.mem_keys row.seq).1 (Table.key_mem_keys hmem)).2
    have := r.primary.ahead.sequence_lt
    omega
  -- the operation changes on the wire, but still serialises to the row it was read from
  obtain ⟨op', hcarry, hser'⟩ := tr.carry_serialize hR hser hlt (hint.known row hmem)
  rw [hr' op' hcarry]
  refine ⟨hprim, h.history, h.follower, h.quiet, ?_,
    fun _ => ⟨{ b with out := out, read := b.read ++ [op] }, ?_, h1, ?_⟩⟩
  · show Encodes enc (wire ++ [op'])
      ((r.primary.ahead.log.rows.drop r.follower.db.sequence).take (wire ++ [op']).length)
    rw [List.length_append, List.length_singleton, List.take_add_one, List.getElem?_drop,
      show r.follower.db.sequence + wire.length = b.start - 1 + b.read.length by omega, hrow]
    exact hw.rows.concat hser'
  · simp [Node.setSub]
  · show b.start + (b.read ++ [op]).length = r.follower.db.sequence + 1 + (wire ++ [op']).length
    rw [List.length_append, List.length_append, List.length_singleton, List.length_singleton]
    omega

/-- The first operation on the wire is applied, and takes the follower to the primary's next database. -/
theorem Agrees.deliverable (hR : Replayable crud enc) {r : Replica T V} (h : r.Agrees crud enc t₀) {ch : Nat}
    {op : Op V} {wire : List (Op V)} {up : Bool} (hph : r.phase = .following ch (op :: wire) up) :
    ∃ y, r.known[r.follower.db.sequence + 1]? = some y ∧ y.sequence = r.follower.db.sequence + 1 ∧
      r.follower.apply crud enc op true true = (.ok (), ⟨y, r.follower.pubsub.emitted op⟩) := by
  have hw : r.Wire enc ch (op :: wire) up := by
    have := h.phase
    rw [hph] at this
    exact this
  have hrows := hw.rows
  cases hd : r.primary.ahead.log.rows.drop r.follower.db.sequence with
  | nil => rw [hd] at hrows; cases hrows
  | cons row rest =>
    rw [hd, List.length_cons, List.take_succ_cons] at hrows
    have hget : r.primary.ahead.log.rows[r.follower.db.sequence]? = some row := by
      have := congrArg (·[0]?) hd
      simpa using this
    obtain ⟨y, hy, hrec⟩ := h.history_known.next hR h.follower hget (h.primary.ahead_integral hR).length_rows
      (List.forall₂_cons.1 hrows).1
    refine ⟨y, hy, (h.history_known.prefixes _ y hy).1, ?_⟩
    rcases Datastore.apply_quiet hR h.quiet op true true with ⟨e, he, -, -⟩ | ⟨row', d', hrec', -, happ⟩
    -- the row was recorded on the primary from the same database, so the follower cannot refuse it
    · have hpend : r.follower.pubsub.Pending := ⟨by rw [h.quiet.toClose]; exact List.nodup_nil, fun c hc => by
        rw [h.quiet.toClose] at hc; exact (List.not_mem_nil hc).elim⟩
      rcases Datastore.apply_of_recorded h.quiet.live hpend
        (show Database.Recorded crud enc (op.assign true r.follower.db) _ _ _ from hrec) with hb | hok
      · rw [he] at hb; cases hb
      · exact hok
    · have hsame := (Database.record_of hrec).symm.trans (Database.record_of hrec')
      cases hsame
      exact happ

theorem Agrees.deliverStep (hR : Replayable crud enc) {r r' : Replica T V} {ch : Nat} {op : Op V} {wire : List (Op V)}
    {up commit : Bool} (h : r.Agrees crud enc t₀) (hph : r.phase = .following ch (op :: wire) up)
    (hs : r.returned commit (fun r => { r with phase := .following ch wire up })
      (r.follower.apply crud enc op true commit) = some r') (hc : r'.commitFailed = false) : r'.Agrees crud enc t₀ := by
  obtain ⟨y, hy, hyseq, happ⟩ := h.deliverable hR hph
  have hw : r.Wire enc ch (op :: wire) up := by
    have := h.phase
    rw [hph] at this
    exact this
  cases commit with
  | true =>
    rw [happ] at hs
    cases hs
    refine ⟨h.primary, h.history, by rw [← hyseq] at hy; exact hy, h.quiet.emitted op, ?_⟩
    refine ⟨?_, fun hup => ?_⟩
    · show Encodes enc wire ((r.primary.ahead.log.rows.drop y.sequence).take wire.length)
      have hrows := hw.rows
      rw [hyseq, ← List.tail_drop]
      cases hd : r.primary.ahead.log.rows.drop r.follower.db.sequence with
      | nil => rw [hd] at hrows; cases hrows
      | cons row rest =>
        rw [hd, List.length_cons, List.take_succ_cons] at hrows
        exact (List.forall₂_cons.1 hrows).2
    · obtain ⟨b, hb, h1, hpos⟩ := hw.reader hup
      refine ⟨b, hb, h1, ?_⟩
      show b.start + b.read.length = y.sequence + 1 + wire.length
      rw [hyseq, hpos, List.length_cons]
      omega
  | false =>
    -- the write was rejected, or its commit failed, and the state records that the commit was to fail
    rcases Datastore.apply_quiet hR h.quiet op true false with ⟨e, he, -, -⟩ | ⟨_, _, -, hf, -⟩
    · rcases hx : r.follower.apply crud enc op true false with ⟨y, f⟩
      rw [hx] at he hs
      cases he
      cases hs
      have hfailed := (Bool.or_eq_false_iff.1 hc).2
      cases hfailed
    · cases hf

theorem Agrees.step (hR : Replayable crud enc) {r r' : Replica T V} {e : FollowEvent V} (h : r.Agrees crud enc t₀)
    (ha : r.Admitted e) (hs : Replica.step crud enc tr r e = some r') (hl : r'.snapshotLoaded = false)
    (hc : r'.commitFailed = false) : r'.Agrees crud enc t₀ := by
  unfold Replica.step at hs
  split at hs
  · exact h.primaryStep hR ha hs hc
  · cases hs; exact ⟨h.primary, h.history, h.follower, h.quiet, rfl⟩
  · rename_i hph; exact h.subscribeStep hR hph hs hc
  · exact h.snapshotStep hs hl
  · rename_i hph; exact h.fetchStep hR hph hs
  · rename_i hph; exact h.deliverStep hR hph hs hc
  · rename_i keep ch wire hph
    cases hs
    refine ⟨h.primary, h.history, h.follower, h.quiet, ⟨?_, fun hup => by cases hup⟩⟩
    have hw := h.phase
    rw [hph] at hw
    have := List.forall₂_take keep hw.rows
    rw [List.take_take] at this
    show Encodes enc (wire.take keep) (List.take (wire.take keep).length _)
    rw [List.length_take]
    exact this
  · cases hs; exact ⟨h.primary, h.history, h.follower, h.quiet, trivial⟩
  · cases hs; exact ⟨h.primary, h.history, h.follower, h.quiet, trivial⟩
  · cases hs

/-- No snapshot was loaded, and no commit has failed. -/
def Clean (r : Replica T V) : Prop := r.snapshotLoaded = false ∧ r.commitFailed = false

theorem returned_clean {r r' : Replica T V} {commit : Bool} {ok : Replica T V → Replica T V}
    (hok : ∀ x, (ok x).Clean → x.Clean) {x : Outcome Error Unit × Datastore T V} (hs : r.returned commit ok x = some r')
    (h : r'.Clean) : r.Clean := by
  obtain ⟨(_ | e | _ | _), f⟩ := x
  · cases hs; exact hok { r with follower := f } h
  · cases hs; exact ⟨h.1, (Bool.or_eq_false_iff.1 h.2).1⟩
  · cases hs; exact h
  · cases hs

/-- A clean state comes from a clean one. -/
theorem step_clean {r r' : Replica T V} {e : FollowEvent V}
    (hs : Replica.step crud enc tr r e = some r') (h : r'.Clean) : r.Clean := by
  unfold Replica.step at hs
  split at hs
  · obtain ⟨n, -, rfl⟩ := Option.map_eq_some_iff.1 hs
    exact ⟨h.1, (Bool.or_eq_false_iff.1 h.2).1⟩
  · cases hs; exact h
  · obtain ⟨n, -, rfl⟩ := Option.map_eq_some_iff.1 hs
    exact ⟨h.1, (Bool.or_eq_false_iff.1 h.2).1⟩
  · rw [snapshotStep_eq (snapshotStep_some hs)] at hs
    split at hs
    · exact returned_clean (fun x hx => by cases hx.1) hs h
    · cases hs; exact h
    · cases hs
    · cases hs
  · unfold Replica.fetchStep at hs
    split at hs
    · cases hs
    · split at hs
      · cases hs
      · obtain ⟨n, -, rfl⟩ := Option.map_eq_some_iff.1 hs; exact h
  · refine returned_clean ?_ hs h
    intro x hx
    exact hx
  · cases hs; exact h
  · cases hs; exact h
  · cases hs; exact h
  · cases hs

/-- In every clean state that is reached, the follower agrees with its primary. -/
theorem Agrees.reach (hR : Replayable crud enc) {r : Replica T V}
    (h : (Replica.system crud enc tr).Reach Admitted (Replica.fresh t₀) r) (hc : r.Clean) : r.Agrees crud enc t₀ := by
  refine h.invariant (I := fun r => r.Clean → r.Agrees crud enc t₀) (fun _ => .fresh crud enc t₀) ?_ hc
  intro r e r' hi ha hs hc'
  exact (hi (step_clean hs hc')).step hR ha hs hc'.1 hc'.2

end Replica

end Wig.Crudlog
