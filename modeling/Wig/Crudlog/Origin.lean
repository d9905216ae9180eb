/-
The node where operations begin, measured against its own history: the databases it has committed, and
at last the one of an `Apply` in progress. Every event of a primary keeps the node a source of these
operations, and what is on its way to a follower goes on from the follower's number.
-/
import Wig.Crudlog.Source

namespace Wig.Crudlog

open Wig.Lib Wig.Crud

variable {T V : Type} {crud : CRUD T V} {enc : Encoding V} {t₀ : T} {Good : T → Prop}

/-- A primary whose committed databases are `hist`. -/
structure Node.Origin (crud : CRUD T V) (enc : Encoding V) (t₀ : T) (Good : T → Prop)
    (hist : List (Database T)) (n : Node T V) :
    Prop where
  source : n.Source (n.known hist) n.ahead.log.rows
  timeline : Timeline crud enc t₀ Good (n.known hist) n.ahead
  integral : n.store.db.Integral crud enc t₀
  writing : n.Writing crud enc
  next : ∀ m, n.emission = some m → m.op.seq = n.store.db.sequence + 1

namespace Node.Origin

variable {hist : List (Database T)} {n n' : Node T V} {e : Event V}

theorem fresh (crud : CRUD T V) (enc : Encoding V) (h₀ : Good t₀) :
    (Node.start (Datastore.wrap (Database.fresh t₀)) : Node T V).Origin crud enc t₀ Good [Database.fresh t₀] :=
  ⟨.start (Timeline.fresh crud enc h₀).at_last fun _ hr => (List.not_mem_nil hr).elim,
    .fresh crud enc h₀, .fresh crud enc t₀, writing_of_none rfl, fun _ hm => by cases hm⟩

/-- A process that is started again on the database, with no `Apply` in progress. -/
theorem restart (h : n.Origin crud enc t₀ Good hist) (hm : n.emission = none) :
    (Node.start (Datastore.wrap n.store.db) : Node T V).Origin crud enc t₀ Good hist := by
  have hsrc := h.source
  have hT := h.timeline
  rw [known_of_none hm, ahead_of_none hm] at hsrc hT
  exact ⟨by rw [known_of_none rfl, ahead_of_none rfl]; exact .start hsrc.tables hsrc.logged,
    by rw [known_of_none rfl, ahead_of_none rfl]; exact hT, h.integral, writing_of_none rfl, fun _ hm' => by cases hm'⟩

/-- Serving changes neither the database nor the `Apply` in progress. -/
theorem served (h : n.Origin crud enc t₀ Good hist) (hsrc : n'.Source (n.known hist) n.ahead.log.rows)
    (hdb : n'.store.db = n.store.db) (hm : n'.emission = n.emission) :
    n'.Origin crud enc t₀ Good hist ∧ n'.known hist = n.known hist ∧ n'.ahead = n.ahead := by
  have hknown : n'.known hist = n.known hist := by
    unfold Node.known
    rw [hm]
  have hahead : n'.ahead = n.ahead := by
    unfold Node.ahead
    rw [hm, hdb]
  refine ⟨⟨by rw [hknown, hahead]; exact hsrc, by rw [hknown, hahead]; exact h.timeline, hdb ▸ h.integral, ?_, ?_⟩,
    hknown, hahead⟩
  · intro m hm'
    rw [hdb]
    exact h.writing m (hm ▸ hm')
  · intro m hm'
    rw [hdb]
    exact h.next m (hm ▸ hm')

/-- The row of the operation in progress comes after those committed. -/
theorem row (h : n.Origin crud enc t₀ Good hist) {m : Emission T V} (hm : n.emission = some m) :
    ∃ row, n.ahead.log.rows[n.store.db.sequence]? = some row ∧ m.op.serialize enc = .ok row ∧
      m.db.sequence = n.store.db.sequence + 1 := by
  obtain ⟨row, hr⟩ := h.writing m hm
  refine ⟨row, ?_, hr.serialized, hr.sequence.trans (h.next m hm)⟩
  rw [ahead_of_some hm, hr.rows, ← h.integral.length_rows]
  exact List.getElem?_concat_length

/-- The log reaches back to every number. -/
theorem reachesBack (h : n.Origin crud enc t₀ Good hist) (start : Nat) : n.store.db.ReachesBack start :=
  fun k hk hle => (h.integral.mem_keys k).2 ⟨by omega, hle⟩

theorem stepped (hs : Node.step crud enc n e = some n') (h : n.Origin crud enc t₀ Good hist) :
    Stepped crud enc n e n' :=
  (step_cases h.source.live h.source.unsent hs).2

/-- Writes are seen once they are committed: until then the database is the one that was there. -/
theorem db_cases (he : n.PrimaryEvent e) (hst : Stepped crud enc n e n') :
    n'.store.db = n.store.db ∨ n'.store.db = n.ahead ∧ n'.ahead = n.ahead := by
  cases hst with
  | committed m hm hu => exact .inr ⟨(ahead_of_some hm).symm, (ahead_of_none rfl).trans (ahead_of_some hm).symm⟩
  | loaded snap commit d' hm hl hq => exact he.elim
  | moved e n' ch b b' hb hm hr => exact .inl hm.db
  | _ => exact .inl rfl

/-- The databases and the rows only grow. -/
theorem grows (h : n.Origin crud enc t₀ Good hist) (he : n.PrimaryEvent e) (hst : Stepped crud enc n e n') :
    ∃ hist' rows', n'.known (n.grown n' hist) = n.known hist ++ hist' ∧
      n'.ahead.log.rows = n.ahead.log.rows ++ rows' := by
  rcases hst.known he h.writing h.next hist with ⟨hk, ha⟩ | ⟨op, row, -, -, hr, hk⟩
  · exact ⟨[], [], by rw [hk, List.append_nil], by rw [ha, List.append_nil]⟩
  · exact ⟨[n'.ahead], [row], hk, hr.rows⟩

/-- An event of a primary takes the origin of one history to that of the next. -/
theorem step (hR : Replayable crud enc) (hG : ∀ op t t', Good t → applyOp crud op t = (.ok (), t') → Good t')
    (h : n.Origin crud enc t₀ Good hist) (he : n.PrimaryEvent e) (hs : Node.step crud enc n e = some n') :
    n'.Origin crud enc t₀ Good (n.grown n' hist) := by
  have hst := h.stepped hs
  have halive : n'.crashed = false := h.source.toWired.not_crashed hR (by rintro snap commit rfl; exact he) hst
  have hw : n'.Wired := h.source.toWired.step hst halive (by rintro ch b rfl hb; exact he b hb)
  have hT : Timeline crud enc t₀ Good (n'.known (n.grown n' hist)) n'.ahead := by
    rcases hst.known he h.writing h.next hist with ⟨hk, ha⟩ | ⟨op, row, -, -, hr, hk⟩
    · rw [hk, ha]
      exact h.timeline
    · rw [hk]
      exact h.timeline.write hR hG hr (Database.getNextSequence_eq _)
  obtain ⟨hist', rows', hhist, hrows⟩ := h.grows he hst
  rcases db_cases he hst with hdb | ⟨hdb, hahead⟩
  · refine ⟨⟨hw, ?_, ?_⟩, hT, hdb ▸ h.integral, hst.writing h.writing, hst.next he h.next⟩
    · rw [hdb, hhist]
      exact h.source.tables.append hist'
    · rw [hdb, hrows]
      exact (h.source.extend hist' rows').logged
  · refine ⟨⟨hw, ?_, ?_⟩, hT, ?_, hst.writing h.writing, hst.next he h.next⟩
    · rw [hdb, ← hahead]
      exact hT.at_last
    · rw [hdb, ← hahead]
      exact fun row hrow => hT.getElem?_row hrow
    · rw [hdb]
      exact h.timeline.integral

/-- What is on its way to a follower goes on, unless its own reader takes it. -/
theorem feed (hR : Replayable crud enc) (h : n.Origin crud enc t₀ Good hist) (he : n.PrimaryEvent e)
    (hs : Node.step crud enc n e = some n') {f ch : Nat} {wire : List (Op V)} {up : Bool}
    (hread : up = true → e ≠ .read ch) (hf : Feed enc n.ahead.log.rows n f ch wire up) :
    Feed enc n'.ahead.log.rows n' f ch wire up := by
  have hst := h.stepped hs
  have halive : n'.crashed = false := h.source.toWired.not_crashed hR (by rintro snap commit rfl; exact he) hst
  have hserve : n.ServerEvent e → Feed enc n'.ahead.log.rows n' f ch wire up := by
    intro hse
    obtain ⟨-, hdb, hem, hkept⟩ := h.source.serve hse hs
    have hahead : n'.ahead = n.ahead := by
      unfold Node.ahead
      rw [hdb, hem]
    rw [hahead]
    exact hf.kept fun hup b hb => hkept ch b hb (hread hup)
  cases hst with
  | unchanged => exact hf
  | crashed e p hm hp hw => cases halive
  | written op fromLog row d' hm hr =>
    have hrows : d'.log.rows = n.ahead.log.rows ++ [row] := by rw [ahead_of_none hm]; exact hr.rows
    rw [ahead_of_some rfl, hrows]
    exact (hf.extend [row]).written h.source.toWired hm _ d'
  | sent m c unsent hm hu =>
    obtain ⟨row, hrow, ho, hseq⟩ := h.row hm
    rw [ahead_of_some hm] at hf hrow
    rw [ahead_of_some rfl]
    exact hf.sent h.source.toWired hm hu hrow ho hseq
  | committed m hm hu =>
    rw [ahead_of_some hm] at hf
    rw [ahead_of_none rfl]
    exact hf.committed hm hu
  | lost m hm hu => exact absurd he Bool.false_ne_true
  | loaded snap commit d' hm hl hq => exact he.elim
  | subscribed start preload hm hle hq => exact hserve he
  | leaked start hm => exact absurd he Bool.false_ne_true
  | moved e n' c b b' hb hm hr hmove => rcases hmove with rfl | rfl <;> exact hserve trivial
  | closed c b hb hu => exact hserve he

end Node.Origin

end Wig.Crudlog
