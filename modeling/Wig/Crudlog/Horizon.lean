/-
The preload of a subscription against the numbers it stands for. `Subscribe` compares the starting
number with the upper end of the log only, while `LoadSnapshot` moves the sequence without writing a
row; so that a subscription may be accepted although the log does not reach back to its start.
-/
import Wig.Crudlog.Stream

namespace Wig.Crudlog

open Wig.Lib Wig.Crud

variable {T V : Type} {crud : CRUD T V} {enc : Encoding V}

/-! ## Preloads without a hole -/

/-- The log has every number from `start` to the current sequence. -/
def Database.ReachesBack (d : Database T) (start : Nat) : Prop :=
  ∀ k, max start 1 ≤ k → k ≤ d.sequence → k ∈ d.log.keys

/-- A subscription that is accepted preloads one operation for each number from its start to the
current sequence, and one that the log does not reach back to is refused. -/
structure Datastore.NoHole (enc : Encoding V) (s : Datastore T V) (start : Nat) : Prop where
  preload : ∀ sub, (s.subscribe enc start true).1 = .ok sub →
    sub.preload.map Op.seq = List.range' (max start 1) (s.db.sequence + 1 - max start 1)
  horizon : ¬ s.db.ReachesBack start → (s.subscribe enc start true).1 = .err .horizon

namespace Database

/-- Every row of the log is one of an operation, under a number the column can hold. -/
structure WellLogged (enc : Encoding V) (d : Database T) : Prop where
  encoded : ∀ row ∈ d.log.rows, ∃ op : Op V, op.serialize enc = .ok row
  seq_lt : ∀ k ∈ d.log.keys, k < 2 ^ 63

theorem WellLogged.fresh (enc : Encoding V) (t : T) : (Database.fresh t).WellLogged enc :=
  ⟨fun _ h => (List.not_mem_nil h).elim, fun _ h => (List.not_mem_nil h).elim⟩

theorem keys_recorded {d d' : Database T} {op : Op V} {row : OpSerialized} (hr : Recorded crud enc op row d d') :
    d'.log.keys = d.log.keys ++ [op.seq] := by
  unfold Table.keys
  rw [hr.rows, List.map_append, List.map_singleton, (Op.serialize_eq_ok hr.serialized).2.1]

theorem WellLogged.recorded {d d' : Database T} {op : Op V} {row : OpSerialized} (h : d.WellLogged enc)
    (hr : Recorded crud enc op row d d') : d'.WellLogged enc := by
  refine ⟨?_, ?_⟩
  · intro x hx
    rcases hr.mem_rows.1 hx with hx | rfl
    · exact h.encoded x hx
    · exact ⟨op, hr.serialized⟩
  · intro k hk
    rw [keys_recorded hr, List.mem_append, List.mem_singleton] at hk
    rcases hk with hk | rfl
    · exact h.seq_lt k hk
    · exact hr.seq_lt

theorem decode_seq {row : OpSerialized} {op : Op V} (hd : row.decode enc = .ok op) : row.seq = op.seq := by
  unfold OpSerialized.decode at hd
  cases hu : enc.unmarshalValue row.value with
  | error e => rw [hu] at hd; cases hd
  | ok v => rw [hu] at hd; cases hd; rfl

theorem mapM_decode_seq {rows : List OpSerialized} {ops : List (Op V)}
    (h : rows.mapM (OpSerialized.decode enc) = .ok ops) : ops.map Op.seq = rows.map OpSerialized.seq := by
  have hseq : rows.map OpSerialized.seq = ops.map Op.seq :=
    map_eq_of_forall₂ (fun _ _ hd => decode_seq hd) (mapM_eq_ok_iff.1 h)
  exact hseq.symm

theorem mem_rowsSince {d : Database T} {start k : Nat} :
    k ∈ (d.rowsSince start).map OpSerialized.seq ↔ k ∈ d.log.keys ∧ start ≤ k := by
  unfold rowsSince Table.keys
  rw [List.mem_map, List.mem_map]
  constructor
  · rintro ⟨row, hr, rfl⟩
    rw [List.mem_insertionSort, List.mem_filter] at hr
    exact ⟨⟨row, hr.1, rfl⟩, by simpa using hr.2⟩
  · rintro ⟨⟨row, hr, rfl⟩, hs⟩
    refine ⟨row, ?_, rfl⟩
    rw [List.mem_insertionSort, List.mem_filter]
    exact ⟨hr, by simpa using hs⟩

theorem pairwise_rowsSince (d : Database T) (start : Nat) :
    ((d.rowsSince start).map OpSerialized.seq).Pairwise (· ≤ ·) := by
  rw [List.pairwise_map]
  exact List.pairwise_insertionSort (fun r r' : OpSerialized => r.seq ≤ r'.seq) _

theorem nodup_rowsSince (d : Database T) (start : Nat) : ((d.rowsSince start).map OpSerialized.seq).Nodup := by
  have hperm := (List.perm_insertionSort (fun r r' : OpSerialized => r.seq ≤ r'.seq)
    (d.log.rows.filter fun r => decide (start ≤ r.seq))).map OpSerialized.seq
  exact hperm.nodup_iff.2 (d.log.nodup.sublist (List.filter_sublist.map _))

/-- The numbers of the preload are those of a range, when the log has just these from the start on. -/
theorem rowsSince_eq_range {d : Database T} {start : Nat}
    (h : ∀ k, start ≤ k → (k ∈ d.log.keys ↔ 1 ≤ k ∧ k ≤ d.sequence)) :
    (d.rowsSince start).map OpSerialized.seq = List.range' (max start 1) (d.sequence + 1 - max start 1) := by
  refine List.Perm.eq_of_pairwise (fun _ _ _ _ => Nat.le_antisymm) (d.pairwise_rowsSince start)
    List.pairwise_le_range' ?_
  refine (List.perm_ext_iff_of_nodup (d.nodup_rowsSince start) List.nodup_range').2 ?_
  intro k
  rw [mem_rowsSince, List.mem_range'_1]
  constructor
  · rintro ⟨hk, hs⟩
    have := (h k hs).1 hk
    omega
  · intro hk
    exact ⟨(h k (by omega)).2 (by omega), by omega⟩

end Database

/-- What an encoding writes, it reads. -/
def ReadsBack (enc : Encoding V) : Prop := ∀ v b, enc.marshalValue v = .ok b → ∃ v', enc.unmarshalValue b = .ok v'

theorem mapM_decode_total (hR : ReadsBack enc) (rows : List OpSerialized)
    (h : ∀ row ∈ rows, ∃ op : Op V, op.serialize enc = .ok row) :
    ∃ ops, rows.mapM (OpSerialized.decode enc) = .ok ops := by
  refine exists_mapM_ok_iff.2 fun row hr => ?_
  obtain ⟨op, hop⟩ := h row hr
  obtain ⟨v, hv⟩ := hR _ _ (Op.serialize_eq_ok hop).1
  exact ⟨⟨row.seq, row.type, row.timestamp, v⟩, by unfold OpSerialized.decode; rw [hv]; rfl⟩

namespace Datastore

/-- A subscription from a number the column can hold, and not past the end, is accepted with the rows from there on. -/
theorem subscribe_accepted (hR : ReadsBack enc) {s : Datastore T V} (hw : s.db.WellLogged enc) {start : Nat}
    (hs : start ≤ s.db.sequence + 1) (hlt : start < 2 ^ 63) :
    ∃ sub, (s.subscribe enc start true).1 = .ok sub ∧
      sub.preload.map Op.seq = (s.db.rowsSince start).map OpSerialized.seq := by
  obtain ⟨ops, ho⟩ := mapM_decode_total hR (s.db.rowsSince start) fun row hr =>
    hw.encoded row (List.mem_filter.1 (List.mem_insertionSort _ |>.1 hr)).1
  have hq : s.db.queryLogSince enc start = .ok ops := by unfold Database.queryLogSince; rw [if_pos hlt, ho]
  refine ⟨⟨ops, s.pubsub.next⟩, ?_, Database.mapM_decode_seq ho⟩
  have heq := subscribeTx_eq enc start s
  rw [if_neg (by omega), hq] at heq
  unfold subscribe
  rw [withTransaction_ok heq]; rfl

/-- One past the end is refused. -/
theorem subscribe_past {s : Datastore T V} {start : Nat} (hs : s.db.sequence + 1 < start) (commit : Bool) :
    s.subscribe enc start commit = (.err .horizon, s) := by
  have heq := subscribeTx_eq enc start s
  rw [if_pos hs] at heq
  unfold subscribe
  rw [withTransaction_err heq]

/-- So is one from the one number that is not past the end and does not fit the column. -/
theorem subscribe_highBit {s : Datastore T V} {start : Nat} (hs : start ≤ s.db.sequence + 1) (hbit : 2 ^ 63 ≤ start)
    (commit : Bool) : s.subscribe enc start commit = (.err .highBit, s) := by
  have hq : s.db.queryLogSince enc start = .error .highBit := if_neg (Nat.not_lt.2 hbit)
  have heq := subscribeTx_eq enc start s
  rw [if_neg (Nat.not_lt.2 hs), hq] at heq
  unfold subscribe
  rw [withTransaction_err heq]

/-- A subscription has no hole exactly when it starts past the end, or the log has the numbers up to
the current sequence and no others from the start on. -/
theorem noHole_iff (hR : ReadsBack enc) {s : Datastore T V} (hw : s.db.WellLogged enc) (start : Nat) :
    s.NoHole enc start ↔
      s.db.sequence + 1 < start ∨ ∀ k, start ≤ k → (k ∈ s.db.log.keys ↔ 1 ≤ k ∧ k ≤ s.db.sequence) := by
  have hseq := s.db.sequence_lt
  by_cases hs : s.db.sequence + 1 < start
  · -- past the end: refused
    have hhor : (s.subscribe enc start true).1 = .err .horizon := congrArg Prod.fst (subscribe_past hs true)
    exact ⟨fun _ => .inl hs, fun _ => ⟨fun sub h => (by rw [hhor] at h; cases h), fun _ => hhor⟩⟩
  · have hle : start ≤ s.db.sequence + 1 := Nat.le_of_not_lt hs
    by_cases hlt : start < 2 ^ 63
    · obtain ⟨sub, hok, hpre⟩ := subscribe_accepted hR hw hle hlt
      constructor
      · intro h
        refine .inr fun k hk => ?_
        have hrange := h.preload sub hok
        rw [hpre] at hrange
        have hmem : k ∈ (s.db.rowsSince start).map OpSerialized.seq ↔ k ∈ s.db.log.keys ∧ start ≤ k :=
          Database.mem_rowsSince
        rw [hrange, List.mem_range'_1] at hmem
        constructor
        · intro hkey
          have := hmem.2 ⟨hkey, hk⟩
          omega
        · intro hb
          exact (hmem.1 (by omega)).1
      · rintro (h | h)
        · exact absurd h hs
        · refine ⟨?_, ?_⟩
          · intro sub' hok'
            rw [hok] at hok'; cases hok'
            rw [hpre, Database.rowsSince_eq_range h]
          · intro hback
            exact absurd (fun k h1 h2 => (h k (by omega)).2 (by omega)) hback
    · -- the one number that is neither past the end nor fits the column
      have hno : ∀ k, start ≤ k → ¬ (1 ≤ k ∧ k ≤ s.db.sequence) := fun k hk hb => by omega
      constructor
      · intro _
        refine .inr fun k hk => ⟨fun hkey => ?_, fun hb => absurd hb (hno k hk)⟩
        have := hw.seq_lt k hkey
        omega
      · intro _
        refine ⟨?_, fun hback => absurd (fun k h1 h2 => absurd ⟨by omega, h2⟩ (hno k (by omega))) hback⟩
        intro sub hok
        rw [subscribe_highBit hle (Nat.le_of_not_lt hlt)] at hok
        cases hok

end Datastore

/-! ## Runs with snapshots -/

/-- A node, and the number of the last snapshot that moved its sequence, 0 if there was none. -/
structure Watched (T V : Type) where
  node : Node T V
  base : Nat

namespace Watched

def start (d : Database T) : Watched T V := ⟨Node.start (Datastore.wrap d), 0⟩

def baseAfter (w : Watched T V) (e : Event V) (n' : Node T V) : Nat :=
  match e with
  | .loadSnapshot _ _ => if n'.store.db.sequence = w.node.store.db.sequence then w.base else n'.store.db.sequence
  | _ => w.base

def step (crud : CRUD T V) (enc : Encoding V) (w : Watched T V) (e : Event V) : Option (Watched T V) :=
  (Node.step crud enc w.node e).map fun n' => ⟨n', w.baseAfter e n'⟩

def system (crud : CRUD T V) (enc : Encoding V) : System (Watched T V) (Event V) := ⟨step crud enc⟩

/-- Operations from a log come with the next number, and no snapshot is older than the datastore. -/
def InSequence (w : Watched T V) : Event V → Prop
  | .apply op fromLog => fromLog = true → op.seq = w.node.store.db.sequence + 1
  | .loadSnapshot snap _ => w.node.store.db.sequence ≤ snap.seq
  | _ => True

/-- The log is complete above the last snapshot, whose own number it lacks. -/
structure Gapped (crud : CRUD T V) (enc : Encoding V) (w : Watched T V) : Prop where
  ordered : w.node.Ordered
  writing : w.node.Writing crud enc
  next : ∀ m, w.node.emission = some m → m.op.seq = w.node.store.db.sequence + 1
  logged : w.node.store.db.WellLogged enc
  keys_le : ∀ k ∈ w.node.store.db.log.keys, 1 ≤ k ∧ k ≤ w.node.store.db.sequence
  filled : ∀ k, w.base < k → k ≤ w.node.store.db.sequence → k ∈ w.node.store.db.log.keys
  base_le : w.base ≤ w.node.store.db.sequence
  missing : w.base ≠ 0 → w.base ∉ w.node.store.db.log.keys

theorem Gapped.start (crud : CRUD T V) (enc : Encoding V) (t : T) :
    (Watched.start (Database.fresh t) : Watched T V).Gapped crud enc :=
  ⟨.start _, Node.writing_of_none rfl, fun _ h => (by cases h), .fresh enc t,
    fun _ h => (List.not_mem_nil h).elim, fun k h h' => (by
    have h1 : 0 < k := h
    have h2 : k ≤ 0 := h'
    omega), Nat.le_refl _, fun h => absurd rfl h⟩

/-- What depends on the database only is kept with it. -/
theorem Gapped.of_db {w w' : Watched T V} (h : w.Gapped crud enc) (ho : w'.node.Ordered) (hw : w'.node.Writing crud enc)
    (hn : ∀ m, w'.node.emission = some m → m.op.seq = w.node.store.db.sequence + 1)
    (hd : w'.node.store.db = w.node.store.db) (hb : w'.base = w.base) : w'.Gapped crud enc := by
  obtain ⟨-, -, -, h2, h3, h4, h5, h6⟩ := h
  exact ⟨ho, hw, hd ▸ hn, hd ▸ h2, hd ▸ h3,
    by rw [hd, hb]; exact h4, by rw [hd, hb]; exact h5, by rw [hd, hb]; exact h6⟩

theorem Gapped.committed {w : Watched T V} (h : w.Gapped crud enc) {m : Emission T V} (hm : w.node.emission = some m)
    (ho : Node.Ordered { w.node with store := ⟨m.db, w.node.store.pubsub⟩, emission := none }) :
    Gapped crud enc ⟨{ w.node with store := ⟨m.db, w.node.store.pubsub⟩, emission := none }, w.base⟩ := by
  obtain ⟨row, hr⟩ := h.writing m hm
  have hs := h.next m hm
  have hkeys := Database.keys_recorded hr
  have hseq : m.db.sequence = w.node.store.db.sequence + 1 := hr.sequence.trans hs
  have hmem : ∀ k, k ∈ m.db.log.keys ↔ k ∈ w.node.store.db.log.keys ∨ k = w.node.store.db.sequence + 1 := by
    intro k; rw [hkeys, List.mem_append, List.mem_singleton, hs]
  have hbase := h.base_le
  refine ⟨ho, Node.writing_of_none rfl, fun _ hm' => (by cases hm'), h.logged.recorded hr, ?_, ?_, ?_, ?_⟩
  · intro k hk
    show 1 ≤ k ∧ k ≤ m.db.sequence
    rcases (hmem k).1 hk with hk | rfl
    · have := h.keys_le k hk
      omega
    · omega
  · intro k hlo hhi
    have hhi : k ≤ m.db.sequence := hhi
    refine (hmem k).2 ?_
    by_cases hk : k = w.node.store.db.sequence + 1
    · exact .inr hk
    · exact .inl (h.filled k hlo (by omega))
  · show w.base ≤ m.db.sequence
    omega
  · intro hb hk
    rcases (hmem _).1 hk with hk | hk
    · exact h.missing hb hk
    · have hk : w.base = w.node.store.db.sequence + 1 := hk
      omega

theorem Gapped.loaded {w : Watched T V} (h : w.Gapped crud enc) (hm : w.node.emission = none) {d' : Database T}
    (hl : d'.log = w.node.store.db.log) (hs : w.node.store.db.sequence ≤ d'.sequence)
    {snap : Snapshot V} {commit : Bool} (ho : Node.Ordered { w.node with store := ⟨d', w.node.store.pubsub⟩ }) :
    Gapped crud enc ⟨{ w.node with store := ⟨d', w.node.store.pubsub⟩ },
      w.baseAfter (.loadSnapshot snap commit) { w.node with store := ⟨d', w.node.store.pubsub⟩ }⟩ := by
  have hkeys : d'.log.keys = w.node.store.db.log.keys := by rw [hl]
  have hbase := h.base_le
  have hafter : w.baseAfter (.loadSnapshot snap commit) { w.node with store := ⟨d', w.node.store.pubsub⟩ } =
      if d'.sequence = w.node.store.db.sequence then w.base else d'.sequence := rfl
  have hnone : ∀ m, w.node.emission = some m → m.op.seq = d'.sequence + 1 := fun m hm' => by rw [hm] at hm'; cases hm'
  rw [hafter]
  refine ⟨ho, Node.writing_of_none hm, hnone, ⟨by rw [hl]; exact h.logged.encoded, by rw [hl]; exact h.logged.seq_lt⟩,
    ?_, ?_, ?_, ?_⟩
  · intro k hk
    show 1 ≤ k ∧ k ≤ d'.sequence
    have := h.keys_le k (hkeys ▸ hk)
    omega
  · intro k hlo hhi
    have hhi : k ≤ d'.sequence := hhi
    show k ∈ d'.log.keys
    rw [hkeys]
    split at hlo
    · rename_i heq
      exact h.filled k hlo (by omega)
    · have hlo : d'.sequence < k := hlo
      omega
  · show (if _ then _ else _) ≤ d'.sequence
    split
    · omega
    · exact Nat.le_refl _
  · show (if _ then _ else _) ≠ 0 → (if _ then _ else _) ∉ d'.log.keys
    rw [hkeys]
    split
    · exact h.missing
    · rename_i hne
      intro _ hk
      have := (h.keys_le _ hk).2
      omega

theorem Gapped.step {w w' : Watched T V} {e : Event V} (h : w.Gapped crud enc) (he : w.InSequence e)
    (hs : Watched.step crud enc w e = some w') : w'.Gapped crud enc := by
  obtain ⟨n', hn, rfl⟩ := Option.map_eq_some_iff.1 hs
  have ho := h.ordered.step hn
  obtain ⟨-, hst⟩ := h.ordered.cases hn
  have hw := hst.writing h.writing
  cases hst with
  | unchanged =>
    refine h.of_db ho hw h.next rfl ?_
    cases e <;> simp [baseAfter]
  | crashed e p hm hp hcause =>
    refine h.of_db ho hw h.next rfl ?_
    cases e <;> simp [baseAfter]
  -- from the log the operation brings its number; otherwise the store assigns the next one
  | written op fromLog row d' hm hr =>
    refine h.of_db ho hw ?_ rfl rfl
    intro m hm'
    cases hm'
    cases fromLog with
    | true => exact he rfl
    | false => exact Database.getNextSequence_eq _
  | sent m ch unsent hm hu =>
    refine h.of_db ho hw ?_ rfl rfl
    intro m' hm'
    cases hm'
    exact h.next m hm
  | committed m hm hu => exact h.committed hm ho
  | lost m hm hu => exact h.of_db ho hw (fun m' hm' => by cases hm') rfl rfl
  -- the sequence jumps over rows the log never gets: this is where a gap opens
  | loaded snap commit d' hm hl hq => exact h.loaded hm hl (hq ▸ he) ho
  | subscribed start preload hm hle hq => exact h.of_db ho hw h.next rfl rfl
  | leaked start hm => exact h.of_db ho hw h.next rfl rfl
  | moved e n' ch b b' hb hm hr =>
    refine h.of_db ho hw (fun m hm' => h.next m (hm.emission ▸ hm')) hm.db ?_
    cases e <;> simp [baseAfter, hm.db]
  | closed ch b hb hu => exact h.of_db ho hw h.next rfl rfl

theorem Gapped.reach (t : T) {w : Watched T V}
    (h : (Watched.system crud enc).Reach InSequence (Watched.start (Database.fresh t)) w) : w.Gapped crud enc :=
  h.invariant (.start crud enc t) fun _ _ _ hi he hs => hi.step he hs

/-- Above the last snapshot a subscription has no hole, and from its number down it has one. -/
theorem Gapped.noHole_iff (hR : ReadsBack enc) {w : Watched T V} (h : w.Gapped crud enc) (start : Nat) :
    w.node.store.NoHole enc start ↔ w.base = 0 ∨ w.base < start := by
  rw [Datastore.noHole_iff hR h.logged start]
  have hbase := h.base_le
  constructor
  · rintro (hs | hk)
    · right; omega
    · by_contra hno
      have hb : w.base ≠ 0 ∧ start ≤ w.base := by omega
      exact h.missing hb.1 ((hk w.base hb.2).2 (by omega))
  · intro hb
    refine .inr fun k hk => ⟨h.keys_le k, fun hle => h.filled k ?_ hle.2⟩
    omega

end Watched

end Wig.Crudlog
