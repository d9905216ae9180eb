/-
A primary restored from an older backup, and a follower that was ahead of it. The follower asks for
the operation after its own sequence, and all that tells the two histories apart is how far the new
one has come.
-/
import Wig.Crudlog.Agreement
import Wig.Crudlog.Horizon
import Wig.Store.Copy

namespace Wig.Store

open Wig.Lib Wig.Crud Wig.Model Wig.Crudlog

variable {T V : Type} {crud : CRUD T V} {enc : Encoding V} {t₀ : T}

/-! ## Histories -/

/-- The database after requests on one that was just opened. -/
def written (crud : CRUD T V) (enc : Encoding V) (d : Database T) (reqs : List (Request V)) : Database T :=
  (Datastore.requests crud enc reqs (Datastore.wrap d)).2.db

/-- Requests add rows at the end of the log. -/
theorem requests_rows (hR : Replayable crud enc) : ∀ (rs : List (Request V)) {s : Datastore T V}, s.pubsub.Quiet →
    ∃ more, (Datastore.requests crud enc rs s).2.db.log.rows = s.db.log.rows ++ more
  | [], s, _ => ⟨[], (List.append_nil _).symm⟩
  | r :: rs, s, hq => by
    rcases Datastore.apply_quiet hR hq (r.call.newOp r.now) false r.commit with ⟨e, -, hdb, hq'⟩ | ⟨row, d', hrec, -, h⟩
    · obtain ⟨more, hmore⟩ := requests_rows hR rs (s := (Datastore.request crud enc r s).2) hq'
      rw [Datastore.request, hdb] at hmore
      exact ⟨more, hmore⟩
    · have hnext : Datastore.request crud enc r s = (.ok (), ⟨d', _⟩) := h
      obtain ⟨more, hmore⟩ :=
        requests_rows hR rs (s := (Datastore.request crud enc r s).2) (by rw [hnext]; exact hq.emitted _)
      rw [hnext] at hmore
      refine ⟨row :: more, ?_⟩
      show (Datastore.requests crud enc rs (Datastore.request crud enc r s).2).2.db.log.rows = _
      rw [hnext, hmore, hrec.rows, List.append_assoc]
      rfl

section Written

variable (hR : Replayable crud enc)
include hR

theorem written_integral {d : Database T} (hd : d.Integral crud enc t₀) (reqs : List (Request V)) :
    (written crud enc d reqs).Integral crud enc t₀ :=
  (Datastore.requests_spec hR reqs (s := Datastore.wrap d) Pubsub.Quiet.new hd).2.1

theorem written_rows (d : Database T) (reqs : List (Request V)) :
    ∃ more, (written crud enc d reqs).log.rows = d.log.rows ++ more :=
  requests_rows hR reqs (s := Datastore.wrap d) Pubsub.Quiet.new

/-- The first rows of a later log, replayed, go through the tables of the backup. -/
theorem replay_take_written {d : Database T} (hd : d.Integral crud enc t₀) (reqs : List (Request V)) {f : Nat}
    (hf : d.sequence ≤ f) :
    replay crud enc ((written crud enc d reqs).log.rows.take f) t₀ =
      replay crud enc (((written crud enc d reqs).log.rows.drop d.sequence).take (f - d.sequence)) d.tables := by
  obtain ⟨more, hmore⟩ := written_rows hR d reqs
  have hlen := hd.length_rows
  have hsplit : (written crud enc d reqs).log.rows.take f =
      d.log.rows ++ ((written crud enc d reqs).log.rows.drop d.sequence).take (f - d.sequence) := by
    rw [hmore, List.take_append, List.take_of_length_le (by omega), ← hlen, List.drop_left]
  rw [hsplit, replay_append, Proc.bind_of_ok hd.replays]

end Written

theorem integral_wellLogged {d : Database T} (hd : d.Integral crud enc t₀) : d.WellLogged enc :=
  ⟨hd.encoded, fun k hk => lt_of_le_of_lt ((hd.mem_keys k).1 hk).2 d.sequence_lt⟩

theorem readsBack (hR : Replayable crud enc) : ReadsBack enc := fun v b hv => by
  obtain ⟨v', hv', -⟩ := hR.reread v b hv
  exact ⟨v', hv'⟩

/-! ## Reconnecting -/

/-- `Follow` is about to start, between a primary and a follower that have been opened. -/
def reconnecting (primary : Database T) (follower : Datastore T V) : Replica T V :=
  ⟨Node.start (Datastore.wrap primary), follower, .idle, [primary], false, false⟩

/-- The subscription is accepted, and then the follower's tables are those of the primary's history
after as many operations; or the follower is sent back to a snapshot, and loads it. -/
def Recovers (crud : CRUD T V) (enc : Encoding V) (tr : Transport V) (t₀ : T) (primary : Database T)
    (follower : Datastore T V) : Prop :=
  ∃ r, (Replica.system crud enc tr).run (reconnecting primary follower) [.start, .subscribe true] = some r ∧
    ((∃ ch, r.phase = .following ch [] true) ∧
        replay crud enc (primary.log.rows.take follower.db.sequence) t₀ = (.ok (), follower.db.tables) ∨
      r.phase = .snapshotting ∧ ∃ r', (Replica.system crud enc tr).run r [.snapshot true] = some r' ∧
        r'.follower.db.tables = primary.tables ∧ r'.follower.db.sequence = primary.sequence)

/-- Starting takes the follower to where its call of `Subscribe` leads. -/
theorem reconnecting_run (crud : CRUD T V) (enc : Encoding V) (tr : Transport V) (primary : Database T)
    (follower : Datastore T V) :
    ∃ n, (Replica.system crud enc tr).run (reconnecting primary follower) [.start, .subscribe true] =
      some ⟨n, follower, Replica.subscribed true
        ((Datastore.wrap primary : Datastore T V).subscribe enc (follower.db.sequence + 1) true).1,
        [primary], false, false⟩ ∧
      n.store.db = primary ∧ n.emission = none := by
  have hmod : (follower.latestSequence + 1) % 2 ^ 64 = follower.db.sequence + 1 := follower.next_mod
  have hrun : (Replica.system crud enc tr).run (reconnecting primary follower) [.start, .subscribe true] =
      (Node.step crud enc (Node.start (Datastore.wrap primary)) (.subscribe (follower.db.sequence + 1) true)).map
        fun n =>
        ⟨n, follower, Replica.subscribed true
          ((Datastore.wrap primary : Datastore T V).subscribe enc (follower.db.sequence + 1) true).1,
          [primary], false, false⟩ := by
    simp only [System.run_cons, System.run_nil, Replica.system, Replica.step, reconnecting,
      Option.bind_some, Option.bind_fun_some, Replica.subscribeStep, hmod]
    rfl
  have hcase := Datastore.subscribe_cases enc (follower.db.sequence + 1) true (Datastore.wrap primary : Datastore T V)
  rw [hrun, Node.step_subscribe rfl rfl]
  show ∃ n,
    (Node.returned _ _ ((Datastore.wrap primary : Datastore T V).subscribe enc (follower.db.sequence + 1) true)).map _ =
      _ ∧ _
  revert hcase
  generalize (Datastore.wrap primary : Datastore T V).subscribe enc (follower.db.sequence + 1) true = res
  rintro (_ | _ | _ | ⟨_, _, _, ⟨⟩⟩)
  all_goals exact ⟨_, rfl, rfl, rfl⟩

/-- A snapshot of the primary, on its way to the follower, is reloaded to the same tables. -/
def Transfers (crud : CRUD T V) (tr : Transport V) (primary : Database T) (u : T) : Prop :=
  ∃ items, (crud.each primary.tables).1 = .ok items ∧
    Datastore.reload crud (tr.carrySnapshot ⟨primary.sequence, items⟩).items u = (.ok (), primary.tables)

/-- The snapshot that a follower ahead of the primary is sent back to. -/
theorem snapshotStep_iff (crud : CRUD T V) (tr : Transport V) {r : Replica T V} (hm : r.primary.emission = none)
    (hahead : r.primary.store.db.sequence < r.follower.db.sequence) :
    (∃ r', r.snapshotStep crud tr true = some r' ∧ r'.follower.db.tables = r.primary.store.db.tables ∧
        r'.follower.db.sequence = r.primary.store.db.sequence) ↔
      Transfers crud tr r.primary.store.db r.follower.db.tables := by
  -- without a load the follower stays ahead
  have hkept : ∀ f : Datastore T V, f = r.follower → f.db.sequence ≠ r.primary.store.db.sequence :=
    fun f hf => by rw [hf]; omega
  have hstep : r.snapshotStep crud tr true = _ := Replica.snapshotStep_eq hm
  rw [hstep]
  unfold Datastore.snapshot Transfers
  rcases (crud.each r.primary.store.db.tables).1 with items | e | _ | _
  · have hcase :=
      Datastore.loadSnapshot_cases crud (tr.carrySnapshot ⟨r.primary.store.db.sequence, items⟩) true r.follower
    constructor
    · rintro ⟨r', hr', htab, hseq⟩
      refine ⟨items, rfl, ?_⟩
      rcases hload : r.follower.loadSnapshot crud (tr.carrySnapshot ⟨r.primary.store.db.sequence, items⟩)
        true with ⟨o, f⟩
      change r.returned true _
        (r.follower.loadSnapshot crud (tr.carrySnapshot ⟨r.primary.store.db.sequence, items⟩) true) = _ at hr'
      rw [hload] at hr' hcase
      cases hcase with
      | failed e => cases hr'; exact absurd hseq (hkept _ rfl)
      | crashed => cases hr'; exact absurd hseq (hkept _ rfl)
      | blocked s' => cases hr'
      | committed d' hl hs =>
        cases hr'
        rw [(Datastore.loadSnapshot_ok hload).1]
        exact congrArg _ htab
    · rintro ⟨_, ⟨⟩, hload⟩
      have hlt : (tr.carrySnapshot ⟨r.primary.store.db.sequence, items⟩).seq < 2 ^ 63 := by
        rw [tr.carrySnapshot_seq]; exact r.primary.store.db.sequence_lt
      have hloaded := Datastore.loadSnapshot_of_ok hload hlt
      refine ⟨_, congrArg (r.returned true _) hloaded, rfl, ?_⟩
      exact tr.carrySnapshot_seq _
  · refine iff_of_false ?_ (fun ⟨_, h, _⟩ => nomatch h)
    rintro ⟨r', ⟨⟩, -, hseq⟩
    exact hkept _ rfl hseq
  · exact iff_of_false (fun ⟨_, h, _⟩ => nomatch h) (fun ⟨_, h, _⟩ => nomatch h)
  · exact iff_of_false (fun ⟨_, h, _⟩ => nomatch h) (fun ⟨_, h, _⟩ => nomatch h)

/-- A follower that is ahead of the primary is refused, and only a snapshot brings it back. -/
theorem recovers_of_ahead (enc : Encoding V) (tr : Transport V) (t₀ : T) {primary : Database T}
    {follower : Datastore T V} (hahead : primary.sequence < follower.db.sequence) :
    Recovers crud enc tr t₀ primary follower ↔ Transfers crud tr primary follower.db.tables := by
  obtain ⟨n, hrun, rfl, hm⟩ := reconnecting_run crud enc tr primary follower
  have hhorizon : ((Datastore.wrap n.store.db : Datastore T V).subscribe enc (follower.db.sequence + 1) true).1 =
      .err .horizon :=
    congrArg Prod.fst (Datastore.subscribe_past (s := Datastore.wrap n.store.db) (Nat.add_lt_add_right hahead 1) true)
  rw [hhorizon] at hrun
  have hstep : (Replica.system crud enc tr).run ⟨n, follower, .snapshotting, [n.store.db], false,
    false⟩ [.snapshot true] =
      Replica.snapshotStep crud tr ⟨n, follower, .snapshotting, [n.store.db], false, false⟩ true :=
        Option.bind_fun_some _
  have hiff := snapshotStep_iff crud tr (r := ⟨n, follower, .snapshotting, [n.store.db], false, false⟩) hm hahead
  constructor
  · rintro ⟨r, hr, ⟨⟨ch, hphase⟩, -⟩ | ⟨-, r', hr', hload⟩⟩
    · cases hrun.symm.trans hr; cases hphase
    · cases hrun.symm.trans hr
      exact hiff.1 ⟨r', hstep.symm.trans hr', hload⟩
  · intro h
    obtain ⟨r', hr', hload⟩ := hiff.2 h
    exact ⟨_, hrun, .inr ⟨rfl, r', hstep.trans hr', hload⟩⟩

/-- One that is not ahead is taken on, at a number that a subscription can start from. -/
theorem recovers_of_behind (tr : Transport V) (hR : Replayable crud enc) {primary : Database T}
    (hint : primary.Integral crud enc t₀) (follower : Datastore T V) (hle : follower.db.sequence ≤ primary.sequence) :
    Recovers crud enc tr t₀ primary follower ↔ follower.db.sequence + 1 < 2 ^ 63 ∧
      replay crud enc (primary.log.rows.take follower.db.sequence) t₀ = (.ok (), follower.db.tables) := by
  obtain ⟨n, hrun, -⟩ := reconnecting_run crud enc tr primary follower
  by_cases hlt : follower.db.sequence + 1 < 2 ^ 63
  · obtain ⟨sub, hsub, -⟩ := Datastore.subscribe_accepted (readsBack hR) (s := (Datastore.wrap primary : Datastore T V))
      (integral_wellLogged hint) (Nat.add_le_add_right hle 1) hlt
    rw [hsub] at hrun
    constructor
    · rintro ⟨r, hr, ⟨-, hreplay⟩ | ⟨hphase, -⟩⟩
      · exact ⟨hlt, hreplay⟩
      · cases hrun.symm.trans hr; cases hphase
    · rintro ⟨-, hreplay⟩
      exact ⟨_, hrun, .inl ⟨⟨sub.ch, rfl⟩, hreplay⟩⟩
  · -- the driver does not take the number of the next operation, and `Follow` ends
    have hrefused : ((Datastore.wrap primary : Datastore T V).subscribe enc (follower.db.sequence + 1) true).1 =
        .err .highBit :=
      congrArg Prod.fst (Datastore.subscribe_highBit (Nat.add_le_add_right hle 1) (Nat.le_of_not_lt hlt) true)
    rw [hrefused] at hrun
    constructor
    · rintro ⟨r, hr, ⟨⟨ch, hphase⟩, -⟩ | ⟨hphase, -⟩⟩ <;> cases hrun.symm.trans hr <;> cases hphase
    · exact fun h => absurd h.1 hlt

/-! ## Restoring a backup -/

/-- The operations that take the backup's history to a later number, replayed on the backup. -/
def since (crud : CRUD T V) (enc : Encoding V) (backup d : Database T) (f : Nat) : Outcome Error Unit × T :=
  replay crud enc ((d.log.rows.drop backup.sequence).take (f - backup.sequence)) backup.tables

/-- The primary is restored from a backup and written again, and a follower that has the lost history
up to a later number reconnects. If the new history has not come as far, all rests on the snapshot;
else both histories must do the same to the backup up to that number. -/
theorem restore_recovers_iff (hR : Replayable crud enc) (tr : Transport V) {backup : Database T}
    (before lost new : List (Request V)) (hbackup : backup = written crud enc (Database.fresh t₀) before)
    (follower : Datastore T V) (hahead : backup.sequence < follower.db.sequence)
    (hstate : replay crud enc ((written crud enc backup lost).log.rows.take follower.db.sequence) t₀ =
      (.ok (), follower.db.tables)) :
    Recovers crud enc tr t₀ (written crud enc backup new) follower ↔
      (written crud enc backup new).sequence < follower.db.sequence ∧
          Transfers crud tr (written crud enc backup new) follower.db.tables ∨
        follower.db.sequence ≤ (written crud enc backup new).sequence ∧ follower.db.sequence + 1 < 2 ^ 63 ∧
          since crud enc backup (written crud enc backup new) follower.db.sequence =
            since crud enc backup (written crud enc backup lost) follower.db.sequence := by
  have hint : backup.Integral crud enc t₀ := hbackup ▸ written_integral hR (.fresh crud enc t₀) before
  rcases Nat.lt_or_ge (written crud enc backup new).sequence follower.db.sequence with hlate | hle
  · have hnot : ¬ follower.db.sequence ≤ (written crud enc backup new).sequence := Nat.not_le.2 hlate
    rw [recovers_of_ahead enc tr t₀ hlate]
    simp only [hlate, hnot, true_and, false_and, or_false]
  · have hnot : ¬ (written crud enc backup new).sequence < follower.db.sequence := Nat.not_lt.2 hle
    have hold : since crud enc backup (written crud enc backup lost) follower.db.sequence =
        (.ok (), follower.db.tables) := by
      rw [since, ← replay_take_written hR hint lost hahead.le, hstate]
    rw [recovers_of_behind tr hR (written_integral hR hint new) follower hle, hold, since,
      replay_take_written hR hint new hahead.le]
    simp only [hle, hnot, true_and, false_and, false_or]

/-! ## One token for another -/

section Tokens

def createToken (id : String) : Request Value := ⟨.create (.token ⟨id, "s", none⟩), Time.zero, true⟩

/-- A primary on which tokens were created. -/
def tokens (crud : CRUD Tables Value) (ids : List String) : Database Tables :=
  written crud encoding (Database.fresh Tables.empty) (ids.map createToken)

theorem tokens_integral {crud : CRUD Tables Value} (hR : Replayable crud encoding) (ids : List String) :
    (tokens crud ids).Integral crud encoding Tables.empty := written_integral hR (.fresh _ _ _) _

/-- A follower that has all of it. -/
theorem tokens_state {crud : CRUD Tables Value} (hR : Replayable crud encoding) (ids : List String) :
    replay crud encoding ((tokens crud ids).log.rows.take (tokens crud ids).sequence) Tables.empty =
      (.ok (), (tokens crud ids).tables) := by
  have hint := tokens_integral hR ids
  rw [← hint.length_rows, List.take_length, hint.replays]

/-- With nothing written since, the follower of a token that was lost gets a snapshot from a CRUD that
copies; once another token has its number, it is taken on as it is. -/
theorem restore_recovers_token :
    Recovers (orderedCRUD [.interfaces, .peers, .tokens]) encoding .inProcess Tables.empty
        (tokens (orderedCRUD [.interfaces, .peers, .tokens]) [])
        (Datastore.wrap (tokens (orderedCRUD [.interfaces, .peers, .tokens]) ["a"])) ∧
      ¬ Recovers (orderedCRUD [.interfaces, .peers, .tokens]) encoding .inProcess Tables.empty
        (tokens (orderedCRUD [.interfaces, .peers, .tokens]) ["b"])
        (Datastore.wrap (tokens (orderedCRUD [.interfaces, .peers, .tokens]) ["a"])) := by
  have hR := orderedCRUD_replayable [.interfaces, .peers, .tokens]
  have hahead : (Database.fresh Tables.empty).sequence <
      (tokens (orderedCRUD [.interfaces, .peers, .tokens]) ["a"]).sequence := by
    decide +kernel
  have hiff (ids : List String) := restore_recovers_iff hR .inProcess [] [createToken "a"] (ids.map createToken) rfl
    (Datastore.wrap (tokens (orderedCRUD [.interfaces, .peers, .tokens]) ["a"])) hahead (tokens_state hR ["a"])
  constructor
  · refine (hiff []).2 (.inl ⟨by decide +kernel, ?_⟩)
    obtain ⟨items, heach, hload⟩ := (orderedCRUD_copies isOrder_interfaces_first rfl).copied _ Tables.Stored.empty
    exact ⟨items, congrArg Prod.fst heach, hload _⟩
  · intro h
    rcases (hiff ["b"]).1 h with ⟨hlate, -⟩ | ⟨-, -, hsame⟩
    · exact absurd hlate (by decide +kernel)
    · have hids := congrArg (fun x => x.2.tokens.rows.map TokenRow.id) hsame
      exact absurd hids (by decide +kernel)

/-- The README's promise fails for a follower that comes back late. -/
theorem restore_misses_divergence :
    ¬ ∀ (stack : Nat) (before lost new : List (Request Value)) (backup : Database Tables)
    (follower : Datastore Tables Value),
      backup = written (Model.crud stack) encoding (Database.fresh Tables.empty) before →
    backup.sequence < follower.db.sequence →
      follower.db.sequence ≤ (written (Model.crud stack) encoding backup lost).sequence →
    replay (Model.crud stack) encoding
      ((written (Model.crud stack) encoding backup lost).log.rows.take follower.db.sequence) Tables.empty =
      (.ok (), follower.db.tables) →
    Recovers (Model.crud stack) encoding .inProcess Tables.empty
      (written (Model.crud stack) encoding backup new) follower := by
  intro h
  have hR := model_replayable 8
  have hrec :=
    h 8 [] [createToken "a"] [createToken "b"] _ (Datastore.wrap (tokens (Model.crud 8) ["a"])) rfl
      (by decide +kernel) le_rfl
    (tokens_state hR ["a"])
  have hle : (tokens (Model.crud 8) ["a"]).sequence ≤ (tokens (Model.crud 8) ["b"]).sequence := by decide +kernel
  have hreplay :=
    ((recovers_of_behind .inProcess hR (tokens_integral hR ["b"]) (Datastore.wrap (tokens (Model.crud 8) ["a"])) hle).1
      hrec).2
  have hids := congrArg (fun x => x.2.tokens.rows.map TokenRow.id) hreplay
  exact absurd hids (by decide +kernel)

end Tokens

end Wig.Store
