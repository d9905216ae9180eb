/-
The expirer: the query for expired peers, the loop that collects its keys, and the deletes through a
`crud.Writer`. The loop scans every key and keeps none of them, so that nothing is ever deleted; and
the query compares texts, so that it would take a peer without an expiry for an expired one.
-/
import Wig.Model.Timestamp
import Wig.Store.Primary
import Wig.Store.Copy

namespace Wig.Expire

open Wig.Lib Wig.Model Wig.Crudlog

/-! ## Writers -/

/-- A `crud.Writer` as far as peers are deleted with it: the tables it writes to, and the error that a
call returns. A delete without an error deletes the row, and one with an error leaves the peers alone. -/
structure Writer (σ : Type) where
  tables : σ → Tables
  delete : Peer → σ → Option Error × σ
  deleted : ∀ {p s s'}, delete p s = (none, s') → (tables s').peers = (tables s).peers.erase p.publicKey
  kept : ∀ {p s e s'}, delete p s = (some e, s') → (tables s').peers = (tables s).peers

def Writer.CanFail {σ : Type} (w : Writer σ) (key : String) : Prop := ∃ p s, p.publicKey = key ∧ (w.delete p s).1 ≠ none

/-- The error of a call that returns. -/
def errorOf : Outcome Error Unit → Option Error
  | .ok () => none
  | .err e => some e
  | _ => some .ioError

/-- A delete through the log; `commits` tells which transactions commit. -/
def logDelete (stack : Nat) (now : Time) (commits : String → Bool) (p : Peer) (s : Datastore Tables Value) :
    Outcome Error Unit × Datastore Tables Value :=
  Datastore.request (crud stack) encoding ⟨.delete (.peer p), now, commits p.publicKey⟩ s

theorem logDelete_cases (stack : Nat) (now : Time) (commits : String → Bool) (p : Peer) {s : Datastore Tables Value}
    (hq : s.pubsub.Quiet) :
    (logDelete stack now commits p s).2.pubsub.Quiet ∧
      ((∃ e, (logDelete stack now commits p s).1 = .err e ∧ (logDelete stack now commits p s).2.db = s.db) ∨
        (logDelete stack now commits p s).1 = .ok () ∧
          (logDelete stack now commits p s).2.db.tables.peers = s.db.tables.peers.erase p.publicKey) := by
  unfold logDelete Datastore.request
  rcases Datastore.apply_quiet (Store.model_replayable stack) hq _ false _ with ⟨e, he, hdb,
    hq'⟩ | ⟨row, d', hrec, -, h⟩
  · exact ⟨hq', .inl ⟨e, he, hdb⟩⟩
  · rw [h]
    refine ⟨hq.emitted _, .inr ⟨rfl, ?_⟩⟩
    have happlied : (crud stack).delete (.peer p) s.db.tables = (.ok (), d'.tables) := hrec.applied
    rw [crud_delete] at happlied
    have hdelete : .ok (s.db.tables.delete (.peer p.row)) = (.ok d'.tables : Except Error Tables) :=
      namedExec_ok happlied
    injection hdelete with hdelete
    rw [← hdelete]
    rfl

/-- The log of a primary that nobody is subscribed to is such a writer. -/
def logWriter (stack : Nat) (now : Time)
    (commits : String → Bool) : Writer { s : Datastore Tables Value // s.pubsub.Quiet } where
  tables s := s.1.db.tables
  delete p s :=
    (errorOf (logDelete stack now commits p s.1).1,
      ⟨(logDelete stack now commits p s.1).2, (logDelete_cases stack now commits p s.2).1⟩)
  deleted {p s s'} h := by
    obtain ⟨herr, rfl⟩ := Prod.mk.inj h
    rcases (logDelete_cases stack now commits p s.2).2 with ⟨e, he, -⟩ | ⟨-, hpeers⟩
    · rw [he] at herr; cases herr
    · exact hpeers
  kept {p s e s'} h := by
    obtain ⟨herr, rfl⟩ := Prod.mk.inj h
    rcases (logDelete_cases stack now commits p s.2).2 with ⟨e, -, hdb⟩ | ⟨hok, -⟩
    · rw [hdb]
    · rw [hok] at herr; cases herr

/-! ## The expirer -/

/-- The rows of the query: `expire IS NOT NULL AND expire < ?`. A time that is stored is never NULL. -/
def selected (now : Time) (t : Tables) : List PeerRow := t.peers.rows.filter fun r => decide (r.expire.text < now.text)

/-- The loop of `findExpiredPeers`. A row that does not scan ends it with nil; the key of one that does
is not put anywhere. -/
def scanRows (scans : String → Bool) : List PeerRow → List String → List String
  | [], out => out
  | r :: rows, out => if scans r.publicKey then scanRows scans rows out else []

/-- A run of `expire`: the time that it reads, and which steps of its transaction succeed. -/
structure Run where
  now : Time
  opens : Bool
  queries : Bool
  scans : String → Bool

def findExpiredPeers (r : Run) (t : Tables) : List String :=
  if r.queries then scanRows r.scans (selected r.now t) [] else []

section

variable {σ : Type} (w : Writer σ)

/-- `expirePeers`: the last error, and the state after the deletes. -/
def expirePeers : List String → Option Error → σ → Option Error × σ
  | [], lastErr, s => (lastErr, s)
  | pkey :: publicKeys, lastErr, s =>
    match w.delete ⟨pkey, "", none, none, Time.zero⟩ s with
    | (none, s') => expirePeers publicKeys lastErr s'
    | (some e, s') => expirePeers publicKeys (some e) s'

/-- The transaction that reads is rolled back. -/
def expire (r : Run) (s : σ) : Option Error × σ :=
  expirePeers w (if r.opens then findExpiredPeers r (w.tables s) else []) none s

end

/-! ## What it is for -/

/-- The expiry of the peer is set, and earlier than now. -/
def expired (now : Time) (r : PeerRow) : Bool := decide (r.expire.unixNano ≠ Time.zero.unixNano) && r.expire.before now

/-- The peers that are left are those that are not expired and those whose delete failed, and if there
are any of the latter an error is returned. -/
structure Expires {σ : Type} (w : Writer σ) (now : Time) (s : σ) (res : Option Error × σ)
    (failed : String → Bool) : Prop where
  canFail : ∀ key, failed key = true → w.CanFail key
  rows : (w.tables res.2).peers.rows = (w.tables s).peers.rows.filter fun r => !expired now r || failed r.publicKey
  error : (∃ r ∈ (w.tables s).peers.rows, expired now r = true ∧ failed r.publicKey = true) → res.1 ≠ none

def ExpiresExactly {σ : Type} (w : Writer σ) (now : Time) (s : σ) (res : Option Error × σ) : Prop :=
  ∃ failed, Expires w now s res failed

/-! ## What it does -/

section

variable {σ : Type} {w : Writer σ}

theorem scanRows_nil (scans : String → Bool) : ∀ rows : List PeerRow, scanRows scans rows [] = []
  | [] => rfl
  | r :: rows => by
    rw [scanRows]
    split
    · exact scanRows_nil scans rows
    · rfl

theorem expire_eq (r : Run) (s : σ) : expire w r s = (none, s) := by
  have hfind : findExpiredPeers r (w.tables s) = [] := by
    unfold findExpiredPeers
    split
    · exact scanRows_nil _ _
    · rfl
  unfold expire
  rw [hfind, ite_self]
  rfl

/-- To leave an expired peer where it is without an error is not what the expirer is for. -/
theorem not_exact_of_expired {now : Time} {s : σ} {row : PeerRow} (hrow : row ∈ (w.tables s).peers.rows)
    (hexp : expired now row = true) : ¬ ExpiresExactly w now s (none, s) := by
  rintro ⟨failed, h⟩
  have hkept := hrow
  rw [h.rows, List.mem_filter, hexp] at hkept
  exact h.error ⟨row, hrow, hexp, hkept.2⟩ rfl

/-- A run of the expirer does what it is for just if there is nothing to do. -/
theorem expire_exact_iff (w : Writer σ) (r : Run) (s : σ) :
    ExpiresExactly w r.now s (expire w r s) ↔ ∀ row ∈ (w.tables s).peers.rows, expired r.now row = false := by
  rw [expire_eq]
  constructor
  · intro h row hrow
    by_contra hexp
    exact not_exact_of_expired hrow (Bool.eq_true_of_not_eq_false hexp) h
  · intro h
    refine ⟨fun _ => false, fun _ h => (by cases h), ?_, fun ⟨_, _, _, h⟩ => (by cases h)⟩
    rw [List.filter_eq_self.2]
    intro row hrow
    simp [h row hrow]

end

/-! ## A peer that outlives its expiry -/

/-- Noon of the first of January 2024, and some seconds from then on. -/
def noon (seconds : Int) : Time := ⟨(1704110400 + seconds) * 10 ^ 9, 0⟩

/-- A primary with one peer. -/
def onePeer (expire : Time) : { s : Datastore Tables Value // s.pubsub.Quiet } :=
  ⟨(Datastore.requests (crud 8) encoding [⟨.create (.interface ⟨"wg0", 51820, none, none, 0, "", ""⟩), noon 0, true⟩,
      ⟨.create (.peer ⟨"a", "wg0", none, none, expire⟩), noon 0, true⟩] Store.fresh).2,
    (Datastore.requests_spec (Store.model_replayable 8) _ Pubsub.Quiet.new
      (Database.Integral.fresh (crud 8) encoding Tables.empty)).1⟩

/-- The peer expired an hour ago and its delete would succeed, but it is left. -/
theorem expired_peer_left :
    ((logWriter 8 (noon 3600) fun _ => true).delete ⟨"a", "", none, none, Time.zero⟩ (onePeer (noon 0))).1 = none ∧
    ¬ ExpiresExactly (logWriter 8 (noon 3600) fun _ => true) (noon 3600) (onePeer (noon 0))
      (expire (logWriter 8 (noon 3600) fun _ => true) ⟨noon 3600, true, true, fun _ => true⟩ (onePeer (noon 0))) := by
  have hrows : (onePeer (noon 0)).1.db.tables.peers.rows = [⟨"a", "wg0", none, none, noon 0⟩] := by decide +kernel
  have hrow : (⟨"a", "wg0", none, none, noon 0⟩ : PeerRow) ∈ (onePeer (noon 0)).1.db.tables.peers.rows := by
    rw [hrows]
    exact .head _
  refine ⟨by decide +kernel, ?_⟩
  rw [expire_eq]
  exact not_exact_of_expired hrow (by decide)

/-! ## The query -/

/-- A peer is stored: it is created, or updated where there is one with its key. -/
inductive Stores (p : Peer) (t t' : Tables) : Prop where
  | create (h : peerType.create (.peer p) t = (.ok (), t'))
  | update (hkey : p.publicKey ∈ t.peers.keys) (h : peerType.update (.peer p) t = (.ok (), t'))

/-- The query selects the peer just if it is expired. -/
def QueryAgrees (now : Time) (t : Tables) (p : Peer) : Prop :=
  p.publicKey ∈ (selected now t).map PeerRow.publicKey ↔ p.expire.unixNano ≠ Time.zero.unixNano ∧
    p.expire.before now = true

/-- A peer without an expiry has not been written before now, and an expiry has been if it is before now. -/
structure ClocksAgree (expire now : Time) : Prop where
  unset : expire.unixNano = Time.zero.unixNano → ¬ expire.WrittenBefore now
  set : expire.unixNano ≠ Time.zero.unixNano → (expire.WrittenBefore now ↔ expire.before now = true)

theorem Stores.mem {p : Peer} {t t' : Tables} (h : Stores p t t') : p.row ∈ t'.peers.rows := by
  rcases h with h | ⟨hkey, h⟩
  · have hinsert : t.insert (.peer p.row) = .ok t' := namedExec_ok h
    simp only [Tables.insert] at hinsert
    split at hinsert
    · cases hinsert
    · rename_i u hu
      split at hinsert
      · cases hinsert
        rw [(Table.insert_rows hu).2]
        exact List.mem_append_right _ (List.mem_singleton_self _)
      · cases hinsert
  · have hupdate : t.update (.peer p.row) = .ok t' := namedExec_ok h
    simp only [Tables.update] at hupdate
    split at hupdate
    · cases hupdate
      exact Table.mem_replace.2 (.inl ⟨rfl, hkey⟩)
    · cases hupdate

theorem selected_iff {p : Peer} {t t' : Tables} (h : Stores p t t') (now : Time) :
    p.publicKey ∈ (selected now t').map PeerRow.publicKey ↔ p.expire.text < now.text := by
  rw [List.mem_map]
  constructor
  · rintro ⟨r, hr, hkey⟩
    obtain ⟨hr, htext⟩ := List.mem_filter.1 hr
    rw [Table.row_unique hr h.mem hkey] at htext
    exact of_decide_eq_true htext
  · exact fun htext => ⟨p.row, List.mem_filter.2 ⟨h.mem, decide_eq_true htext⟩, rfl⟩

/-- The query is right about a peer just if the clocks of the two zones agree with the instants. -/
theorem query_agrees_iff {p : Peer} {t t' : Tables} {now : Time} (hs : Stores p t t')
    (hp : p.expire.Dated) (hn : now.Dated) : QueryAgrees now t' p ↔ ClocksAgree p.expire now := by
  unfold QueryAgrees
  rw [selected_iff hs, Time.text_lt_iff hp hn]
  by_cases hzero : p.expire.unixNano = Time.zero.unixNano
  · constructor
    · exact fun h => ⟨fun _ hbefore => (h.1 hbefore).1 hzero, fun hne => absurd hzero hne⟩
    · exact fun h => ⟨fun hbefore => absurd hbefore (h.unset hzero), fun hexp => absurd hzero hexp.1⟩
  · constructor
    · exact fun h => ⟨fun hz => absurd hz hzero, fun hne => h.trans (and_iff_right hne)⟩
    · exact fun h => (h.set hzero).trans (and_iff_right hzero).symm

/-- In one zone an expiry and a clock agree. -/
theorem clocksAgree_of_offset {expire now : Time} (hset : expire.unixNano ≠ Time.zero.unixNano)
    (hzone : expire.offset = now.offset) : ClocksAgree expire now := by
  refine ⟨fun h => absurd h hset, fun _ => ?_⟩
  unfold Time.WrittenBefore Time.wall Time.before
  rw [hzone, decide_eq_true_iff]
  omega

/-- The interface wg0, and no peer. -/
def wg0 : Tables :=
  ⟨⟨[⟨"wg0", 51820, none, none, 0, "", ""⟩], by decide⟩, Table.empty, Table.empty, fun _ h => by cases h⟩

def peerOf (expire : Time) : Peer := ⟨"a", "wg0", none, none, expire⟩

theorem stores_wg0 (expire : Time) : ∃ t', Stores (peerOf expire) wg0 t' := by
  obtain ⟨t', ht', -⟩ := Store.insert_peer (u := wg0) (r := (peerOf expire).row) (.head _) (List.not_mem_nil)
  have hstored : namedExec .insert (.peer (peerOf expire)) wg0 = (.ok (), t') := namedExec_of_ok rfl ht'
  exact ⟨t', .create hstored⟩

/-- The peer expired an hour ago, in the zone of the clock. -/
theorem query_agrees_noon : ∃ t', Stores (peerOf (noon 0)) wg0 t' ∧ QueryAgrees (noon 3600) t' (peerOf (noon 0)) := by
  have hdated : (noon 0).Dated ∧ (noon 3600).Dated := ⟨⟨by decide +kernel, by decide⟩, ⟨by decide +kernel, by decide⟩⟩
  obtain ⟨t', hs⟩ := stores_wg0 (noon 0)
  exact ⟨t', hs, (query_agrees_iff hs hdated.1 hdated.2).2 (clocksAgree_of_offset (by decide) rfl)⟩

/-- A peer without an expiry is selected. One that expired an hour ago is not, where its expiry is written in a zone two
hours to the east. -/
theorem query_disagrees : (∃ t', Stores (peerOf Time.zero) wg0 t' ∧ ¬ QueryAgrees (noon 0) t' (peerOf Time.zero)) ∧
    ∃ t', Stores (peerOf { noon 0 with offset := 7200 }) wg0 t' ∧
      ¬ QueryAgrees (noon 3600) t' (peerOf { noon 0 with offset := 7200 }) := by
  obtain ⟨t₁, h₁⟩ := stores_wg0 Time.zero
  obtain ⟨t₂, h₂⟩ := stores_wg0 { noon 0 with offset := 7200 }
  refine ⟨⟨t₁, h₁, fun h => ?_⟩, ⟨t₂, h₂, fun h => ?_⟩⟩
  · have htext : (peerOf Time.zero).expire.text < (noon 0).text := by decide +kernel
    exact (h.1 ((selected_iff h₁ _).2 htext)).1 rfl
  · have htext : ¬ (peerOf { noon 0 with offset := 7200 }).expire.text < (noon 3600).text := by decide +kernel
    exact htext ((selected_iff h₂ _).1 (h.2 ⟨by decide, by decide⟩))

end Wig.Expire
