/-
The session manager: a dump of reports is analysed inside one SQL transaction, and the sessions it
completes are written there. The transaction rolls the table back, the finder it does not.
-/
import Wig.Sessions.Finder
import Wig.Lib.Proc

namespace Wig.Sessions

open Wig.Lib

/-! ## The manager -/

/-- A row of the `sessions` table. -/
structure SessionRow where
  peerPublicKey : String
  beginTimestamp : Time
  endTimestamp : Time
  srcASNum : String
  srcASOrg : String
  srcCountry : String
  deriving DecidableEq, Repr

def Session.row (s : Session) : SessionRow :=
  ⟨s.peerPublicKey, s.beginTimestamp, s.endTimestamp, s.srcASNum, s.srcASOrg, s.srcCountry⟩

/-- `SessionManager`: its database, as far as the `sessions` table goes, and its finder. -/
structure SessionManager where
  sessions : List SessionRow
  sf : SessionFinder

/-- What of a call's SQL succeeds: opening the transaction, the write made at an index of the dump,
and the commit. -/
structure Faults where
  opens : Bool
  writes : Nat → Bool
  commits : Bool

namespace SessionManager

def analyze (r : IPRefiner) (now : Time) (s : PeerStats) : Proc SessionManager Error (Option Handle) := fun m =>
  (.ok (m.sf.analyze r now s).1, { m with sf := (m.sf.analyze r now s).2 })

def writeCompletedSession (writes : Bool) (sess : Session) : Proc SessionManager Error Unit :=
  if writes then .modify fun m => { m with sessions := m.sessions ++ [sess.row] } else .fail .ioError

/-- The body of the transaction, from an index of the dump on. -/
def receiveFrom (r : IPRefiner) (now : Time) (faults : Faults) : Nat → List PeerStats → Proc SessionManager Error Unit
  | _, [] => pure ()
  | i, s :: dump => do
    match ← analyze r now s with
    | some sess => writeCompletedSession (faults.writes i) sess.session
    | none => pure ()
    receiveFrom r now faults (i + 1) dump

/-- `WithTx`: what is rolled back is the database. -/
def withTx (faults : Faults) (f : Proc SessionManager Error Unit) : Proc SessionManager Error Unit := fun m =>
  if faults.opens then
    match f m with
    | (.ok _, m') => if faults.commits then (.ok (), m') else (.err .commit, { m' with sessions := m.sessions })
    | (res, m') => (res, { m' with sessions := m.sessions })
  else (.err .ioError, m)

def receivePeerStats (r : IPRefiner) (now : Time) (faults : Faults) (dump : List PeerStats) :
    Proc SessionManager Error Unit :=
  withTx faults (receiveFrom r now faults 0 dump)

end SessionManager

namespace SessionFinder

/-! ## A dump, at one time -/

/-- The calls a dump makes: one clock reading for all of them. -/
def calls (now : Time) (dump : List PeerStats) : List Call := dump.map fun s => (now, s)

theorem calls_append (now : Time) (dump dump' : List PeerStats) :
    calls now (dump ++ dump') = calls now dump ++ calls now dump' :=
  List.map_append

/-- The handles returned for a peer. -/
def ofPeer (p : String) (out : List Handle) : List Handle := out.filter fun h => h.session.peerPublicKey = p

@[simp] theorem ofPeer_append (p : String) (out out' : List Handle) :
    ofPeer p (out ++ out') = ofPeer p out ++ ofPeer p out' := by
  simp [ofPeer]

theorem recent_mono {now ht ht' : Time} (h : recent now ht = true) (hle : ht.unixNano ≤ ht'.unixNano) :
    recent now ht' = true :=
  recent_iff.2 (lt_of_lt_of_le (recent_iff.1 h) hle)

theorem reported_le_effective (f : SessionFinder) (s : PeerStats) :
    s.lastHandshakeTime.unixNano ≤ (f.effective s).unixNano := by
  unfold effective
  rcases f.setHandshakeTime_cases s.publicKey s.lastHandshakeTime with ⟨l, _, hlt, he⟩ | ⟨_, he⟩
  · rw [he]; exact hlt.le
  · rw [he]

/-- The report completes a session: it is the first of its peer in the dump, the peer has an active
session, and its handshake is no longer recent. -/
def Completes (f : SessionFinder) (now : Time) (before : List PeerStats) (s : PeerStats) : Prop :=
  s.publicKey ∉ before.map (·.publicKey) ∧ (f.activeSessions s.publicKey).isSome ∧ recent now (f.effective s) = false

/-- Where a finder stands after a dump, or a first part of one, that started at `f`. -/
structure Progress (r : IPRefiner) (now : Time) (f : SessionFinder) (dump : List PeerStats) (out : List Handle)
    (g : SessionFinder) : Prop where
  next_le : f.next ≤ g.next
  untouched : ∀ p ∉ dump.map (·.publicKey), g.activeSessions p = f.activeSessions p ∧
    g.lastHandshake p = f.lastHandshake p
  known : ∀ s ∈ dump, ∃ t, g.lastHandshake s.publicKey = some t ∧ s.lastHandshakeTime.unixNano ≤ t.unixNano ∧
    (g.activeSessions s.publicKey).isSome = recent now t
  idle : ∀ p, f.activeSessions p = none → ofPeer p out = []
  busy : ∀ p cur, f.activeSessions p = some cur →
    (g.activeSessions p = some cur ∧ ofPeer p out = []) ∨
    (∀ cur', g.activeSessions p = some cur' → f.next ≤ cur'.addr) ∧
      ∃ s ∈ dump, s.publicKey = p ∧ ofPeer p out = [complete r cur (f.effective s) s.endpoint]

theorem analyze_next_le (r : IPRefiner) (now : Time) (s : PeerStats) (f : SessionFinder) :
    f.next ≤ (f.analyze r now s).2.next := by
  generalize hres : f.analyze r now s = res
  have hcases := f.analyze_cases r now s
  rw [hres] at hcases
  cases hcases with
  | up _ _ => exact Nat.le_succ _
  | down _ _ _ => exact le_rfl
  | level _ => exact le_rfl

theorem ofPeer_other (r : IPRefiner) (now : Time) (s : PeerStats) (g : SessionFinder) {p : String}
    (hp : p ≠ s.publicKey) : ofPeer p (g.analyze r now s).1.toList = [] := by
  cases ho : (g.analyze r now s).1 with
  | none => rfl
  | some h => simp [ofPeer, analyze_peer r now s g ho, hp.symm]

namespace Progress

variable {r : IPRefiner} {now : Time} {f g : SessionFinder} {dump : List PeerStats} {out : List Handle}

theorem refl (r : IPRefiner) (now : Time) (f : SessionFinder) : Progress r now f [] [] f where
  next_le := le_rfl
  untouched _ _ := ⟨rfl, rfl⟩
  known _ h := nomatch h
  idle _ _ := rfl
  busy _ _ h := .inl ⟨h, rfl⟩

/-- A peer reported before in the dump sees no down edge: the clock is the same and the handshake
only grows. So a session is completed by the first report of its peer. -/
theorem completes (h : Progress r now f dump out g) {s : PeerStats} {cur : Handle}
    (present : g.activeSessions s.publicKey = some cur) (stale : recent now (g.effective s) = false) :
    s.publicKey ∉ dump.map (·.publicKey) := by
  intro hmem
  obtain ⟨s', hs', hk⟩ := List.mem_map.1 hmem
  obtain ⟨t, hlast, -, hsettled⟩ := h.known s' hs'
  rw [hk] at hlast hsettled
  rw [present] at hsettled
  have hrecent := recent_mono hsettled.symm (g.le_effective s hlast)
  rw [stale] at hrecent
  cases hrecent

theorem not_completes (h : Progress r now f dump out g) {s : PeerStats} (hs : ¬ Completes f now dump s) :
    (g.analyze r now s).1 = none := by
  generalize hres : g.analyze r now s = res
  have hcases := g.analyze_cases r now s
  rw [hres] at hcases
  cases hcases with
  | up _ _ => rfl
  | level _ => rfl
  | down cur present stale =>
    have hfirst := h.completes present stale
    obtain ⟨ha, hl⟩ := h.untouched _ hfirst
    rw [ha] at present
    rw [effective_congr hl] at stale
    exact absurd ⟨hfirst, by rw [present]; rfl, stale⟩ hs

theorem analyze_completes (h : Progress r now f dump out g) {s : PeerStats} (hs : Completes f now dump s) :
    ∃ cur, f.activeSessions s.publicKey = some cur ∧
      g.analyze r now s = (some (complete r cur (f.effective s) s.endpoint),
        (g.setLast s.publicKey (f.effective s)).delete s.publicKey) := by
  obtain ⟨hfirst, hsome, hstale⟩ := hs
  obtain ⟨ha, hl⟩ := h.untouched _ hfirst
  obtain ⟨cur, hcur⟩ := Option.isSome_iff_exists.1 hsome
  refine ⟨cur, hcur, ?_⟩
  rw [← effective_congr hl] at hstale ⊢
  rw [← ha] at hcur
  unfold analyze
  rw [setHandshakeTime_eq]
  simp only [hstale]
  rw [show (g.setLast s.publicKey (g.effective s)).activeSessions = g.activeSessions from rfl, hcur]

theorem known_step (h : Progress r now f dump out g) (s : PeerStats) : ∀ s' ∈ dump ++ [s], ∃ t,
    (g.analyze r now s).2.lastHandshake s'.publicKey = some t ∧ s'.lastHandshakeTime.unixNano ≤ t.unixNano ∧
      ((g.analyze r now s).2.activeSessions s'.publicKey).isSome = recent now t := by
  intro s' hs'
  rw [analyze_lastHandshake]
  by_cases hk : s'.publicKey = s.publicKey
  · refine ⟨g.effective s, by rw [hk, Function.update_self], ?_, by rw [hk, analyze_settled]⟩
    rcases List.mem_append.1 hs' with hold | hnew
    · obtain ⟨t, hlast, hle, -⟩ := h.known s' hold
      rw [hk] at hlast
      exact hle.trans (g.le_effective s hlast)
    · rw [List.mem_singleton.1 hnew]
      exact g.reported_le_effective s
  · have hold : s' ∈ dump := (List.mem_append.1 hs').resolve_right fun hnew => hk (by rw [List.mem_singleton.1 hnew])
    rw [Function.update_of_ne hk, analyze_activeSessions_of_ne r now s g hk]
    exact h.known s' hold

theorem busy_step (h : Progress r now f dump out g) (s : PeerStats) {cur : Handle}
    (hcur : f.activeSessions s.publicKey = some cur) :
    ((g.analyze r now s).2.activeSessions s.publicKey = some cur ∧
      ofPeer s.publicKey (out ++ (g.analyze r now s).1.toList) = []) ∨
    (∀ cur', (g.analyze r now s).2.activeSessions s.publicKey = some cur' → f.next ≤ cur'.addr) ∧
      ∃ s' ∈ dump ++ [s], s'.publicKey = s.publicKey ∧
        ofPeer s.publicKey (out ++ (g.analyze r now s).1.toList) = [complete r cur (f.effective s') s'.endpoint] := by
  by_cases hs : Completes f now dump s
  · -- the first report of the peer, and the session is stale
    obtain ⟨cur', hcur', hres⟩ := h.analyze_completes hs
    obtain rfl := Option.some.inj (hcur.symm.trans hcur')
    have hpeer := analyze_peer r now s g (by rw [hres])
    have hout : ofPeer s.publicKey out = [] := by
      rcases h.busy _ _ hcur with ⟨-, hout⟩ | ⟨-, s', hs', hk, -⟩
      · exact hout
      · exact absurd (hk ▸ List.mem_map_of_mem hs') hs.1
    rw [hres]
    refine .inr ⟨fun cur' h' => ?_, s, by simp, rfl, ?_⟩
    · simp [delete] at h'
    · simp only [ofPeer_append, hout, Option.toList_some, List.nil_append]
      simp [ofPeer, hpeer]
  · have hnone := h.not_completes hs
    generalize hres : g.analyze r now s = res at hnone ⊢
    have hcases := g.analyze_cases r now s
    rw [hres] at hcases
    cases hcases with
    | down _ _ _ => cases hnone
    | level _ =>
      simp only [Option.toList_none, List.append_nil]
      refine (h.busy _ _ hcur).imp_right ?_
      rintro ⟨hnew, s', hs', hrest⟩
      exact ⟨hnew, s', List.mem_append_left _ hs', hrest⟩
    | up absent _ =>
      simp only [Option.toList_none, List.append_nil]
      rcases h.busy _ _ hcur with ⟨hsame, -⟩ | ⟨-, s', hs', hrest⟩
      · rw [absent] at hsame
        cases hsame
      · refine .inr ⟨fun cur' h' => ?_, s', List.mem_append_left _ hs', hrest⟩
        simp only [begin_, Function.update_self, Option.some.injEq] at h'
        rw [← h']
        exact h.next_le

theorem step (h : Progress r now f dump out g) (s : PeerStats) :
    Progress r now f (dump ++ [s]) (out ++ (g.analyze r now s).1.toList) (g.analyze r now s).2 where
  next_le := h.next_le.trans (analyze_next_le r now s g)
  untouched p hp := by
    simp only [List.map_append, List.map_cons, List.map_nil, List.mem_append, List.mem_singleton, not_or] at hp
    rw [analyze_activeSessions_of_ne r now s g hp.2, analyze_lastHandshake, Function.update_of_ne hp.2]
    exact h.untouched p hp.1
  known := h.known_step s
  idle p hp := by
    rw [ofPeer_append, h.idle p hp, List.nil_append]
    by_cases hk : p = s.publicKey
    · have hs : ¬ Completes f now dump s := fun hs => by
        have hsome := hs.2.1
        rw [← hk, hp] at hsome
        cases hsome
      rw [h.not_completes hs]
      rfl
    · exact ofPeer_other r now s g hk
  busy p cur hcur := by
    by_cases hk : p = s.publicKey
    · subst hk
      exact h.busy_step s hcur
    · rw [analyze_activeSessions_of_ne r now s g hk, ofPeer_append, ofPeer_other r now s g hk, List.append_nil]
      refine (h.busy p cur hcur).imp_right ?_
      rintro ⟨hnew, s', hs', hrest⟩
      exact ⟨hnew, s', List.mem_append_left _ hs', hrest⟩

/-- A first part of a dump, from the state the call started in. -/
theorem run (r : IPRefiner) (now : Time) (f : SessionFinder) (dump : List PeerStats) :
    Progress r now f dump (analyzeAll r (calls now dump) f).1 (analyzeAll r (calls now dump) f).2 := by
  induction dump using List.reverseRecOn with
  | nil => exact refl r now f
  | append_singleton dump s ih =>
    have h := ih.step s
    rw [calls_append, analyzeAll_append]
    simpa [calls, analyzeAll_cons, analyzeAll] using h

end Progress

end SessionFinder

/-! ## Finders that differ in time zones only -/

/-- A session with its times in UTC. -/
def Session.utc (s : Session) : Session :=
  { s with beginTimestamp := ⟨s.beginTimestamp.unixNano, 0⟩, endTimestamp := ⟨s.endTimestamp.unixNano, 0⟩ }

theorem addIPInfo_utc (r : IPRefiner) (sess : Session) (ipStr : String) :
    (addIPInfo r sess ipStr).utc = addIPInfo r sess.utc ipStr := by
  unfold addIPInfo
  cases parseIP ipStr.toList with
  | none => rfl
  | some ip =>
    simp only
    induction r.dbs generalizing sess with
    | nil => rfl
    | cons db dbs ih =>
      simp only [List.foldl_cons]
      rw [ih]
      cases db ip <;> rfl

namespace SessionFinder

structure Alike (f g : SessionFinder) : Prop where
  active : ∀ p, (f.activeSessions p).map (·.session.utc) = (g.activeSessions p).map (·.session.utc)
  last : ∀ p, (f.lastHandshake p).map (·.unixNano) = (g.lastHandshake p).map (·.unixNano)

theorem effective_unixNano (f : SessionFinder) (s : PeerStats) : (f.effective s).unixNano =
    ((f.lastHandshake s.publicKey).map (·.unixNano)).elim s.lastHandshakeTime.unixNano
      (max s.lastHandshakeTime.unixNano) := by
  unfold effective
  rcases f.setHandshakeTime_cases s.publicKey s.lastHandshakeTime with ⟨last, hl, hlt, he⟩ | ⟨hle, he⟩
  · rw [he, hl]
    exact (max_eq_right hlt.le).symm
  · rw [he]
    cases hl : f.lastHandshake s.publicKey with
    | none => rfl
    | some last => exact (max_eq_left (hle last hl)).symm

theorem recent_congr {now ht ht' : Time} (h : ht.unixNano = ht'.unixNano) : recent now ht = recent now ht' := by
  simp [recent, Time.before, h]

theorem complete_utc {r : IPRefiner} {cur cur' : Handle} {ht ht' : Time} (hcur : cur.session.utc = cur'.session.utc)
    (hht : ht.unixNano = ht'.unixNano) (endpoint : String) :
    (complete r cur ht endpoint).session.utc = (complete r cur' ht' endpoint).session.utc := by
  unfold complete
  simp only [addIPInfo_utc]
  congr 1
  simp only [Session.utc, Session.mk.injEq, Time.mk.injEq] at hcur ⊢
  simp [hcur, hht]

namespace Alike

variable {f g : SessionFinder}

theorem map_update {α β : Type} {F G : String → Option α} {φ : α → β} (h : ∀ p, (F p).map φ = (G p).map φ) (k : String)
    {a b : Option α} (hab : a.map φ = b.map φ) (p : String) :
    (Function.update F k a p).map φ = (Function.update G k b p).map φ := by
  by_cases hp : p = k
  · subst hp; simpa using hab
  · simpa [Function.update_of_ne hp] using h p

theorem analyze (h : Alike f g) (r : IPRefiner) (now : Time) (s : PeerStats) :
    (f.analyze r now s).1.map (·.session.utc) = (g.analyze r now s).1.map (·.session.utc) ∧
      Alike (f.analyze r now s).2 (g.analyze r now s).2 := by
  have heff : (f.effective s).unixNano = (g.effective s).unixNano := by
    rw [effective_unixNano, effective_unixNano, h.last]
  have hrec : recent now (f.effective s) = recent now (g.effective s) := recent_congr heff
  have hlast : ∀ p, ((f.analyze r now s).2.lastHandshake p).map (·.unixNano) =
      ((g.analyze r now s).2.lastHandshake p).map (·.unixNano) := by
    intro p
    rw [analyze_lastHandshake, analyze_lastHandshake]
    exact map_update h.last s.publicKey (by simpa using heff) p
  have hact := h.active s.publicKey
  have hsome : (f.activeSessions s.publicKey).isSome = (g.activeSessions s.publicKey).isSome := by
    simpa using congrArg Option.isSome hact
  suffices hs : (f.analyze r now s).1.map (·.session.utc) = (g.analyze r now s).1.map (·.session.utc) ∧
      ∀ p, ((f.analyze r now s).2.activeSessions p).map (·.session.utc) =
        ((g.analyze r now s).2.activeSessions p).map (·.session.utc) from ⟨hs.1, hs.2, hlast⟩
  generalize hfres : f.analyze r now s = fres
  generalize hgres : g.analyze r now s = gres
  have hf := f.analyze_cases r now s
  have hg := g.analyze_cases r now s
  rw [hfres] at hf
  rw [hgres] at hg
  -- both see the same edge
  cases hf with
  | up absent active =>
    rw [absent] at hsome
    rw [hrec] at active
    cases hg with
    | up _ _ => exact ⟨rfl, map_update h.active s.publicKey (by simp [newSession, Session.utc, heff])⟩
    | down cur present _ => rw [present] at hsome; cases hsome
    | level same => rw [← hsome, active] at same; cases same
  | down cur present stale =>
    rw [present] at hsome
    rw [hrec] at stale
    cases hg with
    | up absent _ => rw [absent] at hsome; cases hsome
    | down cur' present' _ =>
      rw [present, present'] at hact
      exact ⟨by simpa using complete_utc (by simpa using hact) heff s.endpoint, map_update h.active s.publicKey rfl⟩
    | level same => rw [← hsome, stale] at same; cases same
  | level same =>
    cases hg with
    | up absent active => rw [hsome, absent, hrec, active] at same; cases same
    | down cur present stale => rw [hsome, present, hrec, stale] at same; cases same
    | level _ => exact ⟨rfl, h.active⟩

theorem analyzeAll (h : Alike f g) (r : IPRefiner) (cs : List Call) :
    ((SessionFinder.analyzeAll r cs f).1.map fun x => x.session.utc) =
      (SessionFinder.analyzeAll r cs g).1.map fun x => x.session.utc := by
  induction cs generalizing f g with
  | nil => rfl
  | cons c cs ih =>
    obtain ⟨hout, hnext⟩ := h.analyze r c.1 c.2
    rw [analyzeAll_cons, analyzeAll_cons]
    simp only [List.map_append, ih hnext, ← Option.toList_map, hout]

end Alike

end SessionFinder

/-! ## The transaction -/

namespace SessionManager

open SessionFinder

variable {r : IPRefiner} {now : Time} {faults : Faults}

/-- The manager after a part of a dump all of whose writes were made. -/
def after (r : IPRefiner) (now : Time) (m : SessionManager) (dump : List PeerStats) : SessionManager :=
  ⟨m.sessions ++ (analyzeAll r (calls now dump) m.sf).1.map (·.session.row), (analyzeAll r (calls now dump) m.sf).2⟩

theorem after_concat (r : IPRefiner) (now : Time) (m : SessionManager) (dump : List PeerStats) (s : PeerStats) :
    m.after r now (dump ++ [s]) =
      ⟨(m.after r now dump).sessions ++ ((m.after r now dump).sf.analyze r now s).1.toList.map (·.session.row),
        ((m.after r now dump).sf.analyze r now s).2⟩ := by
  simp [after, calls, analyzeAll_append, analyzeAll]

theorem progress_after (r : IPRefiner) (now : Time) (m : SessionManager) (dump : List PeerStats) :
    Progress r now m.sf dump (analyzeAll r (calls now dump) m.sf).1 (m.after r now dump).sf :=
  Progress.run r now m.sf dump

/-- What the body makes of the rest of a dump: it goes through, or stops at a write that fails, and
the finder has then seen the report. -/
inductive Received (r : IPRefiner) (now : Time) (faults : Faults) (m : SessionManager) (before rest : List PeerStats) :
    Outcome Error Unit × SessionManager → Prop
  | through (writes : ∀ mid s tail, rest = mid ++ s :: tail → Completes m.sf now (before ++ mid) s →
        faults.writes (before ++ mid).length = true) :
      Received r now faults m before rest (.ok (), m.after r now (before ++ rest))
  | stopped (mid : List PeerStats) (s : PeerStats) (tail : List PeerStats) (m' : SessionManager)
      (split : rest = mid ++ s :: tail) (completes : Completes m.sf now (before ++ mid) s)
      (fails : faults.writes (before ++ mid).length = false)
        (seen : m'.sf = (m.after r now (before ++ mid ++ [s])).sf) :
      Received r now faults m before rest (.err .ioError, m')

theorem Received.cons {m : SessionManager} {before rest : List PeerStats} {s : PeerStats}
    {res : Outcome Error Unit × SessionManager} (h : Received r now faults m (before ++ [s]) rest res)
    (hs : Completes m.sf now before s → faults.writes before.length = true) :
    Received r now faults m before (s :: rest) res := by
  cases h with
  | through writes =>
    rw [List.append_assoc]
    refine .through fun mid x tail heq hcomp => ?_
    cases mid with
    | nil =>
      simp only [List.nil_append, List.cons.injEq] at heq
      rw [List.append_nil] at hcomp ⊢
      exact hs (heq.1 ▸ hcomp)
    | cons y mid =>
      simp only [List.cons_append, List.cons.injEq] at heq
      obtain ⟨rfl, heq⟩ := heq
      simpa using writes mid x tail heq (by simpa using hcomp)
  | stopped mid x tail m' split completes fails seen =>
    exact .stopped (s :: mid) x tail m' (by rw [split]; rfl) (by simpa using completes) (by simpa using fails)
      (by simpa using seen)

theorem receiveFrom_received (r : IPRefiner) (now : Time) (faults : Faults) (m : SessionManager) :
    ∀ (rest before : List PeerStats),
      Received r now faults m before rest (receiveFrom r now faults before.length rest (m.after r now before))
  | [], before => by
    have h : Received r now faults m before [] _ := .through (by simp)
    rwa [List.append_nil] at h
  | s :: rest, before => by
    have hprog := m.progress_after r now before
    have hcat := m.after_concat r now before s
    have hana : analyze r now s (m.after r now before) =
        (.ok ((m.after r now before).sf.analyze r now s).1,
          ⟨(m.after r now before).sessions, ((m.after r now before).sf.analyze r now s).2⟩) := rfl
    have hrest := receiveFrom_received r now faults m rest (before ++ [s])
    rw [hcat, List.length_append, List.length_singleton] at hrest
    rw [receiveFrom, Proc.bind_of_ok hana]
    by_cases hs : Completes m.sf now before s
    · obtain ⟨cur, -, hres⟩ := hprog.analyze_completes hs
      rw [hres] at hrest hcat ⊢
      simp only [writeCompletedSession]
      cases hw : faults.writes before.length with
      | true =>
        rw [if_pos rfl, Proc.bind_of_ok (Proc.modify_apply _ _)]
        exact hrest.cons fun _ => hw
      | false =>
        rw [if_neg Bool.false_ne_true, Proc.bind_of_err (Proc.fail_apply _ _)]
        exact .stopped [] s rest _ rfl (by simpa using hs) (by simpa using hw) (by simp [hcat])
    · have hnone := hprog.not_completes hs
      rw [hnone, Option.toList_none, List.map_nil, List.append_nil] at hrest
      rw [hnone]
      exact hrest.cons fun h => absurd h hs

/-! ## What a dump loses -/

/-- The rows a dump adds are, for every peer, the session it removed, once. -/
structure StoredOnce (r : IPRefiner) (dump : List PeerStats) (m m' : SessionManager)
    (new : List SessionRow) : Prop where
  rows : m'.sessions = m.sessions ++ new
  removed : ∀ p cur, m.sf.activeSessions p = some cur →
    (∀ cur', m'.sf.activeSessions p = some cur' → cur'.addr ≠ cur.addr) →
    ∃ s ∈ dump, s.publicKey = p ∧ new.filter (fun row => row.peerPublicKey = p) =
      [(complete r cur (m.sf.effective s) s.endpoint).session.row]
  nothingElse : ∀ p, (m.sf.activeSessions p = none ∨
      ∃ cur, m.sf.activeSessions p = some cur ∧ m'.sf.activeSessions p = some cur) →
    new.filter (fun row => row.peerPublicKey = p) = []

/-- The table and the finder are as they were, and the dump sent again completes the same sessions. -/
structure AsBefore (r : IPRefiner) (dump : List PeerStats) (m m' : SessionManager) : Prop where
  sessions : m'.sessions = m.sessions
  active : m'.sf.activeSessions = m.sf.activeSessions
  last : ∀ p, (m'.sf.lastHandshake p).map (·.unixNano) = (m.sf.lastHandshake p).map (·.unixNano)
  retry : ∀ now, ((analyzeAll r (calls now dump) m'.sf).1.map fun h => h.session.utc) =
    (analyzeAll r (calls now dump) m.sf).1.map fun h => h.session.utc

/-- No completed session is lost. -/
def LosesNothing (r : IPRefiner) (dump : List PeerStats) (m : SessionManager)
    (res : Outcome Error Unit × SessionManager) : Prop :=
  (res.1 = .ok () ∧ ∃ new, StoredOnce r dump m res.2 new) ∨ ((∃ e, res.1 = .err e) ∧ AsBefore r dump m res.2)

/-- The writes of a dump, at the reports that complete a session, all succeed. -/
def WritesSucceed (m : SessionManager) (now : Time) (faults : Faults) (dump : List PeerStats) : Prop :=
  ∀ before s rest, dump = before ++ s :: rest → Completes m.sf now before s → faults.writes before.length = true

/-- The report tells the finder nothing: its handshake is not later than the one known, and the
peer has an active session just if that one is recent. -/
def Unremarkable (f : SessionFinder) (now : Time) (s : PeerStats) : Prop :=
  ∃ last, f.lastHandshake s.publicKey = some last ∧ s.lastHandshakeTime.unixNano ≤ last.unixNano ∧
    (f.activeSessions s.publicKey).isSome = recent now last

/-- A dump that is analysed to its end, with every write made. -/
theorem after_storedOnce (m : SessionManager) (dump : List PeerStats) :
    StoredOnce r dump m (m.after r now dump) ((analyzeAll r (calls now dump) m.sf).1.map (·.session.row)) := by
  have h := m.progress_after r now dump
  generalize hout : (analyzeAll r (calls now dump) m.sf).1 = out at h
  have hfilter : ∀ p, (out.map (·.session.row)).filter (fun row => row.peerPublicKey = p) =
      (ofPeer p out).map (·.session.row) := fun p => by
    rw [ofPeer, List.filter_map]; rfl
  refine ⟨by rw [after, hout], fun p cur hcur hgone => ?_, fun p hp => ?_⟩
  · rw [hfilter]
    rcases h.busy p cur hcur with ⟨hsame, -⟩ | ⟨-, s, hs, hk, hone⟩
    · exact absurd rfl (hgone cur hsame)
    · exact ⟨s, hs, hk, by rw [hone]; rfl⟩
  · rw [hfilter]
    rcases hp with hnone | ⟨cur, hcur, hsame⟩
    · rw [h.idle p hnone]; rfl
    · rcases h.busy p cur hcur with ⟨-, hout⟩ | ⟨hnew, -⟩
      · rw [hout]; rfl
      · exact absurd (hnew cur hsame) (Nat.not_le.2 (m.sf.addr_lt p cur hcur))

/-- A finder that came out of a dump as it was found nothing of note in it. -/
theorem unremarkable_of_after {m : SessionManager} {dump : List PeerStats}
    (hactive : (m.after r now dump).sf.activeSessions = m.sf.activeSessions)
    (hlast : ∀ p, ((m.after r now dump).sf.lastHandshake p).map (·.unixNano) = (m.sf.lastHandshake p).map (·.unixNano))
    {s : PeerStats} (hs : s ∈ dump) : Unremarkable m.sf now s := by
  obtain ⟨t, ht, hle, hsettled⟩ := (m.progress_after r now dump).known s hs
  have hp := hlast s.publicKey
  rw [ht, Option.map_some] at hp
  obtain ⟨last, hl, heq⟩ := Option.map_eq_some_iff.1 hp.symm
  refine ⟨last, hl, hle.trans_eq heq.symm, ?_⟩
  rw [← hactive, hsettled, recent_congr heq.symm]

/-- Reports of no note leave the finder as it was. -/
theorem after_of_unremarkable {m : SessionManager} : ∀ {dump : List PeerStats}, (∀ s ∈ dump, Unremarkable m.sf now s) →
    (m.after r now dump).sessions = m.sessions ∧ (m.after r now dump).sf.activeSessions = m.sf.activeSessions ∧
      ∀ p, ((m.after r now dump).sf.lastHandshake p).map (·.unixNano) = (m.sf.lastHandshake p).map (·.unixNano) := by
  intro dump
  induction dump using List.reverseRecOn with
  | nil => exact fun _ => ⟨by simp [after, calls, analyzeAll], rfl, fun _ => rfl⟩
  | append_singleton dump s ih =>
    intro hall
    obtain ⟨hrows, hactive, hlast⟩ := ih fun x hx => hall x (List.mem_append_left _ hx)
    obtain ⟨last, hl, hle, hsettled⟩ := hall s (by simp)
    have heff : ((m.after r now dump).sf.effective s).unixNano = last.unixNano := by
      rw [effective_unixNano, hlast, hl]
      exact max_eq_right hle
    -- neither edge: activity and session agree
    have hlevel : (m.after r now dump).sf.analyze r now s =
        (none, (m.after r now dump).sf.setLast s.publicKey ((m.after r now dump).sf.effective s)) := by
      have hcases := (m.after r now dump).sf.analyze_cases r now s
      generalize (m.after r now dump).sf.analyze r now s = res at hcases
      rw [← recent_congr heff, ← hactive] at hsettled
      cases hcases with
      | up absent active => rw [absent, active] at hsettled; cases hsettled
      | down cur present stale => rw [present, stale] at hsettled; cases hsettled
      | level _ => rfl
    rw [after_concat, hlevel]
    refine ⟨by simpa using hrows, hactive, fun p => ?_⟩
    by_cases hp : p = s.publicKey
    · subst hp
      simp [setLast, heff, hl]
    · simpa [setLast, Function.update_of_ne hp] using hlast p

theorem asBefore_of {m m' : SessionManager} {dump : List PeerStats} (hrows : m'.sessions = m.sessions)
    (hactive : m'.sf.activeSessions = m.sf.activeSessions)
    (hlast : ∀ p, (m'.sf.lastHandshake p).map (·.unixNano) = (m.sf.lastHandshake p).map (·.unixNano)) :
    AsBefore r dump m m' :=
  ⟨hrows, hactive, hlast, fun now => Alike.analyzeAll ⟨fun p => by rw [hactive], hlast⟩ r (calls now dump)⟩

/-- What the transaction comes to. -/
theorem receivePeerStats_cases (r : IPRefiner) (now : Time) (faults : Faults) (dump : List PeerStats)
    (m : SessionManager) :
    (faults.opens = false ∧ receivePeerStats r now faults dump m = (.err .ioError, m)) ∨
    (WritesSucceed m now faults dump ∧ faults.commits = true ∧
      receivePeerStats r now faults dump m = (.ok (), m.after r now dump)) ∨
    (faults.opens = true ∧ faults.commits = false ∧
      receivePeerStats r now faults dump m = (.err .commit, ⟨m.sessions, (m.after r now dump).sf⟩)) ∨
    ∃ before s rest, dump = before ++ s :: rest ∧ Completes m.sf now before s ∧ faults.writes before.length = false ∧
      faults.opens = true ∧
      receivePeerStats r now faults dump m = (.err .ioError, ⟨m.sessions, (m.after r now (before ++ [s])).sf⟩) := by
  unfold receivePeerStats withTx
  cases ho : faults.opens with
  | false => exact .inl ⟨rfl, rfl⟩
  | true =>
    have hstart : m.after r now [] = m := by simp [after, calls, analyzeAll]
    have hrec := m.receiveFrom_received r now faults dump []
    rw [hstart, List.length_nil] at hrec
    generalize receiveFrom r now faults 0 dump m = res at hrec
    rw [if_pos rfl]
    refine .inr ?_
    cases hrec with
    | through writes =>
      cases hc : faults.commits with
      | true => exact .inl ⟨writes, rfl, rfl⟩
      | false => exact .inr (.inl ⟨rfl, rfl, rfl⟩)
    | stopped mid s tail m' split completes fails seen =>
      refine .inr (.inr ⟨mid, s, tail, split, completes, fails, rfl, ?_⟩)
      simp [seen]

/-- A dump loses nothing just if its transaction is not opened, or commits with every write made,
or the dump had nothing of note: a rollback does not give the finder its sessions back. -/
theorem receivePeerStats_losesNothing_iff (r : IPRefiner) (now : Time) (faults : Faults) (dump : List PeerStats)
    (m : SessionManager) :
    LosesNothing r dump m (receivePeerStats r now faults dump m) ↔
      faults.opens = false ∨ (faults.commits = true ∧ WritesSucceed m now faults dump) ∨
        ∀ s ∈ dump, Unremarkable m.sf now s := by
  rcases m.receivePeerStats_cases r now faults dump with
    ⟨ho, hres⟩ | ⟨hwrites, hc, hres⟩ | ⟨ho, hc, hres⟩ | ⟨before, s, rest, hdump, hcomp, hfail, ho, hres⟩
  · rw [hres]
    exact ⟨fun _ => .inl ho, fun _ => .inr ⟨⟨_, rfl⟩, asBefore_of rfl rfl fun _ => rfl⟩⟩
  · rw [hres]
    exact ⟨fun _ => .inr (.inl ⟨hc, hwrites⟩), fun _ => .inl ⟨rfl, _, m.after_storedOnce dump⟩⟩
  · rw [hres]
    constructor
    · rintro (⟨hok, -⟩ | ⟨-, hbefore⟩)
      · cases hok
      · exact .inr (.inr fun s hs => unremarkable_of_after hbefore.active hbefore.last hs)
    · rintro (h | ⟨h, -⟩ | hall)
      · rw [ho] at h; cases h
      · rw [hc] at h; cases h
      · obtain ⟨-, hactive, hlast⟩ := after_of_unremarkable (r := r) hall
        exact .inr ⟨⟨_, rfl⟩, asBefore_of rfl hactive hlast⟩
  · -- the session was taken out of the finder, and its row is rolled back
    obtain ⟨cur, hcur, hana⟩ := (m.progress_after r now before).analyze_completes hcomp
    rw [hres]
    constructor
    · rintro (⟨hok, -⟩ | ⟨-, hbefore⟩)
      · cases hok
      · have hp := congrFun hbefore.active s.publicKey
        simp [after_concat, hana, delete, hcur] at hp
    · rintro (h | ⟨-, hwrites⟩ | hall)
      · rw [ho] at h; cases h
      · rw [hwrites before s rest hdump hcomp] at hfail; cases hfail
      · obtain ⟨last, hl, hle, hsettled⟩ := hall s (by rw [hdump]; simp)
        have heff : (m.sf.effective s).unixNano = last.unixNano := by
          rw [effective_unixNano, hl]
          exact max_eq_right hle
        rw [hcur, ← recent_congr heff, hcomp.2.2] at hsettled
        cases hsettled

/-- A peer's last handshake, twenty minutes ago when the second dump comes. -/
def staleDump : List PeerStats := [⟨"pk1", ⟨0, 0⟩, "192.0.2.1"⟩]

/-- The manager after the first of two such dumps: the peer has a session. -/
def busyManager : SessionManager :=
  (receivePeerStats ⟨[]⟩ ⟨0, 0⟩ ⟨true, fun _ => true, true⟩ staleDump ⟨[], .empty⟩).2

/-- The commit of the second dump fails: the session is in neither the table nor the finder. -/
theorem receivePeerStats_loses_session : ¬ ∀ (r : IPRefiner) (now : Time) (faults : Faults) (dump : List PeerStats)
    (m : SessionManager), LosesNothing r dump m (receivePeerStats r now faults dump m) := by
  intro h
  rcases h ⟨[]⟩ ⟨1200 * 10 ^ 9, 0⟩ ⟨true, fun _ => true, false⟩ staleDump busyManager with ⟨hok, -⟩ | ⟨-, hbefore⟩
  · exact absurd hok (by decide)
  · exact absurd (congrFun hbefore.active "pk1") (by decide)

end SessionManager

end Wig.Sessions
