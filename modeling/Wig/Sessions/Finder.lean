/-
The session finder: handshake times reported for peers, in any order and with any clock, become
sessions. A peer's sessions follow one another, and every handshake that was judged active lies in
one of them.
-/
import Wig.Model.Basic
import Wig.Net.Text

namespace Wig.Sessions

open Wig.Net

/-! ## Sessions -/

/-- `model.Session`. -/
structure Session where
  peerPublicKey : String
  srcASNum : String
  srcASOrg : String
  srcCountry : String
  beginTimestamp : Time
  endTimestamp : Time
  active : Bool
  deriving DecidableEq, Repr

/-- A `*model.Session`: the object and its address. -/
structure Handle where
  addr : Nat
  session : Session
  deriving DecidableEq, Repr

/-- `gateway.PeerStats`, as far as sessions go. -/
structure PeerStats where
  publicKey : String
  lastHandshakeTime : Time
  endpoint : String

/-- What a GeoIP database has of an address. -/
structure GeoRecord where
  isoCode : String
  asNumber : String
  asOrganization : String

/-- `ipRefiner`, with the lookup of each database it has open; a lookup may fail. -/
structure IPRefiner where
  dbs : List (IP → Option GeoRecord)

/-- `net.ParseIP`: the first dot or colon tells the family. -/
def parseIP (s : List Char) : Option IP :=
  match s.find? fun c => c = '.' ∨ c = ':' with
  | some '.' => parseIPv4 s
  | some _ => parseIPv6 s
  | none => none

/-- A field is set unless the record has none. -/
def setUnlessEmpty (new old : String) : String := if new = "" then old else new

def addRecord (sess : Session) (record : GeoRecord) : Session :=
  { sess with
    srcCountry := setUnlessEmpty record.isoCode sess.srcCountry
    srcASNum := setUnlessEmpty record.asNumber sess.srcASNum
    srcASOrg := setUnlessEmpty record.asOrganization sess.srcASOrg }

def addIPInfo (r : IPRefiner) (sess : Session) (ipStr : String) : Session :=
  match parseIP ipStr.toList with
  | none => sess
  | some ip => r.dbs.foldl (fun sess db => ((db ip).map (addRecord sess)).getD sess) sess

/-- What the refiner leaves alone. -/
structure SameSpan (s s' : Session) : Prop where
  peer : s'.peerPublicKey = s.peerPublicKey
  begins : s'.beginTimestamp = s.beginTimestamp
  ends : s'.endTimestamp = s.endTimestamp

theorem SameSpan.refl (s : Session) : SameSpan s s := ⟨rfl, rfl, rfl⟩

theorem SameSpan.trans {s t u : Session} (h : SameSpan s t) (h' : SameSpan t u) : SameSpan s u :=
  ⟨h'.peer.trans h.peer, h'.begins.trans h.begins, h'.ends.trans h.ends⟩

theorem addIPInfo_span (r : IPRefiner) (sess : Session) (ipStr : String) : SameSpan sess (addIPInfo r sess ipStr) := by
  unfold addIPInfo
  cases parseIP ipStr.toList with
  | none => exact .refl sess
  | some ip =>
    simp only
    induction r.dbs generalizing sess with
    | nil => exact .refl sess
    | cons db dbs ih =>
      rw [List.foldl_cons]
      refine SameSpan.trans ?_ (ih _)
      cases db ip with
      | none => exact .refl sess
      | some record => exact ⟨rfl, rfl, rfl⟩

/-! ## The finder -/

def sessionInactivityTimeout : Int := 600 * 10 ^ 9

/-- `SessionFinder`. A session is filed under its peer, and each is made at an address of its own. -/
structure SessionFinder where
  activeSessions : String → Option Handle
  lastHandshake : String → Option Time
  next : Nat
  keyed : ∀ p cur, activeSessions p = some cur → cur.session.peerPublicKey = p
  addr_lt : ∀ p cur, activeSessions p = some cur → cur.addr < next

namespace SessionFinder

/-- `NewSessionFinder` on an empty database. -/
def empty : SessionFinder where
  activeSessions _ := none
  lastHandshake _ := none
  next := 0
  keyed _ _ h := by cases h
  addr_lt _ _ h := by cases h

/-- `f.lastHandshake[pkey] = ht`. -/
def setLast (f : SessionFinder) (pkey : String) (ht : Time) : SessionFinder :=
  { f with lastHandshake := Function.update f.lastHandshake pkey (some ht) }

def setHandshakeTime (f : SessionFinder) (pkey : String) (ht : Time) : Time × SessionFinder :=
  match f.lastHandshake pkey with
  | some last => if ht.before last then (last, f) else (ht, f.setLast pkey ht)
  | none => (ht, f.setLast pkey ht)

def newSession (pkey : String) (ht : Time) : Session := ⟨pkey, "", "", "", ht, Time.zero, true⟩

/-- A peer's new session, filed. -/
def begin_ (f : SessionFinder) (pkey : String) (ht : Time) : SessionFinder where
  activeSessions := Function.update f.activeSessions pkey (some ⟨f.next, newSession pkey ht⟩)
  lastHandshake := f.lastHandshake
  next := f.next + 1
  keyed p cur h := by
    by_cases hp : p = pkey
    · subst hp; rw [Function.update_self] at h; cases h; rfl
    · rw [Function.update_of_ne hp] at h; exact f.keyed p cur h
  addr_lt p cur h := by
    by_cases hp : p = pkey
    · subst hp; rw [Function.update_self] at h; cases h; exact Nat.lt_succ_self _
    · rw [Function.update_of_ne hp] at h; exact Nat.lt_succ_of_lt (f.addr_lt p cur h)

/-- `delete(f.activeSessions, pkey)`. -/
def delete (f : SessionFinder) (pkey : String) : SessionFinder where
  activeSessions := Function.update f.activeSessions pkey none
  lastHandshake := f.lastHandshake
  next := f.next
  keyed p cur h := by
    by_cases hp : p = pkey
    · subst hp; rw [Function.update_self] at h; cases h
    · rw [Function.update_of_ne hp] at h; exact f.keyed p cur h
  addr_lt p cur h := by
    by_cases hp : p = pkey
    · subst hp; rw [Function.update_self] at h; cases h
    · rw [Function.update_of_ne hp] at h; exact f.addr_lt p cur h

/-- A session on its down edge. -/
def complete (r : IPRefiner) (cur : Handle) (ht : Time) (endpoint : String) : Handle :=
  { cur with session := addIPInfo r { cur.session with endTimestamp := ht, active := false } endpoint }

/-- `now.Add(-sessionInactivityTimeout).Before(ht)`. -/
def recent (now ht : Time) : Bool := (now.add (-sessionInactivityTimeout)).before ht

def analyze (r : IPRefiner) (now : Time) (s : PeerStats) (f : SessionFinder) : Option Handle × SessionFinder :=
  let (ht, f) := f.setHandshakeTime s.publicKey s.lastHandshakeTime
  let active := recent now ht
  match f.activeSessions s.publicKey, active with
  -- "up" edge, a new session
  | none, true => (none, f.begin_ s.publicKey ht)
  -- "down" edge, a session has become stale
  | some cur, false => (some (complete r cur ht s.endpoint), f.delete s.publicKey)
  | _, _ => (none, f)

/-- One call: the clock and the report. -/
abbrev Call := Time × PeerStats

/-- What a list of calls returned, in order, and the finder after them. -/
def analyzeAll (r : IPRefiner) : List Call → SessionFinder → List Handle × SessionFinder
  | [], f => ([], f)
  | c :: cs, f =>
    let (out, f') := f.analyze r c.1 c.2
    let (outs, f'') := analyzeAll r cs f'
    (out.toList ++ outs, f'')

/-! ## One call -/

/-- The time a call goes by: the report's, unless a later one is known. -/
def effective (f : SessionFinder) (s : PeerStats) : Time := (f.setHandshakeTime s.publicKey s.lastHandshakeTime).1

theorem setHandshakeTime_cases (f : SessionFinder) (pkey : String) (ht : Time) :
    (∃ last, f.lastHandshake pkey = some last ∧ ht.unixNano < last.unixNano ∧ f.setHandshakeTime pkey ht = (last, f)) ∨
    (∀ last, f.lastHandshake pkey = some last → last.unixNano ≤ ht.unixNano) ∧
      f.setHandshakeTime pkey ht = (ht, f.setLast pkey ht) := by
  unfold setHandshakeTime
  cases hl : f.lastHandshake pkey with
  | none => exact .inr ⟨by simp, rfl⟩
  | some last =>
    by_cases hb : ht.unixNano < last.unixNano
    · exact .inl ⟨last, rfl, hb, by simp [Time.before, hb]⟩
    · refine .inr ⟨fun l h => ?_, by simp [Time.before, hb]⟩
      cases h
      exact not_lt.1 hb

/-- Either way the map then has the effective time. -/
theorem setHandshakeTime_eq (f : SessionFinder) (s : PeerStats) :
    f.setHandshakeTime s.publicKey s.lastHandshakeTime = (f.effective s, f.setLast s.publicKey (f.effective s)) := by
  unfold effective
  rcases f.setHandshakeTime_cases s.publicKey s.lastHandshakeTime with ⟨last, hl, _, he⟩ | ⟨_, he⟩
  · rw [he, setLast, ← hl, Function.update_eq_self]
  · rw [he]

theorem le_effective (f : SessionFinder) (s : PeerStats) {last : Time} (hl : f.lastHandshake s.publicKey = some last) :
    last.unixNano ≤ (f.effective s).unixNano := by
  unfold effective
  rcases f.setHandshakeTime_cases s.publicKey s.lastHandshakeTime with ⟨l, hl', _, he⟩ | ⟨hle, he⟩
  · rw [he]; exact (Option.some.inj (hl.symm.trans hl')) ▸ le_rfl
  · rw [he]; exact hle last hl

theorem effective_congr {f g : SessionFinder} {s : PeerStats}
    (h : g.lastHandshake s.publicKey = f.lastHandshake s.publicKey) : g.effective s = f.effective s := by
  unfold effective setHandshakeTime
  rw [h]
  cases f.lastHandshake s.publicKey with
  | none => rfl
  | some last => by_cases hb : s.lastHandshakeTime.before last <;> simp [hb]

/-- What one call does, by the edge it sees. -/
inductive Analyzed (r : IPRefiner) (now : Time) (s : PeerStats) (f : SessionFinder) :
    Option Handle × SessionFinder → Prop
  | up (absent : f.activeSessions s.publicKey = none) (active : recent now (f.effective s) = true) :
      Analyzed r now s f (none, (f.setLast s.publicKey (f.effective s)).begin_ s.publicKey (f.effective s))
  | down (cur : Handle) (present : f.activeSessions s.publicKey = some cur)
      (stale : recent now (f.effective s) = false) :
      Analyzed r now s f (some (complete r cur (f.effective s) s.endpoint),
        (f.setLast s.publicKey (f.effective s)).delete s.publicKey)
  | level (same : (f.activeSessions s.publicKey).isSome = recent now (f.effective s)) :
      Analyzed r now s f (none, f.setLast s.publicKey (f.effective s))

theorem analyze_cases (r : IPRefiner) (now : Time) (s : PeerStats) (f : SessionFinder) :
    Analyzed r now s f (f.analyze r now s) := by
  have ha : (f.setLast s.publicKey (f.effective s)).activeSessions = f.activeSessions := rfl
  unfold analyze
  rw [setHandshakeTime_eq]
  simp only [ha]
  cases hc : f.activeSessions s.publicKey with
  | none =>
    cases hr : recent now (f.effective s) with
    | true => exact .up hc hr
    | false => exact .level (by rw [hc, hr]; rfl)
  | some cur =>
    cases hr : recent now (f.effective s) with
    | true => exact .level (by rw [hc, hr]; rfl)
    | false => exact .down cur hc hr

theorem begin_self (f : SessionFinder) (pkey : String) (ht : Time) :
    (f.begin_ pkey ht).activeSessions pkey = some ⟨f.next, newSession pkey ht⟩ := Function.update_self ..

theorem delete_self (f : SessionFinder) (pkey : String) : (f.delete pkey).activeSessions pkey = none :=
  Function.update_self ..

theorem complete_span (r : IPRefiner) (cur : Handle) (ht : Time) (endpoint : String) :
    SameSpan { cur.session with endTimestamp := ht } (complete r cur ht endpoint).session := by
  have h := addIPInfo_span r { cur.session with endTimestamp := ht, active := false } endpoint
  exact ⟨h.peer, h.begins, h.ends⟩

section Frame

variable (r : IPRefiner) (now : Time) (s : PeerStats) (f : SessionFinder)

theorem analyze_lastHandshake : (f.analyze r now s).2.lastHandshake =
    Function.update f.lastHandshake s.publicKey (some (f.effective s)) := by
  generalize hres : f.analyze r now s = res
  have hcases := f.analyze_cases r now s
  rw [hres] at hcases
  cases hcases <;> rfl

/-- A call about another peer leaves the session of this one alone. -/
theorem analyze_activeSessions_of_ne {p : String} (hp : p ≠ s.publicKey) :
    (f.analyze r now s).2.activeSessions p = f.activeSessions p := by
  generalize hres : f.analyze r now s = res
  have hcases := f.analyze_cases r now s
  rw [hres] at hcases
  cases hcases with
  | up _ _ => exact Function.update_of_ne hp ..
  | down _ _ _ => exact Function.update_of_ne hp ..
  | level _ => rfl

/-- A peer has a session after a call about it just if the time the call goes by is recent. -/
theorem analyze_settled : ((f.analyze r now s).2.activeSessions s.publicKey).isSome = recent now (f.effective s) := by
  generalize hres : f.analyze r now s = res
  have hcases := f.analyze_cases r now s
  rw [hres] at hcases
  cases hcases with
  | up _ active => rw [active, begin_self]; rfl
  | down _ _ stale => rw [stale, delete_self]; rfl
  | level same => exact same

theorem analyze_peer {h : Handle} (hout : (f.analyze r now s).1 = some h) : h.session.peerPublicKey = s.publicKey := by
  generalize hres : f.analyze r now s = res at hout
  have hcases := f.analyze_cases r now s
  rw [hres] at hcases
  cases hcases with
  | up _ _ => cases hout
  | down cur present _ =>
    cases hout
    exact (complete_span r cur _ _).peer.trans (f.keyed _ _ present)
  | level _ => cases hout

end Frame

theorem analyzeAll_cons (r : IPRefiner) (c : Call) (cs : List Call) (f : SessionFinder) :
    analyzeAll r (c :: cs) f =
      ((f.analyze r c.1 c.2).1.toList ++ (analyzeAll r cs (f.analyze r c.1 c.2).2).1,
        (analyzeAll r cs (f.analyze r c.1 c.2).2).2) := rfl

theorem analyzeAll_append (r : IPRefiner) : ∀ (cs cs' : List Call) (f : SessionFinder),
    analyzeAll r (cs ++ cs') f =
      ((analyzeAll r cs f).1 ++ (analyzeAll r cs' (analyzeAll r cs f).2).1, (analyzeAll r cs' (analyzeAll r cs f).2).2)
  | [], _, _ => rfl
  | c :: cs, cs', f => by
    rw [List.cons_append, analyzeAll_cons, analyzeAll_append r cs cs', analyzeAll_cons, List.append_assoc]

/-! ## The history of a peer -/

/-- The handshake times reported for a peer. -/
def reported (p : String) (calls : List Call) : Set Int :=
  {t | ∃ c ∈ calls, c.2.publicKey = p ∧ c.2.lastHandshakeTime.unixNano = t}

/-- A call about the peer was judged active, by the greatest handshake time reported so far. -/
def Judged (p : String) (calls : List Call) (h : Int) : Prop :=
  ∃ before c, before ++ [c] <+: calls ∧ c.2.publicKey = p ∧ IsGreatest (reported p (before ++ [c])) h ∧
    c.1.unixNano - sessionInactivityTimeout < h

/-- The sessions returned for a peer, in order. -/
def completed (p : String) (out : List Handle) : List Session :=
  (out.map (·.session)).filter fun s => s.peerPublicKey = p

/-- The sessions of a peer follow one another, cover the handshakes judged active, and none was
returned twice. -/
structure WellFormed (p : String) (calls : List Call) (out : List Handle) (f : SessionFinder) : Prop where
  span : ∀ s ∈ completed p out, s.beginTimestamp.unixNano ≤ s.endTimestamp.unixNano
  ordered : (completed p out).Pairwise fun s t => s.endTimestamp.unixNano ≤ t.beginTimestamp.unixNano
  active : ∀ cur, f.activeSessions p = some cur → ∀ s ∈ completed p out,
    s.endTimestamp.unixNano ≤ cur.session.beginTimestamp.unixNano
  covered : ∀ h, Judged p calls h →
    (∃ s ∈ completed p out, s.beginTimestamp.unixNano ≤ h ∧ h ≤ s.endTimestamp.unixNano) ∨
    ∃ cur, f.activeSessions p = some cur ∧ cur.session.beginTimestamp.unixNano ≤ h
  once : (out.map (·.addr)).Nodup

/-! ## What a call keeps -/

theorem reported_append (p : String) (calls : List Call) (c : Call) :
    reported p (calls ++ [c]) =
      if c.2.publicKey = p then insert c.2.lastHandshakeTime.unixNano (reported p calls) else reported p calls := by
  ext t
  by_cases hc : c.2.publicKey = p
  · simp [reported, hc, or_and_right, exists_or, or_comm, eq_comm]
  · simp [reported, hc, or_and_right, exists_or]

theorem reported_mono {p : String} {calls : List Call} {before : List Call} (h : before <+: calls) :
    reported p before ⊆ reported p calls := by
  rintro t ⟨c, hc, hp, ht⟩
  exact ⟨c, h.subset hc, hp, ht⟩

theorem judged_append {p : String} {calls : List Call} {c : Call} {h : Int} :
    Judged p (calls ++ [c]) h ↔ Judged p calls h ∨ c.2.publicKey = p ∧ IsGreatest (reported p (calls ++ [c])) h ∧
      c.1.unixNano - sessionInactivityTimeout < h := by
  constructor
  · rintro ⟨before, c', hpre, hrest⟩
    rcases List.prefix_concat_iff.1 hpre with heq | hpre
    · obtain ⟨rfl, hc⟩ := List.append_inj' heq rfl
      cases hc
      exact .inr hrest
    · exact .inl ⟨before, c', hpre, hrest⟩
  · rintro (⟨before, c', hpre, hrest⟩ | hnew)
    · exact ⟨before, c', hpre.trans (List.prefix_append _ _), hrest⟩
    · exact ⟨calls, c, List.prefix_rfl, hnew⟩

theorem Judged.mem_reported {p : String} {calls : List Call} {h : Int} (hj : Judged p calls h) :
    h ∈ reported p calls := by
  obtain ⟨before, c, hpre, -, hg, -⟩ := hj
  exact reported_mono hpre hg.1

@[simp] theorem completed_append (p : String) (out out' : List Handle) :
    completed p (out ++ out') = completed p out ++ completed p out' := by
  simp [completed]

theorem recent_iff {now ht : Time} : recent now ht = true ↔ now.unixNano - sessionInactivityTimeout < ht.unixNano := by
  simp [recent, Time.before, Time.add, sub_eq_add_neg]

/-- The invariant behind `WellFormed`: the finder knows the greatest handshake reported for the
peer, and every end of a session is the time of some report. -/
structure Chronicle (p : String) (calls : List Call) (out : List Handle) (f : SessionFinder) : Prop where
  greatest : ∀ t, f.lastHandshake p = some t → IsGreatest (reported p calls) t.unixNano
  unseen : f.lastHandshake p = none → reported p calls = ∅
  begun : ∀ cur, f.activeSessions p = some cur → cur.session.beginTimestamp.unixNano ∈ reported p calls
  ended : ∀ s ∈ completed p out, s.endTimestamp.unixNano ∈ reported p calls
  span : ∀ s ∈ completed p out, s.beginTimestamp.unixNano ≤ s.endTimestamp.unixNano
  ordered : (completed p out).Pairwise fun s t => s.endTimestamp.unixNano ≤ t.beginTimestamp.unixNano
  active : ∀ cur, f.activeSessions p = some cur → ∀ s ∈ completed p out,
    s.endTimestamp.unixNano ≤ cur.session.beginTimestamp.unixNano
  covered : ∀ h, Judged p calls h →
    (∃ s ∈ completed p out, s.beginTimestamp.unixNano ≤ h ∧ h ≤ s.endTimestamp.unixNano) ∨
    ∃ cur, f.activeSessions p = some cur ∧ cur.session.beginTimestamp.unixNano ≤ h

theorem Chronicle.empty (p : String) : Chronicle p [] [] empty where
  greatest _ h := nomatch h
  unseen _ := by simp [reported]
  begun _ h := nomatch h
  ended _ h := nomatch h
  span _ h := nomatch h
  ordered := .nil
  active _ h := nomatch h
  covered h hj := by simpa [reported] using hj.mem_reported

/-- The effective time of a call is the greatest reported for its peer, that report included. -/
theorem Chronicle.effective {calls : List Call} {out : List Handle} {f : SessionFinder} {c : Call}
    (hf : Chronicle c.2.publicKey calls out f) :
    IsGreatest (reported c.2.publicKey (calls ++ [c])) (f.effective c.2).unixNano := by
  rw [reported_append, if_pos rfl]
  unfold SessionFinder.effective
  rcases f.setHandshakeTime_cases c.2.publicKey c.2.lastHandshakeTime with ⟨last, hl, hlt, he⟩ | ⟨hle, he⟩
  · rw [he]
    have h := (hf.greatest last hl).insert c.2.lastHandshakeTime.unixNano
    rwa [max_eq_right hlt.le] at h
  · rw [he]
    cases hl : f.lastHandshake c.2.publicKey with
    | none => rw [hf.unseen hl]; simp
    | some last =>
      have h := (hf.greatest last hl).insert c.2.lastHandshakeTime.unixNano
      rwa [max_eq_left (hle last hl)] at h

/-- A call about another peer changes nothing of this one's. -/
theorem Chronicle.other {p : String} {calls : List Call} {out : List Handle} {f : SessionFinder}
    (hf : Chronicle p calls out f) (r : IPRefiner) {c : Call} (hc : c.2.publicKey ≠ p) :
    Chronicle p (calls ++ [c]) (out ++ (f.analyze r c.1 c.2).1.toList) (f.analyze r c.1 c.2).2 := by
  have hrep : reported p (calls ++ [c]) = reported p calls := by rw [reported_append, if_neg hc]
  have hj : ∀ h, Judged p (calls ++ [c]) h → Judged p calls h := fun h hj =>
    (judged_append.1 hj).resolve_right fun hnew => hc hnew.1
  have ha : (f.analyze r c.1 c.2).2.activeSessions p = f.activeSessions p :=
    analyze_activeSessions_of_ne r c.1 c.2 f hc.symm
  have hl : (f.analyze r c.1 c.2).2.lastHandshake p = f.lastHandshake p := by
    rw [analyze_lastHandshake, Function.update_of_ne hc.symm]
  have hcomp : completed p (out ++ (f.analyze r c.1 c.2).1.toList) = completed p out := by
    cases ho : (f.analyze r c.1 c.2).1 with
    | none => simp
    | some h => simp [completed, analyze_peer r c.1 c.2 f ho, hc]
  refine ⟨?_, ?_, ?_, ?_, ?_, ?_, ?_, ?_⟩
  · rw [hl, hrep]; exact hf.greatest
  · rw [hl, hrep]; exact hf.unseen
  · rw [ha, hrep]; exact hf.begun
  · rw [hcomp, hrep]; exact hf.ended
  · rw [hcomp]; exact hf.span
  · rw [hcomp]; exact hf.ordered
  · rw [ha, hcomp]; exact hf.active
  · rw [ha, hcomp]; exact fun h hjudged => hf.covered h (hj h hjudged)

section Own

variable {calls : List Call} {out : List Handle} {f : SessionFinder} {c : Call}

theorem Chronicle.le_effective (hf : Chronicle c.2.publicKey calls out f) {t : Int}
    (ht : t ∈ reported c.2.publicKey calls) : t ≤ (f.effective c.2).unixNano :=
  hf.effective.2 (reported_mono (List.prefix_append _ _) ht)

/-- The last call is judged by the effective time itself. -/
theorem Chronicle.judged (hf : Chronicle c.2.publicKey calls out f) {h : Int}
    (hj : Judged c.2.publicKey (calls ++ [c]) h) :
    Judged c.2.publicKey calls h ∨ h = (f.effective c.2).unixNano ∧ recent c.1 (f.effective c.2) = true := by
  refine (judged_append.1 hj).imp_right ?_
  rintro ⟨-, hgreat, hrecent⟩
  obtain rfl := hgreat.unique hf.effective
  exact ⟨rfl, recent_iff.2 hrecent⟩

/-- After a call about the peer, whatever became of its session, it is known by its greatest report. -/
theorem Chronicle.next (hf : Chronicle c.2.publicKey calls out f) {out' : List Handle} {f' : SessionFinder}
    (last : f'.lastHandshake c.2.publicKey = some (f.effective c.2))
    (begun : ∀ cur, f'.activeSessions c.2.publicKey = some cur →
      cur.session.beginTimestamp.unixNano ∈ reported c.2.publicKey (calls ++ [c]))
    (ended : ∀ s ∈ completed c.2.publicKey out', s.endTimestamp.unixNano ∈ reported c.2.publicKey (calls ++ [c]))
    (span : ∀ s ∈ completed c.2.publicKey out', s.beginTimestamp.unixNano ≤ s.endTimestamp.unixNano)
    (ordered : (completed c.2.publicKey out').Pairwise fun s t => s.endTimestamp.unixNano ≤ t.beginTimestamp.unixNano)
    (active : ∀ cur, f'.activeSessions c.2.publicKey = some cur → ∀ s ∈ completed c.2.publicKey out',
      s.endTimestamp.unixNano ≤ cur.session.beginTimestamp.unixNano)
    (covered : ∀ h, Judged c.2.publicKey (calls ++ [c]) h →
      (∃ s ∈ completed c.2.publicKey out', s.beginTimestamp.unixNano ≤ h ∧ h ≤ s.endTimestamp.unixNano) ∨
      ∃ cur, f'.activeSessions c.2.publicKey = some cur ∧ cur.session.beginTimestamp.unixNano ≤ h) :
    Chronicle c.2.publicKey (calls ++ [c]) out' f' where
  greatest t ht := by
    obtain rfl := Option.some.inj (last.symm.trans ht)
    exact hf.effective
  unseen h := by
    rw [last] at h
    cases h
  begun := begun
  ended := ended
  span := span
  ordered := ordered
  active := active
  covered := covered

theorem Chronicle.up (hf : Chronicle c.2.publicKey calls out f) (absent : f.activeSessions c.2.publicKey = none) :
    Chronicle c.2.publicKey (calls ++ [c]) out
      ((f.setLast c.2.publicKey (f.effective c.2)).begin_ c.2.publicKey (f.effective c.2)) := by
  have hnew : ∀ cur, ((f.setLast c.2.publicKey (f.effective c.2)).begin_ c.2.publicKey
      (f.effective c.2)).activeSessions c.2.publicKey = some cur → cur.session.beginTimestamp = f.effective c.2 := by
    intro cur h
    simp only [begin_, Function.update_self, Option.some.injEq] at h
    rw [← h]; rfl
  refine hf.next (Function.update_self ..) (fun cur h => ?_)
    (fun s hs => reported_mono (List.prefix_append _ _) (hf.ended s hs)) hf.span hf.ordered (fun cur h s hs => ?_)
    fun h hjudged => ?_
  · rw [hnew cur h]; exact hf.effective.1
  · rw [hnew cur h]; exact hf.le_effective (hf.ended s hs)
  · rcases hf.judged hjudged with hold | ⟨rfl, -⟩
    · refine (hf.covered h hold).imp_right ?_
      rintro ⟨cur, hcur, -⟩
      rw [absent] at hcur
      cases hcur
    · exact .inr ⟨_, Function.update_self .., le_rfl⟩

/-- What the session covered while it was active it covers now that it has ended. -/
theorem Chronicle.down (hf : Chronicle c.2.publicKey calls out f) (r : IPRefiner) {cur : Handle}
    (present : f.activeSessions c.2.publicKey = some cur) (stale : recent c.1 (f.effective c.2) = false) :
    Chronicle c.2.publicKey (calls ++ [c]) (out ++ [complete r cur (f.effective c.2) c.2.endpoint])
      ((f.setLast c.2.publicKey (f.effective c.2)).delete c.2.publicKey) := by
  have hspan := complete_span r cur (f.effective c.2) c.2.endpoint
  generalize complete r cur (f.effective c.2) c.2.endpoint = fin at hspan ⊢
  have hbegin : fin.session.beginTimestamp = cur.session.beginTimestamp := hspan.begins
  have hend : fin.session.endTimestamp = f.effective c.2 := hspan.ends
  have hcomp : completed c.2.publicKey (out ++ [fin]) = completed c.2.publicKey out ++ [fin.session] := by
    have hpeer : fin.session.peerPublicKey = c.2.publicKey := hspan.peer.trans (f.keyed _ _ present)
    simp [completed, hpeer]
  have hgone : ((f.setLast c.2.publicKey (f.effective c.2)).delete c.2.publicKey).activeSessions c.2.publicKey = none :=
    Function.update_self ..
  refine hf.next (Function.update_self ..) ?_ ?_ ?_ ?_ ?_ fun h hjudged => ?_
  · rw [hgone]; exact fun _ h => nomatch h
  · rw [hcomp]
    intro s hs
    rcases List.mem_append.1 hs with hs | hs
    · exact reported_mono (List.prefix_append _ _) (hf.ended s hs)
    · rw [List.mem_singleton.1 hs, hend]; exact hf.effective.1
  · rw [hcomp]
    intro s hs
    rcases List.mem_append.1 hs with hs | hs
    · exact hf.span s hs
    · rw [List.mem_singleton.1 hs, hend, hbegin]; exact hf.le_effective (hf.begun cur present)
  · rw [hcomp]
    refine List.pairwise_append.2 ⟨hf.ordered, List.pairwise_singleton _ _, fun s hs t ht => ?_⟩
    rw [List.mem_singleton.1 ht, hbegin]
    exact hf.active cur present s hs
  · rw [hgone]; exact fun _ h => nomatch h
  · rw [hcomp]
    rcases hf.judged hjudged with hold | ⟨-, hrecent⟩
    · refine .inl ?_
      rcases hf.covered h hold with ⟨s, hs, hin⟩ | ⟨cur', hcur', hbelow⟩
      · exact ⟨s, List.mem_append_left _ hs, hin⟩
      · obtain rfl := Option.some.inj (present.symm.trans hcur')
        refine ⟨fin.session, by simp, hbegin ▸ hbelow, ?_⟩
        rw [hend]
        exact hf.le_effective hold.mem_reported
    · rw [stale] at hrecent
      cases hrecent

theorem Chronicle.level (hf : Chronicle c.2.publicKey calls out f)
    (same : (f.activeSessions c.2.publicKey).isSome = recent c.1 (f.effective c.2)) :
    Chronicle c.2.publicKey (calls ++ [c]) out (f.setLast c.2.publicKey (f.effective c.2)) := by
  have hmono : reported c.2.publicKey calls ⊆ reported c.2.publicKey (calls ++ [c]) :=
    reported_mono (List.prefix_append _ _)
  refine hf.next (Function.update_self ..) (fun cur h => hmono (hf.begun cur h)) (fun s hs => hmono (hf.ended s hs))
    hf.span hf.ordered hf.active fun h hjudged => ?_
  rcases hf.judged hjudged with hold | ⟨rfl, hrecent⟩
  · exact hf.covered h hold
  · rw [hrecent] at same
    obtain ⟨cur, hcur⟩ := Option.isSome_iff_exists.1 same
    exact .inr ⟨cur, hcur, hf.le_effective (hf.begun cur hcur)⟩

end Own

/-- One call keeps the chronicle of every peer. -/
theorem Chronicle.step {p : String} {calls : List Call} {out : List Handle} {f : SessionFinder}
    (hf : Chronicle p calls out f) (r : IPRefiner) (c : Call) :
    Chronicle p (calls ++ [c]) (out ++ (f.analyze r c.1 c.2).1.toList) (f.analyze r c.1 c.2).2 := by
  by_cases hc : c.2.publicKey = p
  · subst hc
    generalize hres : f.analyze r c.1 c.2 = res
    have hcases := f.analyze_cases r c.1 c.2
    rw [hres] at hcases
    cases hcases with
    | up absent _ => simpa using hf.up absent
    | down cur present stale => exact hf.down r present stale
    | level same => simpa using hf.level same
  · exact hf.other r hc

/-! ## Addresses -/

/-- The sessions returned and the sessions still active are all different objects. -/
structure Distinct (out : List Handle) (f : SessionFinder) : Prop where
  once : (out.map (·.addr)).Nodup
  made : ∀ h ∈ out, h.addr < f.next
  apart : ∀ h ∈ out, ∀ p cur, f.activeSessions p = some cur → h.addr ≠ cur.addr
  filed : ∀ p q cur cur', f.activeSessions p = some cur → f.activeSessions q = some cur' → cur.addr = cur'.addr → p = q

theorem Distinct.empty : Distinct [] empty where
  once := .nil
  made _ h := nomatch h
  apart _ h := nomatch h
  filed _ _ _ _ h := nomatch h

theorem Distinct.setLast {out : List Handle} {f : SessionFinder} (h : Distinct out f) (pkey : String) (ht : Time) :
    Distinct out (f.setLast pkey ht) := ⟨h.once, h.made, h.apart, h.filed⟩

theorem Distinct.begin_ {out : List Handle} {f : SessionFinder} (h : Distinct out f) (pkey : String) (ht : Time) :
    Distinct out (f.begin_ pkey ht) := by
  have hact : ∀ p cur, (f.begin_ pkey ht).activeSessions p = some cur →
      p = pkey ∧ cur.addr = f.next ∨ p ≠ pkey ∧ f.activeSessions p = some cur := by
    intro p cur hp
    by_cases hk : p = pkey
    · subst hk
      simp only [SessionFinder.begin_, Function.update_self, Option.some.injEq] at hp
      exact .inl ⟨rfl, hp ▸ rfl⟩
    · exact .inr ⟨hk, by simpa [SessionFinder.begin_, Function.update_of_ne hk] using hp⟩
  refine ⟨h.once, fun x hx => Nat.lt_succ_of_lt (h.made x hx), fun x hx p cur hp => ?_, fun p q cur cur' hp hq ha => ?_⟩
  · rcases hact p cur hp with ⟨-, hnew⟩ | ⟨-, hold⟩
    · exact hnew ▸ (h.made x hx).ne
    · exact h.apart x hx p cur hold
  · rcases hact p cur hp with ⟨rfl, hnew⟩ | ⟨-, hold⟩ <;> rcases hact q cur' hq with ⟨rfl, hnew'⟩ | ⟨-, hold'⟩
    · rfl
    · exact absurd (hnew ▸ ha) (f.addr_lt q cur' hold').ne'
    · exact absurd (hnew' ▸ ha) (f.addr_lt p cur hold).ne
    · exact h.filed p q cur cur' hold hold' ha

theorem Distinct.delete {out : List Handle} {f : SessionFinder} (h : Distinct out f) {pkey : String} {cur fin : Handle}
    (present : f.activeSessions pkey = some cur) (hfin : fin.addr = cur.addr) :
    Distinct (out ++ [fin]) (f.delete pkey) := by
  have hact : ∀ p x, (f.delete pkey).activeSessions p = some x → p ≠ pkey ∧ f.activeSessions p = some x := by
    intro p x hp
    by_cases hk : p = pkey
    · subst hk
      simp [SessionFinder.delete] at hp
    · exact ⟨hk, by simpa [SessionFinder.delete, Function.update_of_ne hk] using hp⟩
  refine ⟨?_, fun x hx => ?_, fun x hx p y hp => ?_,
    fun p q y y' hp hq => h.filed p q y y' (hact p y hp).2 (hact q y' hq).2⟩
  · rw [List.map_append, List.map_singleton]
    refine List.nodup_append.2 ⟨h.once, List.nodup_singleton _, fun a ha b hb => ?_⟩
    obtain ⟨x, hx, rfl⟩ := List.mem_map.1 ha
    rw [List.mem_singleton.1 hb, hfin]
    exact h.apart x hx pkey cur present
  · rcases List.mem_append.1 hx with hx | hx
    · exact h.made x hx
    · rw [List.mem_singleton.1 hx, hfin]; exact f.addr_lt pkey cur present
  · obtain ⟨hne, hp⟩ := hact p y hp
    rcases List.mem_append.1 hx with hx | hx
    · exact h.apart x hx p y hp
    · rw [List.mem_singleton.1 hx, hfin]
      exact fun ha => hne (h.filed pkey p cur y present hp ha).symm

theorem Distinct.step {out : List Handle} {f : SessionFinder} (h : Distinct out f) (r : IPRefiner) (c : Call) :
    Distinct (out ++ (f.analyze r c.1 c.2).1.toList) (f.analyze r c.1 c.2).2 := by
  have hset := h.setLast c.2.publicKey (f.effective c.2)
  generalize hres : f.analyze r c.1 c.2 = res
  have hcases := f.analyze_cases r c.1 c.2
  rw [hres] at hcases
  cases hcases with
  | up _ _ => simpa using hset.begin_ c.2.publicKey (f.effective c.2)
  | down cur present _ => exact hset.delete present rfl
  | level _ => simpa using hset

/-! ## Whole runs -/

theorem Chronicle.run {p : String} (r : IPRefiner) : ∀ (cs : List Call) {calls : List Call} {out : List Handle}
    {f : SessionFinder}, Chronicle p calls out f →
    Chronicle p (calls ++ cs) (out ++ (analyzeAll r cs f).1) (analyzeAll r cs f).2
  | [], calls, out, f, hf => by simpa [analyzeAll] using hf
  | c :: cs, calls, out, f, hf => by
    have h := Chronicle.run r cs (hf.step r c)
    rwa [List.append_assoc, List.append_assoc] at h

theorem Distinct.run (r : IPRefiner) : ∀ (cs : List Call) {out : List Handle} {f : SessionFinder},
    Distinct out f → Distinct (out ++ (analyzeAll r cs f).1) (analyzeAll r cs f).2
  | [], out, f, hf => by simpa [analyzeAll] using hf
  | c :: cs, out, f, hf => by
    have h := Distinct.run r cs (hf.step r c)
    rwa [List.append_assoc] at h

/-- The session history is well formed: for every list of calls on an empty finder, with any clock
and any reports, and every peer. -/
theorem analyzeAll_wellFormed (r : IPRefiner) (calls : List Call) (p : String) :
    WellFormed p calls (analyzeAll r calls empty).1 (analyzeAll r calls empty).2 := by
  have hc := (Chronicle.empty p).run r calls
  have hd := Distinct.empty.run r calls
  exact ⟨hc.span, hc.ordered, hc.active, hc.covered, hd.once⟩

-- the calls of `TestSessionFinder`, in minutes
example :
    let min : Int := 60 * 10 ^ 9
    let report (ht now : Int) : Call := (⟨now * min, 0⟩, ⟨"pk1", ⟨ht * min, 0⟩, ""⟩)
    let res := analyzeAll ⟨[]⟩ [report 0 0, report 5 10, report 5 20] empty
    res.1.length = 1 ∧ res.2.activeSessions "pk1" = none := by decide

end SessionFinder

end Wig.Sessions
