/-
The finder as a family of machines, one for each peer: what it returns about a peer and what it then knows of
it depend on the reports about that peer only. Dumps about different peers may come in any order.
-/
import Wig.Lib.Interleave
import Wig.Sessions.Manager

namespace Wig.Sessions

open Wig.Lib

/-! ## One peer -/

/-- What the finder knows of a peer. -/
structure PeerState where
  active : Option Session
  last : Option Time

namespace PeerState

/-- The time a report goes by. -/
def effective (st : PeerState) (s : PeerStats) : Time :=
  st.last.elim s.lastHandshakeTime fun last => if s.lastHandshakeTime.before last then last else s.lastHandshakeTime

/-- The session after its down edge. -/
def ended (r : IPRefiner) (sess : Session) (ht : Time) (endpoint : String) : Session :=
  addIPInfo r { sess with endTimestamp := ht, active := false } endpoint

/-- `Analyze`, as seen by the peer that the report is about. -/
def report (r : IPRefiner) (c : SessionFinder.Call) (st : PeerState) : Option Session × PeerState :=
  let ht := st.effective c.2
  match st.active, SessionFinder.recent c.1 ht with
  | none, true => (none, ⟨some (SessionFinder.newSession c.2.publicKey ht), some ht⟩)
  | some sess, false => (some (ended r sess ht c.2.endpoint), ⟨none, some ht⟩)
  | _, _ => (none, ⟨st.active, some ht⟩)

def reportAll (r : IPRefiner) : List SessionFinder.Call → PeerState → List Session × PeerState
  | [], st => ([], st)
  | c :: cs, st =>
    let (out, st') := st.report r c
    let (outs, st'') := reportAll r cs st'
    (out.toList ++ outs, st'')

theorem reportAll_cons (r : IPRefiner) (c : SessionFinder.Call) (cs : List SessionFinder.Call) (st : PeerState) :
    reportAll r (c :: cs) st =
      ((st.report r c).1.toList ++ (reportAll r cs (st.report r c).2).1, (reportAll r cs (st.report r c).2).2) := rfl

end PeerState

namespace SessionFinder

def peer (f : SessionFinder) (p : String) : PeerState := ⟨(f.activeSessions p).map (·.session), f.lastHandshake p⟩

/-- The calls about a peer. -/
def about (p : String) (cs : List Call) : List Call := cs.filter fun c => c.2.publicKey = p

/-! ## A call, peer by peer -/

theorem effective_peer (f : SessionFinder) (s : PeerStats) : f.effective s = (f.peer s.publicKey).effective s := by
  unfold effective setHandshakeTime PeerState.effective peer
  cases f.lastHandshake s.publicKey with
  | none => rfl
  | some last => by_cases hb : s.lastHandshakeTime.before last <;> simp [hb]

/-- A call does to its peer what the report says, whatever else the finder holds. -/
theorem analyze_own (r : IPRefiner) (c : Call) (f : SessionFinder) :
    ((f.analyze r c.1 c.2).1.map (·.session), (f.analyze r c.1 c.2).2.peer c.2.publicKey) =
      (f.peer c.2.publicKey).report r c := by
  have heff := f.effective_peer c.2
  have hlast : (f.analyze r c.1 c.2).2.lastHandshake c.2.publicKey = some (f.effective c.2) := by
    rw [analyze_lastHandshake, Function.update_self]
  rw [peer, hlast]
  simp only [PeerState.report, ← heff]
  generalize hres : f.analyze r c.1 c.2 = res
  have hcases := f.analyze_cases r c.1 c.2
  rw [hres] at hcases
  -- the report's edge is the call's
  cases hcases with
  | up absent active =>
    have hp : (f.peer c.2.publicKey).active = none := by rw [peer, absent]; rfl
    rw [begin_self, active, hp]
    rfl
  | down cur present stale =>
    have hp : (f.peer c.2.publicKey).active = some cur.session := by rw [peer, present]; rfl
    rw [delete_self, stale, hp]
    rfl
  | level same =>
    have hsetLast : (f.setLast c.2.publicKey (f.effective c.2)).activeSessions = f.activeSessions := rfl
    rw [hsetLast, ← same]
    cases hcur : f.activeSessions c.2.publicKey with
    | none => simp [peer, hcur]
    | some cur => simp [peer, hcur]

/-- A call about another peer. -/
theorem analyze_other (r : IPRefiner) {c : Call} {p : String} (hp : c.2.publicKey ≠ p) (f : SessionFinder) :
    completed p (f.analyze r c.1 c.2).1.toList = [] ∧ (f.analyze r c.1 c.2).2.peer p = f.peer p := by
  constructor
  · cases hout : (f.analyze r c.1 c.2).1 with
    | none => rfl
    | some h => simp [completed, f.analyze_peer r c.1 c.2 hout, hp]
  · rw [peer, f.analyze_activeSessions_of_ne r c.1 c.2 hp.symm, analyze_lastHandshake, Function.update_of_ne hp.symm]
    rfl

theorem completed_own (r : IPRefiner) (c : Call) (f : SessionFinder) :
    completed c.2.publicKey (f.analyze r c.1 c.2).1.toList = ((f.analyze r c.1 c.2).1.map (·.session)).toList := by
  cases hout : (f.analyze r c.1 c.2).1 with
  | none => rfl
  | some h => simp [completed, f.analyze_peer r c.1 c.2 hout]

/-- The finder is the product of its peers: what a run returns about a peer, and leaves of it, is the run of the
calls about the peer alone. -/
theorem analyzeAll_peer (r : IPRefiner) (p : String) : ∀ (cs : List Call) (f : SessionFinder),
    (completed p (analyzeAll r cs f).1, (analyzeAll r cs f).2.peer p) = PeerState.reportAll r (about p cs) (f.peer p)
  | [], _ => rfl
  | c :: cs, f => by
    have ih := analyzeAll_peer r p cs (f.analyze r c.1 c.2).2
    rw [analyzeAll_cons, completed_append]
    by_cases hp : c.2.publicKey = p
    · subst hp
      have hown := f.analyze_own r c
      have hone : about c.2.publicKey (c :: cs) = c :: about c.2.publicKey cs := List.filter_cons_of_pos (by simp)
      rw [hone, PeerState.reportAll_cons, ← hown, ← ih, completed_own]
    · obtain ⟨hout, hpeer⟩ := f.analyze_other r hp
      have hskip : about p (c :: cs) = about p cs := List.filter_cons_of_neg (by simpa using hp)
      rw [hskip, hout, List.nil_append, ih, hpeer]

/-! ## Two runs -/

/-- Two runs agree on a peer: on the sessions they returned of it, and on what they know of it in the end. -/
structure SameHistory (p : String) (a b : List Handle × SessionFinder) : Prop where
  returned : completed p a.1 = completed p b.1
  active : (a.2.activeSessions p).map (·.session) = (b.2.activeSessions p).map (·.session)
  last : a.2.lastHandshake p = b.2.lastHandshake p

theorem sameHistory_of_about {r : IPRefiner} {p : String} {cs cs' : List Call} (h : about p cs = about p cs')
    (f : SessionFinder) : SameHistory p (analyzeAll r cs f) (analyzeAll r cs' f) := by
  have hrun := analyzeAll_peer r p cs f
  rw [h, ← analyzeAll_peer r p cs' f, Prod.mk.injEq, peer, peer, PeerState.mk.injEq] at hrun
  exact ⟨hrun.1, hrun.2.1, hrun.2.2⟩

/-- No peer is reported by both. -/
def Disjoint (d d' : List Call) : Prop := ∀ c ∈ d, ∀ c' ∈ d', c.2.publicKey ≠ c'.2.publicKey

theorem about_eq_nil_or {d d' : List Call} (h : Disjoint d d') (p : String) : about p d = [] ∨ about p d' = [] := by
  by_contra hboth
  simp only [about, List.filter_eq_nil_iff, not_or, not_forall, decide_eq_true_eq, not_not] at hboth
  obtain ⟨⟨c, hc, hp⟩, c', hc', hp'⟩ := hboth
  exact h c hc c' hc' (hp.trans hp'.symm)

/-- Of each peer, two interleavings of the same disjoint dumps have the same calls. -/
theorem about_interleave {d d' cs cs' : List Call} (hd : Disjoint d d') (h : Interleave d d' cs)
    (h' : Interleave d d' cs') (p : String) : about p cs = about p cs' := by
  rcases about_eq_nil_or hd p with hnil | hnil
  · exact (h.filter_eq_right hnil).trans (h'.filter_eq_right hnil).symm
  · exact (h.filter_eq_left hnil).trans (h'.filter_eq_left hnil).symm

/-- The histories of peers are independent: runs with the same calls about a peer agree on it, and two dumps
about different peers may be processed in either order, or interleaved. -/
theorem histories_independent (r : IPRefiner) (f : SessionFinder) :
    (∀ (p : String) (cs cs' : List Call), about p cs = about p cs' →
      SameHistory p (analyzeAll r cs f) (analyzeAll r cs' f)) ∧
    ∀ d d' : List Call, Disjoint d d' → ∀ p : String,
      SameHistory p (analyzeAll r (d ++ d') f) (analyzeAll r (d' ++ d) f) ∧
      ∀ cs, Interleave d d' cs → SameHistory p (analyzeAll r (d ++ d') f) (analyzeAll r cs f) := by
  refine ⟨fun p cs cs' h => sameHistory_of_about h f, fun d d' hd p => ⟨?_, fun cs h => ?_⟩⟩
  · exact sameHistory_of_about (about_interleave hd (.append d d') (Interleave.append d' d).symm p) f
  · exact sameHistory_of_about (about_interleave hd (.append d d') h p) f

/-- A session of one peer, with the reports about another in between. -/
theorem histories_independent_woven :
    let report (p : String) (now : Int) : Call := (⟨now * 10 ^ 9, 0⟩, ⟨p, ⟨900 * 10 ^ 9, 0⟩, "192.0.2.1"⟩)
    let d := [report "p" 1000, report "p" 2000]
    let d' := [report "q" 1000, report "q" 2000]
    let woven := [report "p" 1000, report "q" 1000, report "p" 2000, report "q" 2000]
    about "p" d = about "p" woven ∧ (completed "p" (analyzeAll ⟨[]⟩ woven empty).1).length = 1 ∧
      SameHistory "p" (analyzeAll ⟨[]⟩ d empty) (analyzeAll ⟨[]⟩ woven empty) ∧
      SameHistory "p" (analyzeAll ⟨[]⟩ (d ++ d') empty) (analyzeAll ⟨[]⟩ woven empty) := by
  intro report d d' woven
  have habout : about "p" d = about "p" woven := rfl
  have hd : SessionFinder.Disjoint d d' := by unfold SessionFinder.Disjoint; decide
  have hwoven : Interleave d d' woven := .left _ (.right _ (.left _ (.right _ .nil)))
  exact ⟨habout, by decide, (histories_independent ⟨[]⟩ empty).1 "p" d woven habout,
    ((histories_independent ⟨[]⟩ empty).2 d d' hd "p").2 woven hwoven⟩

end SessionFinder

/-! ## Dumps received one after the other -/

namespace SessionManager

open SessionFinder

/-- The rows of a peer. -/
def rowsOf (p : String) (m : SessionManager) : List SessionRow := m.sessions.filter fun row => row.peerPublicKey = p

theorem rowsOf_after (r : IPRefiner) (now : Time) (m : SessionManager) (dump : List PeerStats) (p : String) :
    (m.after r now dump).rowsOf p =
      m.rowsOf p ++ (completed p (analyzeAll r (calls now dump) m.sf).1).map Session.row := by
  simp only [rowsOf, after, completed, List.filter_append, List.filter_map, List.map_map]
  rfl

theorem after_of_ok {r : IPRefiner} {now : Time} {faults : Faults} {dump : List PeerStats} {m m' : SessionManager}
    (h : receivePeerStats r now faults dump m = (.ok (), m')) : m' = m.after r now dump := by
  rcases m.receivePeerStats_cases r now faults dump with
    ⟨-, hres⟩ | ⟨-, -, hres⟩ | ⟨-, -, hres⟩ | ⟨before, s, rest, -, -, -, -, hres⟩
  all_goals rw [hres] at h
  · cases h
  · cases h; rfl
  · cases h
  · cases h

/-- Two dumps about different peers, received in either order, leave the same rows of each peer and the same
finder, peer by peer. -/
theorem receivePeerStats_either_order {r : IPRefiner} {now now' : Time} {fa fb fc fd : Faults} {d d' : List PeerStats}
    {m m₁ m₂ m₁' m₂' : SessionManager} (hd : SessionFinder.Disjoint (calls now d) (calls now' d'))
    (h₁ : receivePeerStats r now fa d m = (.ok (), m₁)) (h₂ : receivePeerStats r now' fb d' m₁ = (.ok (), m₂))
    (h₁' : receivePeerStats r now' fc d' m = (.ok (), m₁')) (h₂' : receivePeerStats r now fd d m₁' = (.ok (), m₂'))
    (p : String) : m₂.rowsOf p = m₂'.rowsOf p ∧ m₂.sf.peer p = m₂'.sf.peer p := by
  have hcs := about_interleave hd (.append _ _) (Interleave.append (calls now' d') (calls now d)).symm p
  obtain ⟨hreturned, hactive, hlast⟩ := sameHistory_of_about (r := r) hcs m.sf
  rw [analyzeAll_append, analyzeAll_append] at hreturned hactive hlast
  rw [completed_append, completed_append] at hreturned
  cases after_of_ok h₁
  cases after_of_ok h₂
  cases after_of_ok h₁'
  cases after_of_ok h₂'
  constructor
  · rw [rowsOf_after, rowsOf_after, rowsOf_after, rowsOf_after, List.append_assoc, List.append_assoc, ← List.map_append,
      ← List.map_append]
    exact congrArg (fun l => m.rowsOf p ++ l.map Session.row) hreturned
  · exact congrArg₂ PeerState.mk hactive hlast

end SessionManager

end Wig.Sessions
