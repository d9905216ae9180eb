/-
Batches of reports about one peer that share a clock, as several gateways make them in one round of
collection. Which peers are active and their last handshakes do not depend on the order of a batch;
where sessions begin and end does, unless the reports agree on what matters.
-/
import Wig.Sessions.Restart

namespace Wig.Sessions.SessionFinder

/-! ## After a call -/

/-- What the finder knows of a peer right after a call about it. -/
structure Standing (p : String) (calls : List Call) (now : Time) (f : SessionFinder) : Prop where
  last : ∃ t, f.lastHandshake p = some t ∧ IsGreatest (reported p calls) t.unixNano
  active_iff : (∃ cur, f.activeSessions p = some cur) ↔
    ∃ t, f.lastHandshake p = some t ∧ now.unixNano - sessionInactivityTimeout < t.unixNano
  session : ∀ cur, f.activeSessions p = some cur → cur.session.active = true ∧ cur.session.peerPublicKey = p ∧
    ∃ t, f.lastHandshake p = some t ∧ cur.session.beginTimestamp.unixNano ≤ t.unixNano

/-- The same peers have a session, and the same last handshakes, as instants. -/
structure SameStanding (f g : SessionFinder) : Prop where
  active : ∀ q, (f.activeSessions q).isSome = (g.activeSessions q).isSome
  last : ∀ q, (f.lastHandshake q).map Time.unixNano = (g.lastHandshake q).map Time.unixNano

/-- Sessions that are filed are marked active. -/
def Marked (f : SessionFinder) : Prop := ∀ p cur, f.activeSessions p = some cur → cur.session.active = true

theorem Marked.step {f : SessionFinder} (h : Marked f) (r : IPRefiner) (c : Call) : Marked (f.analyze r c.1 c.2).2 := by
  intro p cur hcur
  by_cases hp : p = c.2.publicKey
  · subst hp
    generalize hres : f.analyze r c.1 c.2 = res at hcur
    have hcases := f.analyze_cases r c.1 c.2
    rw [hres] at hcases
    cases hcases with
    | up absent active => rw [begin_self] at hcur; cases hcur; rfl
    | down cur' present stale => rw [delete_self] at hcur; cases hcur
    | level same => exact h _ cur hcur
  · rw [f.analyze_activeSessions_of_ne r c.1 c.2 hp] at hcur
    exact h p cur hcur

theorem Marked.run (r : IPRefiner) : ∀ (cs : List Call) {f : SessionFinder}, Marked f → Marked (analyzeAll r cs f).2
  | [], _, h => h
  | c :: cs, _, h => Marked.run r cs (h.step r c)

theorem chronicle_run (r : IPRefiner) (calls : List Call) (p : String) :
    Chronicle p calls (analyzeAll r calls empty).1 (analyzeAll r calls empty).2 := (Chronicle.empty p).run r calls

theorem standing_concat (r : IPRefiner) (calls : List Call) (c : Call) :
    Standing c.2.publicKey (calls ++ [c]) c.1 (analyzeAll r (calls ++ [c]) empty).2 := by
  have hrun : (analyzeAll r (calls ++ [c]) empty).2 = ((analyzeAll r calls empty).2.analyze r c.1 c.2).2 := by
    rw [analyzeAll_append]
    rfl
  have hgreatest := (chronicle_run r calls c.2.publicKey).effective
  have hlast : (analyzeAll r (calls ++ [c]) empty).2.lastHandshake c.2.publicKey =
      some ((analyzeAll r calls empty).2.effective c.2) := by
    rw [hrun, analyze_lastHandshake, Function.update_self]
  refine ⟨⟨_, hlast, hgreatest⟩, ?_, fun cur hcur => ⟨?_, ?_, _, hlast, ?_⟩⟩
  · rw [← Option.isSome_iff_exists, hrun, analyze_settled, recent_iff, ← hrun, hlast]
    simp
  · exact (Marked.run r _ fun _ _ h => by cases h) _ cur hcur
  · exact SessionFinder.keyed _ _ cur hcur
  · exact hgreatest.2 ((chronicle_run r (calls ++ [c]) c.2.publicKey).begun cur hcur)

/-! ## The order of a batch -/

/-- The calls for reports that share a clock. -/
def batch (now : Time) (reports : List PeerStats) : List Call := reports.map fun s => (now, s)

theorem reported_congr {p : String} {cs cs' : List Call} (h : ∀ c, c ∈ cs ↔ c ∈ cs') :
    reported p cs = reported p cs' := by
  ext t
  simp [reported, h]

theorem analyzeAll_other {q : String} (r : IPRefiner) :
    ∀ (cs : List Call) (f : SessionFinder), (∀ c ∈ cs, c.2.publicKey ≠ q) →
    (analyzeAll r cs f).2.activeSessions q = f.activeSessions q ∧
      (analyzeAll r cs f).2.lastHandshake q = f.lastHandshake q
  | [], _, _ => ⟨rfl, rfl⟩
  | c :: cs, f, h => by
    have hne : q ≠ c.2.publicKey := (h c (.head _)).symm
    obtain ⟨hactive, hlast⟩ := analyzeAll_other r cs (f.analyze r c.1 c.2).2 fun c' hc' => h c' (.tail _ hc')
    rw [analyzeAll_cons]
    refine ⟨hactive.trans (f.analyze_activeSessions_of_ne r c.1 c.2 hne), hlast.trans ?_⟩
    rw [analyze_lastHandshake, Function.update_of_ne hne]

theorem standing_batch (r : IPRefiner) (calls : List Call) (now : Time) {p : String}
    {reports : List PeerStats} (hne : reports ≠ []) (hp : ∀ s ∈ reports, s.publicKey = p) :
    Standing p (calls ++ batch now reports) now (analyzeAll r (calls ++ batch now reports) empty).2 := by
  obtain ⟨init, s, rfl⟩ := (List.eq_nil_or_concat reports).resolve_left hne
  have hs := hp s (by simp)
  have hbatch : calls ++ batch now (init.concat s) = (calls ++ batch now init) ++ [(now, s)] := by simp [batch]
  rw [hbatch, ← hs]
  exact standing_concat r (calls ++ batch now init) (now, s)

theorem Standing.same {p : String} {calls calls' : List Call} {now : Time} {f g : SessionFinder}
    (hf : Standing p calls now f) (hg : Standing p calls' now g) (h : reported p calls = reported p calls') :
    (f.activeSessions p).isSome = (g.activeSessions p).isSome ∧
      (f.lastHandshake p).map Time.unixNano = (g.lastHandshake p).map Time.unixNano := by
  obtain ⟨t, ht, hgreatest⟩ := hf.last
  obtain ⟨u, hu, hgreatest'⟩ := hg.last
  have heq : t.unixNano = u.unixNano := (h ▸ hgreatest).unique hgreatest'
  refine ⟨?_, by rw [ht, hu, Option.map_some, Option.map_some, heq]⟩
  rw [Bool.eq_iff_iff, Option.isSome_iff_exists, Option.isSome_iff_exists, hf.active_iff, hg.active_iff]
  simp [ht, hu, heq]

theorem batch_other (r : IPRefiner) (calls : List Call) (now : Time) {p q : String} (hq : q ≠ p)
    {reports : List PeerStats} (hp : ∀ s ∈ reports, s.publicKey = p) :
    (analyzeAll r (calls ++ batch now reports) empty).2.activeSessions q =
      (analyzeAll r calls empty).2.activeSessions q ∧
      (analyzeAll r (calls ++ batch now reports) empty).2.lastHandshake q =
        (analyzeAll r calls empty).2.lastHandshake q := by
  rw [analyzeAll_append]
  refine analyzeAll_other r _ _ fun c hc => ?_
  obtain ⟨s, hs, rfl⟩ := List.mem_map.1 hc
  rw [hp s hs]
  exact hq.symm

theorem sameStanding_of_perm (r : IPRefiner) (calls : List Call) (now : Time) {p : String}
    {reports reports' : List PeerStats} (hp : ∀ s ∈ reports, s.publicKey = p) (hperm : reports.Perm reports') :
    SameStanding (analyzeAll r (calls ++ batch now reports) empty).2
      (analyzeAll r (calls ++ batch now reports') empty).2 := by
  have hp' : ∀ s ∈ reports', s.publicKey = p := fun s hs => hp s (hperm.mem_iff.2 hs)
  have hbatch : (batch now reports).Perm (batch now reports') := hperm.map _
  by_cases hnil : reports = []
  · subst hnil
    rw [← hperm.nil_eq]
    exact ⟨fun _ => rfl, fun _ => rfl⟩
  · have hnil' : reports' ≠ [] := fun h => hnil (List.Perm.eq_nil (h ▸ hperm))
    have hreported : reported p (calls ++ batch now reports) = reported p (calls ++ batch now reports') :=
      reported_congr fun c => by rw [List.mem_append, List.mem_append, hbatch.mem_iff]
    have hsame := (standing_batch r calls now hnil hp).same (standing_batch r calls now hnil' hp') hreported
    refine ⟨fun q => ?_, fun q => ?_⟩
    · by_cases hq : q = p
      · exact hq ▸ hsame.1
      · rw [(batch_other r calls now hq hp).1, (batch_other r calls now hq hp').1]
    · by_cases hq : q = p
      · exact hq ▸ hsame.2
      · rw [(batch_other r calls now hq hp).2, (batch_other r calls now hq hp').2]

/-- After any calls on an empty finder, the last of them about a peer: the finder has the greatest
handshake reported for the peer, and a session of it just if that is recent. So the order of the reports
about a peer that share a clock does not matter to which peers are active, and to their last handshakes. -/
theorem active_characterisation (r : IPRefiner) (calls : List Call) :
    (∀ c : Call, Standing c.2.publicKey (calls ++ [c]) c.1 (analyzeAll r (calls ++ [c]) empty).2) ∧
      ∀ (now : Time) (p : String) (reports reports' : List PeerStats), (∀ s ∈ reports, s.publicKey = p) →
        reports.Perm reports' →
        SameStanding (analyzeAll r (calls ++ batch now reports) empty).2
          (analyzeAll r (calls ++ batch now reports') empty).2 :=
  ⟨standing_concat r calls, fun now _ _ _ hp hperm => sameStanding_of_perm r calls now hp hperm⟩

/-- Two gateways report a peer, one of them an old handshake. -/
theorem active_characterisation_two :
    SameStanding (analyzeAll ⟨[]⟩ (batch (seconds 1000) [⟨"p", seconds 100, ""⟩, ⟨"p", seconds 900, ""⟩]) empty).2
      (analyzeAll ⟨[]⟩ (batch (seconds 1000) [⟨"p", seconds 900, ""⟩, ⟨"p", seconds 100, ""⟩]) empty).2 :=
  (active_characterisation ⟨[]⟩ []).2 (seconds 1000) "p" _ _ (by simp) (List.Perm.swap _ _ _)

/-! ## The history of a batch -/

/-- A report about a peer: the handshake and the endpoint. -/
def report (p : String) (x : Time × String) : PeerStats := ⟨p, x.1, x.2⟩

/-- Begin and end of the peer's sessions that were completed, and the begin of its active one. -/
def history (p : String) (res : List Handle × SessionFinder) : List (Int × Int) × Option Int :=
  ((completed p res.1).map fun s => (s.beginTimestamp.unixNano, s.endTimestamp.unixNano),
    (res.2.activeSessions p).map fun cur => cur.session.beginTimestamp.unixNano)

/-- The history that a batch of reports about a peer makes. -/
def batchHistory (r : IPRefiner) (now : Time) (p : String) (xs : List (Time × String)) (f : SessionFinder) :
    List (Int × Int) × Option Int :=
  history p (analyzeAll r (batch now (xs.map (report p))) f)

/-- Every order of the batch makes the same history. -/
def OrderFree (r : IPRefiner) (now : Time) (p : String) (xs : List (Time × String)) (f : SessionFinder) : Prop :=
  ∀ ys, xs.Perm ys → batchHistory r now p ys f = batchHistory r now p xs f

/-- The instant that a report counts for: its own, or that of the last handshake if it is later. -/
def instant (last : Option Time) (x : Time × String) : Int :=
  last.elim x.1.unixNano fun l => max l.unixNano x.1.unixNano

def Recent (now : Time) (t : Int) : Prop := now.unixNano - sessionInactivityTimeout < t

instance (now : Time) (t : Int) : Decidable (Recent now t) := inferInstanceAs (Decidable (_ < _))

/-- The reports that matter to the history agree. -/
inductive Settled (now : Time) (p : String) (f : SessionFinder) (xs : List (Time × String)) : Prop where
  /-- There is no session, and the recent reports would begin one at the same instant. -/
  | absent (h : f.activeSessions p = none) (same : ∀ x ∈ xs, ∀ y ∈ xs, Recent now (instant (f.lastHandshake p) x) →
      Recent now (instant (f.lastHandshake p) y) → instant (f.lastHandshake p) x = instant (f.lastHandshake p) y)
  /-- There is a session, and every report keeps it. -/
  | kept (cur : Handle) (h : f.activeSessions p = some cur) (all : ∀ x ∈ xs, Recent now (instant (f.lastHandshake p) x))
  /-- There is a session, and every report ends it at the same instant. -/
  | ended (cur : Handle) (h : f.activeSessions p = some cur)
      (all : ∀ x ∈ xs, ¬ Recent now (instant (f.lastHandshake p) x))
      (same : ∀ x ∈ xs, ∀ y ∈ xs, instant (f.lastHandshake p) x = instant (f.lastHandshake p) y)

theorem effective_instant (f : SessionFinder) (p : String) (x : Time × String) :
    (f.effective (report p x)).unixNano = instant (f.lastHandshake p) x := by
  unfold effective
  rcases f.setHandshakeTime_cases p x.1 with ⟨last, hlast, hlt, he⟩ | ⟨hle, he⟩
  · rw [show f.setHandshakeTime (report p x).publicKey (report p x).lastHandshakeTime = _ from he, hlast]
    exact (max_eq_left hlt.le).symm
  · rw [show f.setHandshakeTime (report p x).publicKey (report p x).lastHandshakeTime = _ from he]
    cases hlast : f.lastHandshake p with
    | none => rfl
    | some last => exact (max_eq_right (hle last hlast)).symm

theorem recent_effective (f : SessionFinder) (now : Time) (p : String) (x : Time × String) :
    recent now (f.effective (report p x)) = true ↔ Recent now (instant (f.lastHandshake p) x) := by
  rw [recent_iff, effective_instant]
  rfl

section Steps

variable {r : IPRefiner} {now : Time} {p : String} {f : SessionFinder} {x : Time × String} {xs : List (Time × String)}

theorem batchHistory_cons : batchHistory r now p (x :: xs) f =
    (((completed p (f.analyze r now (report p x)).1.toList).map fun s =>
      (s.beginTimestamp.unixNano, s.endTimestamp.unixNano)) ++
      (batchHistory r now p xs (f.analyze r now (report p x)).2).1,
      (batchHistory r now p xs (f.analyze r now (report p x)).2).2) := by
  unfold batchHistory history batch
  rw [List.map_cons, List.map_cons, analyzeAll_cons, completed_append, List.map_append]

/-- No edge: nothing is returned, and the sessions stay. -/
theorem batchHistory_level (h : (f.activeSessions p).isSome = decide (Recent now (instant (f.lastHandshake p) x))) :
    batchHistory r now p (x :: xs) f = batchHistory r now p xs (f.setLast p (f.effective (report p x))) := by
  have hrecent := recent_effective f now p x
  have hcases := f.analyze_cases r now (report p x)
  rw [batchHistory_cons]
  generalize f.analyze r now (report p x) = res at hcases ⊢
  cases hcases with
  | up absent active => rw [show f.activeSessions p = none from absent, decide_eq_true (hrecent.1 active)] at h; cases h
  | down cur present stale =>
    rw [show f.activeSessions p = some cur from present, eq_comm] at h
    rw [hrecent.2 (of_decide_eq_true h)] at stale
    cases stale
  | level same => rfl

theorem batchHistory_up (absent : f.activeSessions p = none) (active : Recent now (instant (f.lastHandshake p) x)) :
    batchHistory r now p (x :: xs) f =
      batchHistory r now p xs ((f.setLast p (f.effective (report p x))).begin_ p (f.effective (report p x))) := by
  have hrecent := (recent_effective f now p x).2 active
  have hcases := f.analyze_cases r now (report p x)
  rw [batchHistory_cons]
  generalize f.analyze r now (report p x) = res at hcases ⊢
  cases hcases with
  | up => rfl
  | down cur present stale => rw [hrecent] at stale; cases stale
  | level same => rw [show f.activeSessions (report p x).publicKey = none from absent, hrecent] at same; cases same

theorem batchHistory_down {cur : Handle} (present : f.activeSessions p = some cur)
    (stale : ¬ Recent now (instant (f.lastHandshake p) x)) :
    batchHistory r now p (x :: xs) f =
      ((cur.session.beginTimestamp.unixNano, instant (f.lastHandshake p) x) ::
        (batchHistory r now p xs ((f.setLast p (f.effective (report p x))).delete p)).1,
        (batchHistory r now p xs ((f.setLast p (f.effective (report p x))).delete p)).2) := by
  have hrecent := recent_effective f now p x
  have hcases := f.analyze_cases r now (report p x)
  rw [batchHistory_cons]
  generalize f.analyze r now (report p x) = res at hcases ⊢
  cases hcases with
  | up absent active => exact absurd (hrecent.1 active) stale
  | down cur' present' stale' =>
    cases present.symm.trans present'
    have hspan := complete_span r cur (f.effective (report p x)) (report p x).endpoint
    have hcompleted : completed p [complete r cur (f.effective (report p x)) (report p x).endpoint] =
        [(complete r cur (f.effective (report p x)) (report p x).endpoint).session] := by
      simp [completed, hspan.peer, f.keyed p cur present]
    rw [Option.toList_some, hcompleted, List.map_singleton, hspan.begins, hspan.ends, effective_instant]
    rfl
  | level same =>
    rw [show f.activeSessions (report p x).publicKey = some cur from present, eq_comm] at same
    exact absurd (hrecent.1 same) stale

/-! ## Closed forms -/

/-- A session that is there stays, once the last handshake is recent. -/
theorem batchHistory_kept {cur : Handle} : ∀ (xs : List (Time × String)) {f : SessionFinder} {last : Time},
    f.activeSessions p = some cur → f.lastHandshake p = some last → Recent now last.unixNano →
      batchHistory r now p xs f = ([], some cur.session.beginTimestamp.unixNano)
  | [], f, last, hcur, _, _ => by
    unfold batchHistory history batch
    simp [analyzeAll, completed, hcur]
  | x :: xs, f, last, hcur, hlast, hrecent => by
    have hle : last.unixNano ≤ instant (f.lastHandshake p) x := by rw [hlast]; exact le_max_left _ _
    have hinstant : Recent now (instant (f.lastHandshake p) x) := hrecent.trans_le hle
    rw [batchHistory_level (by rw [hcur, decide_eq_true hinstant]; rfl)]
    refine batchHistory_kept xs hcur (Function.update_self _ _ _) ?_
    rwa [effective_instant]

/-- The instant of the first report that is recent. -/
def firstRecent (now : Time) (last : Option Time) (xs : List (Time × String)) : Option Int :=
  (xs.find? fun x => decide (Recent now (instant last x))).map (instant last)

theorem firstRecent_cons (last : Option Time) : firstRecent now last (x :: xs) =
    if Recent now (instant last x) then some (instant last x) else firstRecent now last xs := by
  unfold firstRecent
  split
  case isTrue h => rw [List.find?_cons_of_pos (by simpa using h), Option.map_some]
  case isFalse h => rw [List.find?_cons_of_neg (by simpa using h)]

/-- A last handshake that is stale changes nothing for a report that is recent. -/
theorem instant_of_stale {last : Option Time} (hlast : ∀ l, last = some l → ¬ Recent now l.unixNano)
    (y : Time × String) :
    (Recent now (instant last y) ↔ Recent now (instant none y)) ∧
      (Recent now (instant none y) → instant last y = instant none y) := by
  cases last with
  | none => exact ⟨.rfl, fun _ => rfl⟩
  | some l =>
    have hl := hlast l rfl
    simp only [Recent, instant, Option.elim_some, Option.elim_none] at hl ⊢
    omega

theorem firstRecent_of_stale {last : Option Time} (hlast : ∀ l, last = some l → ¬ Recent now l.unixNano) :
    ∀ xs : List (Time × String), firstRecent now last xs = firstRecent now none xs
  | [] => rfl
  | y :: ys => by
    obtain ⟨hiff, heq⟩ := instant_of_stale hlast y
    rw [firstRecent_cons, firstRecent_cons, firstRecent_of_stale hlast ys]
    by_cases hy : Recent now (instant none y)
    · rw [if_pos hy, if_pos (hiff.2 hy), heq hy]
    · rw [if_neg hy, if_neg fun h => hy (hiff.1 h)]

/-- A stale report before it makes no difference. -/
theorem firstRecent_stale {last : Option Time} {t : Time} (ht : t.unixNano = instant last x)
    (hx : ¬ Recent now (instant last x)) : firstRecent now (some t) xs = firstRecent now last xs := by
  have htime : ∀ l, some t = some l → ¬ Recent now l.unixNano := by
    rintro l ⟨⟩ hl
    exact hx (ht ▸ hl)
  have hlast : ∀ l, last = some l → ¬ Recent now l.unixNano := by
    rintro l rfl hl
    exact hx (hl.trans_le (le_max_left _ _))
  rw [firstRecent_of_stale htime, firstRecent_of_stale hlast]

theorem batchHistory_absent : ∀ (xs : List (Time × String)) {f : SessionFinder}, f.activeSessions p = none →
    batchHistory r now p xs f = ([], firstRecent now (f.lastHandshake p) xs)
  | [], f, h => by
    unfold batchHistory history batch
    simp [analyzeAll, completed, h, firstRecent]
  | x :: xs, f, h => by
    have hlast : (f.setLast p (f.effective (report p x))).lastHandshake p = some (f.effective (report p x)) :=
      Function.update_self _ _ _
    by_cases hx : Recent now (instant (f.lastHandshake p) x)
    · have hlast' : ((f.setLast p (f.effective (report p x))).begin_ p (f.effective (report p x))).lastHandshake p =
          _ := hlast
      rw [batchHistory_up h hx, batchHistory_kept xs (begin_self _ p _) hlast' (by rwa [effective_instant]),
        firstRecent_cons, if_pos hx, ← effective_instant f p x]
      rfl
    · have habsent : (f.setLast p (f.effective (report p x))).activeSessions p = none := h
      rw [batchHistory_level (by rw [h, decide_eq_false hx]; rfl), batchHistory_absent xs habsent, hlast,
        firstRecent_stale (effective_instant f p x) hx, firstRecent_cons, if_neg hx]

theorem batchHistory_present {cur : Handle} (h : f.activeSessions p = some cur) :
    batchHistory r now p (x :: xs) f =
      if Recent now (instant (f.lastHandshake p) x) then ([], some cur.session.beginTimestamp.unixNano)
      else ([(cur.session.beginTimestamp.unixNano, instant (f.lastHandshake p) x)],
        firstRecent now (f.lastHandshake p) xs) := by
  have hlast : (f.setLast p (f.effective (report p x))).lastHandshake p = some (f.effective (report p x)) :=
    Function.update_self _ _ _
  split
  case isTrue hx =>
    rw [batchHistory_level (by rw [h, decide_eq_true hx]; rfl)]
    exact batchHistory_kept xs h hlast (by rwa [effective_instant])
  case isFalse hx =>
    have hlast' : ((f.setLast p (f.effective (report p x))).delete p).lastHandshake p =
        some (f.effective (report p x)) := hlast
    rw [batchHistory_down h hx, batchHistory_absent xs (delete_self _ p), hlast',
      firstRecent_stale (effective_instant f p x) hx]

/-! ## When the order is free -/

theorem firstRecent_eq_none {last : Option Time} :
    firstRecent now last xs = none ↔ ∀ x ∈ xs, ¬ Recent now (instant last x) := by
  simp [firstRecent]

theorem firstRecent_eq_some {last : Option Time} {i : Int} (h : firstRecent now last xs = some i) :
    ∃ x ∈ xs, Recent now (instant last x) ∧ instant last x = i := by
  obtain ⟨x, hfind, rfl⟩ := Option.map_eq_some_iff.1 h
  have hrecent := List.find?_some hfind
  exact ⟨x, List.mem_of_find?_eq_some hfind, of_decide_eq_true hrecent, rfl⟩

theorem firstRecent_perm {last : Option Time} {ys : List (Time × String)} (hperm : xs.Perm ys)
    (same : ∀ x ∈ xs, ∀ y ∈ xs, Recent now (instant last x) → Recent now (instant last y) →
      instant last x = instant last y) :
    firstRecent now last ys = firstRecent now last xs := by
  cases hys : firstRecent now last ys with
  | none => exact (firstRecent_eq_none.2 fun x hx => firstRecent_eq_none.1 hys x (hperm.mem_iff.1 hx)).symm
  | some i =>
    obtain ⟨y, hy, hrecent, rfl⟩ := firstRecent_eq_some hys
    cases hxs : firstRecent now last xs with
    | none => exact absurd hrecent (firstRecent_eq_none.1 hxs y (hperm.mem_iff.2 hy))
    | some j =>
      obtain ⟨x, hx, hrecent', rfl⟩ := firstRecent_eq_some hxs
      rw [same y (hperm.mem_iff.2 hy) x hx hrecent hrecent']

/-- Any report of the batch can be the first. -/
theorem OrderFree.front (h : OrderFree r now p xs f) (hx : x ∈ xs) :
    ∃ ys, batchHistory r now p (x :: ys) f = batchHistory r now p xs f := by
  obtain ⟨s, t, rfl⟩ := List.append_of_mem hx
  exact ⟨s ++ t, h _ List.perm_middle⟩

theorem OrderFree.settled_absent (h : OrderFree r now p xs f) (absent : f.activeSessions p = none) :
    Settled now p f xs := by
  -- a recent report that comes first begins the session
  have hbegin : ∀ x ∈ xs, Recent now (instant (f.lastHandshake p) x) →
      (batchHistory r now p xs f).2 = some (instant (f.lastHandshake p) x) := by
    intro x hx hrecent
    obtain ⟨ys, hys⟩ := h.front hx
    rw [← hys, batchHistory_absent _ absent, firstRecent_cons, if_pos hrecent]
  refine .absent absent fun x hx y hy hrecent hrecent' => ?_
  exact Option.some.inj ((hbegin x hx hrecent).symm.trans (hbegin y hy hrecent'))

theorem OrderFree.settled_present {cur : Handle} (h : OrderFree r now p xs f)
    (present : f.activeSessions p = some cur) : Settled now p f xs := by
  by_cases hall : ∀ x ∈ xs, Recent now (instant (f.lastHandshake p) x)
  · exact .kept cur present hall
  obtain ⟨x, hx, hstale⟩ : ∃ x ∈ xs, ¬ Recent now (instant (f.lastHandshake p) x) := by simpa using hall
  obtain ⟨zs, hzs⟩ := h.front hx
  rw [batchHistory_present present, if_neg hstale] at hzs
  -- every other report, when it comes first, has to end the session as this one does
  have hends : ∀ y ∈ xs, ¬ Recent now (instant (f.lastHandshake p) y) ∧
      instant (f.lastHandshake p) y = instant (f.lastHandshake p) x := by
    intro y hy
    obtain ⟨ys, hys⟩ := h.front hy
    rw [← hzs, batchHistory_present present] at hys
    split at hys
    case isTrue => cases congrArg Prod.fst hys
    case isFalse hstale' =>
      have hpair := List.cons.inj (congrArg Prod.fst hys)
      exact ⟨hstale', congrArg Prod.snd hpair.1⟩
  exact .ended cur present (fun y hy => (hends y hy).1) fun y hy z hz => (hends y hy).2.trans (hends z hz).2.symm

/-- The history is compared for batches that begin with some report. -/
theorem OrderFree.of_cons (h : ∀ x xs' y ys, xs.Perm (x :: xs') → xs.Perm (y :: ys) →
    batchHistory r now p (y :: ys) f = batchHistory r now p (x :: xs') f) : OrderFree r now p xs f := by
  intro ys hperm
  cases xs with
  | nil => rw [← hperm.nil_eq]
  | cons x xs =>
    cases ys with
    | nil => cases hperm.eq_nil
    | cons y ys => exact h x xs y ys (.refl _) hperm

theorem Settled.orderFree (h : Settled now p f xs) : OrderFree r now p xs f := by
  cases h with
  | absent habsent same =>
    intro ys hperm
    rw [batchHistory_absent _ habsent, batchHistory_absent _ habsent, firstRecent_perm hperm same]
  | kept cur present all =>
    refine .of_cons fun x xs' y ys hx hy => ?_
    have hrecent := all x (hx.mem_iff.2 List.mem_cons_self)
    have hrecent' := all y (hy.mem_iff.2 List.mem_cons_self)
    rw [batchHistory_present present, batchHistory_present present, if_pos hrecent, if_pos hrecent']
  | ended cur present all same =>
    -- the first report ends the session, and no other is recent
    have hended : ∀ x xs', xs.Perm (x :: xs') → batchHistory r now p (x :: xs') f =
        ([(cur.session.beginTimestamp.unixNano, instant (f.lastHandshake p) x)], none) := by
      intro x xs' hx
      have hnone := firstRecent_eq_none.2 fun z hz => all z (hx.mem_iff.2 (List.mem_cons_of_mem x hz))
      rw [batchHistory_present present, if_neg (all x (hx.mem_iff.2 List.mem_cons_self)), hnone]
    refine .of_cons fun x xs' y ys hx hy => ?_
    rw [hended x xs' hx, hended y ys hy, same y (hy.mem_iff.2 List.mem_cons_self) x (hx.mem_iff.2 List.mem_cons_self)]

end Steps

/-- The history of a batch is free of the order of its reports just if the reports that matter to it agree. -/
theorem orderFree_iff (r : IPRefiner) (now : Time) (p : String) (xs : List (Time × String)) (f : SessionFinder) :
    OrderFree r now p xs f ↔ Settled now p f xs := by
  refine ⟨fun h => ?_, Settled.orderFree⟩
  cases hcur : f.activeSessions p with
  | none => exact h.settled_absent hcur
  | some cur => exact h.settled_present hcur

/-- Two gateways report a new peer in one round: the session begins with the report that comes first. -/
theorem begin_depends_on_order :
    batchHistory ⟨[]⟩ (seconds 1000) "p" [(seconds 900, ""), (seconds 950, "")] empty =
      ([], some (seconds 900).unixNano) ∧
      batchHistory ⟨[]⟩ (seconds 1000) "p" [(seconds 950, ""), (seconds 900, "")] empty =
        ([], some (seconds 950).unixNano) ∧
      ¬ OrderFree ⟨[]⟩ (seconds 1000) "p" [(seconds 900, ""), (seconds 950, "")] empty := by
  have hfirst : batchHistory ⟨[]⟩ (seconds 1000) "p" [(seconds 900, ""), (seconds 950, "")] empty =
      ([], some (seconds 900).unixNano) := by decide
  have hsecond : batchHistory ⟨[]⟩ (seconds 1000) "p" [(seconds 950, ""), (seconds 900, "")] empty =
      ([], some (seconds 950).unixNano) := by decide
  refine ⟨hfirst, hsecond, fun h => ?_⟩
  have hsame := h [(seconds 950, ""), (seconds 900, "")] (List.Perm.swap _ _ _)
  rw [hfirst, hsecond] at hsame
  revert hsame
  decide

end Wig.Sessions.SessionFinder
