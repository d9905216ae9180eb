/-
The session finder over a restart. Its active sessions are dumped to a table and read back from it, but
no row of the table can be read: one of its columns has no field in a session, and nothing writes it.
What would have to come back for the history of a peer to go on is said here as well.
-/
import Wig.Sessions.Finder

namespace Wig.Sessions

/-! ## The table of active sessions -/

/-- What a column of a row holds. -/
inductive Cell where
  | null
  | text (s : String)
  | time (t : Time)
  | bool (b : Bool)

/-- A statement of the migrations about a table. -/
inductive Alter where
  | create (columns : List String)
  | addColumn (column : String)
  | dropColumn (column : String)

def Alter.apply (columns : List String) : Alter → List String
  | .create columns => columns
  | .addColumn column => columns ++ [column]
  | .dropColumn column => columns.erase column

/-- The migrations, as far as `active_sessions` goes. -/
def migrations : List Alter :=
  [.create ["peer_public_key", "begin_timestamp", "end_timestamp", "last_handshake", "active", "src_as", "src_country"],
    .addColumn "src_as_num", .addColumn "src_as_org", .dropColumn "src_as"]

def columns : List String := migrations.foldl Alter.apply []

/-- A row of the table has a cell for each column. -/
abbrev ActiveRow := List (String × Cell)

/-- A row inserted with values for some columns; the others are NULL. -/
def insertRow (values : List (String × Cell)) : ActiveRow := columns.map fun c => (c, (values.lookup c).getD .null)

/-- The field of a session that a `db` tag names. -/
def Session.tagged (sess : Session) : String → Option Cell
  | "peer_public_key" => some (.text sess.peerPublicKey)
  | "src_as_num" => some (.text sess.srcASNum)
  | "src_as_org" => some (.text sess.srcASOrg)
  | "src_country" => some (.text sess.srcCountry)
  | "begin_timestamp" => some (.time sess.beginTimestamp)
  | "end_timestamp" => some (.time sess.endTimestamp)
  | "active" => some (.bool sess.active)
  | _ => none

/-- A cell scanned into the field that a `db` tag names. There may be no such field, and a NULL goes
into none of them. -/
def Session.scan (sess : Session) : String × Cell → Option Session
  | ("peer_public_key", .text s) => some { sess with peerPublicKey := s }
  | ("src_as_num", .text s) => some { sess with srcASNum := s }
  | ("src_as_org", .text s) => some { sess with srcASOrg := s }
  | ("src_country", .text s) => some { sess with srcCountry := s }
  | ("begin_timestamp", .time t) => some { sess with beginTimestamp := t }
  | ("end_timestamp", .time t) => some { sess with endTimestamp := t }
  | ("active", .bool b) => some { sess with active := b }
  | _ => none

/-- `StructScan`. -/
def structScan (row : ActiveRow) : Option Session :=
  row.foldlM Session.scan ⟨"", "", "", "", Time.zero, Time.zero, false⟩

/-! ## Dump and restart -/

def dumpedColumns : List String :=
  ["peer_public_key", "begin_timestamp", "end_timestamp", "src_as_num", "src_as_org", "src_country", "active"]

/-- The named parameters of a statement, bound to the fields of a session. -/
def Session.named (sess : Session) : Option (List (String × Cell)) :=
  dumpedColumns.mapM fun c => (sess.tagged c).map fun cell => (c, cell)

/-- `DumpActiveSessions`: the rows of the table, in place of those it had, if every parameter is bound. -/
def dumpActiveSessions (sessions : List Session) : Option (List ActiveRow) :=
  (sessions.mapM Session.named).map fun values => values.map insertRow

namespace SessionFinder

/-- `out[sess.PeerPublicKey] = &sess`. -/
def file (f : SessionFinder) (sess : Session) : SessionFinder where
  activeSessions := Function.update f.activeSessions sess.peerPublicKey (some ⟨f.next, sess⟩)
  lastHandshake := f.lastHandshake
  next := f.next + 1
  keyed p cur h := by
    by_cases hp : p = sess.peerPublicKey
    · subst hp; rw [Function.update_self] at h; cases h; rfl
    · rw [Function.update_of_ne hp] at h; exact f.keyed p cur h
  addr_lt p cur h := by
    by_cases hp : p = sess.peerPublicKey
    · subst hp; rw [Function.update_self] at h; cases h; exact Nat.lt_succ_self _
    · rw [Function.update_of_ne hp] at h; exact Nat.lt_succ_of_lt (f.addr_lt p cur h)

/-- `GetActiveSessions`: the loop ends at the first row that does not scan. -/
def getActiveSessions : List ActiveRow → SessionFinder → SessionFinder
  | [], f => f
  | row :: rows, f =>
    match structScan row with
    | none => f
    | some sess => getActiveSessions rows (f.file sess)

/-- `GetLastHandshakeTimes`, whose loop ends likewise. -/
def getLastHandshakeTimes : List ActiveRow → (String → Option Time) → String → Option Time
  | [], out => out
  | row :: rows, out =>
    match row.lookup "peer_public_key", row.lookup "last_handshake" with
    | some (.text pk), some (.time ht) => getLastHandshakeTimes rows (Function.update out pk (some ht))
    | _, _ => out

/-- `NewSessionFinder`, by the rows that its two queries return. -/
def newSessionFinder (rows rows' : List ActiveRow) : SessionFinder :=
  { getActiveSessions rows empty with lastHandshake := getLastHandshakeTimes rows' fun _ => none }

/-- `ActiveSessions`: the sessions of the map, in some order. -/
def ActiveSessions (f : SessionFinder) (sessions : List Session) : Prop :=
  ∃ handles : List Handle, handles.Nodup ∧ (∀ h, h ∈ handles ↔ ∃ p, f.activeSessions p = some h) ∧
    sessions = handles.map Handle.session

/-- A finder is dumped and a new one is made of the same database; each query may return the rows in
an order of its own. -/
def Restarted (f g : SessionFinder) : Prop :=
  ∃ sessions rows rows₁ rows₂, f.ActiveSessions sessions ∧ dumpActiveSessions sessions = some rows ∧
    rows₁.Perm rows ∧ rows₂.Perm rows ∧ g = newSessionFinder rows₁ rows₂

/-! ## What a restart has to keep -/

/-- Two finders know the same of a peer. -/
structure Agree (f g : SessionFinder) (p : String) : Prop where
  active : (g.activeSessions p).map Handle.session = (f.activeSessions p).map Handle.session
  last : g.lastHandshake p = f.lastHandshake p

theorem complete_congr (r : IPRefiner) {cur cur' : Handle} (h : cur'.session = cur.session)
    (ht : Time) (endpoint : String) : (complete r cur' ht endpoint).session = (complete r cur ht endpoint).session := by
  unfold complete
  rw [h]

/-- A call sees no difference, and leaves none, if the finders agree about its peer. -/
theorem Agree.analyze {f g : SessionFinder} {s : PeerStats} (h : Agree f g s.publicKey) (r : IPRefiner) (now : Time) :
    (g.analyze r now s).1.map Handle.session = (f.analyze r now s).1.map Handle.session ∧
      Agree (f.analyze r now s).2 (g.analyze r now s).2 s.publicKey := by
  have heff := effective_congr h.last
  have hlast : (g.analyze r now s).2.lastHandshake s.publicKey = (f.analyze r now s).2.lastHandshake s.publicKey := by
    rw [analyze_lastHandshake, analyze_lastHandshake, Function.update_self, Function.update_self, heff]
  have hactive := h.active
  suffices hboth : (g.analyze r now s).1.map Handle.session = (f.analyze r now s).1.map Handle.session ∧
      ((g.analyze r now s).2.activeSessions s.publicKey).map Handle.session =
        ((f.analyze r now s).2.activeSessions s.publicKey).map Handle.session from ⟨hboth.1, hboth.2, hlast⟩
  unfold SessionFinder.analyze
  rw [setHandshakeTime_eq, setHandshakeTime_eq, heff]
  simp only [setLast]
  cases hf : f.activeSessions s.publicKey with
  | none =>
    rw [hf] at hactive
    rw [Option.map_eq_none_iff.1 hactive]
    cases recent now (f.effective s) with
    | true => simp [begin_]
    | false => exact ⟨rfl, by simp [hf, Option.map_eq_none_iff.1 hactive]⟩
  | some cur =>
    rw [hf] at hactive
    obtain ⟨cur', hg, hsess⟩ := Option.map_eq_some_iff.1 hactive
    rw [hg]
    cases recent now (f.effective s) with
    | true => exact ⟨rfl, by simp [hf, hg, hsess]⟩
    | false => exact ⟨congrArg some (complete_congr r hsess _ _), by simp [delete]⟩

/-- A call about another peer leaves the finders as they agree. -/
theorem Agree.analyze_other {f g : SessionFinder} {p : String} (h : Agree f g p) (r : IPRefiner)
    (now : Time) {s : PeerStats} (hp : p ≠ s.publicKey) : Agree (f.analyze r now s).2 (g.analyze r now s).2 p := by
  refine ⟨?_, ?_⟩
  · rw [analyze_activeSessions_of_ne r now s g hp, analyze_activeSessions_of_ne r now s f hp]
    exact h.active
  · rw [analyze_lastHandshake, analyze_lastHandshake, Function.update_of_ne hp, Function.update_of_ne hp]
    exact h.last

/-- Calls about peers that two finders agree about return the same sessions. -/
theorem analyzeAll_agree (r : IPRefiner) :
    ∀ (cs : List Call) {f g : SessionFinder}, (∀ c ∈ cs, Agree f g c.2.publicKey) →
    (analyzeAll r cs g).1.map Handle.session = (analyzeAll r cs f).1.map Handle.session
  | [], _, _, _ => rfl
  | c :: cs, f, g, h => by
    obtain ⟨hout, hagree⟩ := (h c List.mem_cons_self).analyze r c.1
    have hrest : ∀ c' ∈ cs, Agree (f.analyze r c.1 c.2).2 (g.analyze r c.1 c.2).2 c'.2.publicKey := by
      intro c' hc'
      by_cases hp : c'.2.publicKey = c.2.publicKey
      · rw [hp]; exact hagree
      · exact (h c' (List.mem_cons_of_mem _ hc')).analyze_other r c.1 hp
    have hhead : (g.analyze r c.1 c.2).1.toList.map Handle.session =
        (f.analyze r c.1 c.2).1.toList.map Handle.session := by
      rw [← Option.toList_map, ← Option.toList_map, hout]
    rw [analyzeAll_cons, analyzeAll_cons, List.map_append, List.map_append, hhead, analyzeAll_agree r cs hrest]

/-- The state of a finder survives: another has the same active sessions and, for their peers, the
same handshake times, and returns the same sessions from calls about them. -/
structure Survives (r : IPRefiner) (f g : SessionFinder) : Prop where
  active : ∀ p, (g.activeSessions p).map Handle.session = (f.activeSessions p).map Handle.session
  last : ∀ p, (f.activeSessions p).isSome → g.lastHandshake p = f.lastHandshake p
  later : ∀ cs : List Call, (∀ c ∈ cs, (f.activeSessions c.2.publicKey).isSome) →
    (analyzeAll r cs g).1.map Handle.session = (analyzeAll r cs f).1.map Handle.session

theorem Survives.of_kept {f g : SessionFinder} (r : IPRefiner)
    (active : ∀ p, (g.activeSessions p).map Handle.session = (f.activeSessions p).map Handle.session)
    (last : ∀ p, (f.activeSessions p).isSome → g.lastHandshake p = f.lastHandshake p) : Survives r f g :=
  ⟨active, last, fun cs hcs => analyzeAll_agree r cs fun c hc => ⟨active _, last _ (hcs c hc)⟩⟩

/-! ## Nothing is read back -/

/-- No session has a field for the last handshake. -/
theorem scan_lastHandshake (sess : Session) (cell : Cell) : sess.scan ("last_handshake", cell) = none := by
  cases cell <;> rfl

theorem foldlM_scan_of_mem : ∀ (row : ActiveRow) (sess : Session) {cell : Cell}, ("last_handshake", cell) ∈ row →
    row.foldlM Session.scan sess = none
  | c :: row, sess, cell, h => by
    rw [List.foldlM_cons]
    rcases List.mem_cons.1 h with rfl | h
    · rw [scan_lastHandshake]; rfl
    · cases sess.scan c with
      | none => rfl
      | some sess' => exact foldlM_scan_of_mem row sess' h

theorem structScan_insertRow (values : List (String × Cell)) : structScan (insertRow values) = none :=
  foldlM_scan_of_mem _ _ (List.mem_map.2 ⟨"last_handshake", by decide, rfl⟩)

/-- Every column of a dump has a field, so the parameters are bound. -/
theorem named_eq (sess : Session) : ∃ values, sess.named = some values ∧ values.lookup "last_handshake" = none :=
  ⟨_, rfl, rfl⟩

/-- A row that neither query gets anything from. -/
structure Unreadable (row : ActiveRow) : Prop where
  scan : structScan row = none
  last : row.lookup "last_handshake" = some .null

theorem unreadable_insertRow {values : List (String × Cell)} (h : values.lookup "last_handshake" = none) :
    Unreadable (insertRow values) := by
  refine ⟨structScan_insertRow values, ?_⟩
  have hcell : (insertRow values).lookup "last_handshake" = some ((values.lookup "last_handshake").getD .null) := rfl
  rw [hcell, h]
  rfl

/-- A dump goes through, and no row of it can be read. -/
theorem dump_unreadable : ∀ sessions : List Session, ∃ rows, dumpActiveSessions sessions = some rows ∧
    ∀ row ∈ rows, Unreadable row
  | [] => ⟨[], rfl, by simp⟩
  | sess :: sessions => by
    obtain ⟨rows, hrows, hall⟩ := dump_unreadable sessions
    obtain ⟨values, hvalues, hlast⟩ := named_eq sess
    obtain ⟨rest, hrest, rfl⟩ := Option.map_eq_some_iff.1 hrows
    refine ⟨insertRow values :: rest.map insertRow, ?_, ?_⟩
    · unfold dumpActiveSessions
      rw [List.mapM_cons, hvalues, hrest]
      rfl
    · exact List.forall_mem_cons.2 ⟨unreadable_insertRow hlast, hall⟩

theorem getActiveSessions_unreadable {rows : List ActiveRow} (h : ∀ row ∈ rows, Unreadable row) (f : SessionFinder) :
    getActiveSessions rows f = f := by
  cases rows with
  | nil => rfl
  | cons row rows => rw [getActiveSessions, (h row List.mem_cons_self).scan]

theorem getLastHandshakeTimes_unreadable {rows : List ActiveRow} (h : ∀ row ∈ rows, Unreadable row)
    (out : String → Option Time) : getLastHandshakeTimes rows out = out := by
  cases rows with
  | nil => rfl
  | cons row rows =>
    rw [getLastHandshakeTimes, (h row List.mem_cons_self).last]
    split
    · rename_i heq; cases heq
    · rfl

/-- A finder knows nothing after a restart. -/
theorem Restarted.eq_empty {f g : SessionFinder} (h : Restarted f g) : g = empty := by
  obtain ⟨sessions, rows, rows₁, rows₂, -, hdump, hperm₁, hperm₂, rfl⟩ := h
  obtain ⟨rows', hdump', hall⟩ := dump_unreadable sessions
  rw [hdump] at hdump'
  cases hdump'
  unfold newSessionFinder
  rw [getActiveSessions_unreadable fun row hrow => hall row (hperm₁.mem_iff.1 hrow),
    getLastHandshakeTimes_unreadable fun row hrow => hall row (hperm₂.mem_iff.1 hrow)]
  rfl

/-- The state of a finder survives a restart just if it has no active session. -/
theorem survives_iff {f g : SessionFinder} (h : Restarted f g) (r : IPRefiner) :
    Survives r f g ↔ ∀ p, f.activeSessions p = none := by
  rw [h.eq_empty]
  constructor
  · intro hs p
    exact Option.map_eq_none_iff.1 (hs.active p).symm
  · intro hf
    refine .of_kept r (fun p => by rw [hf p]; rfl) fun p hp => ?_
    rw [hf p] at hp
    cases hp

/-! ## Finders that calls and restarts lead to -/

inductive Reachable : SessionFinder → Prop
  | start : Reachable empty
  | call {f : SessionFinder} (hf : Reachable f) (r : IPRefiner) (c : Call) : Reachable (f.analyze r c.1 c.2).2
  | restart {f g : SessionFinder} (hf : Reachable f) (h : Restarted f g) : Reachable g

theorem Reachable.finite {f : SessionFinder} (hf : Reachable f) : {p | (f.activeSessions p).isSome}.Finite := by
  induction hf with
  | start => simp [empty]
  | @call f hf r c ih =>
    refine (ih.insert c.2.publicKey).subset fun p hp => ?_
    by_cases hpeer : p = c.2.publicKey
    · exact .inl hpeer
    · refine .inr ?_
      rwa [Set.mem_ofPred_eq, analyze_activeSessions_of_ne r c.1 c.2 f hpeer] at hp
  | restart hf h ih => simp [h.eq_empty, empty]

theorem exists_activeSessions {f : SessionFinder} (hf : {p | (f.activeSessions p).isSome}.Finite) :
    ∃ sessions, f.ActiveSessions sessions := by
  refine ⟨_, hf.toFinset.toList.filterMap f.activeSessions, ?_, fun h => ?_, rfl⟩
  · refine List.Nodup.filterMap (fun p p' h hp hp' => ?_) hf.toFinset.nodup_toList
    rw [← f.keyed p h hp, f.keyed p' h hp']
  · rw [List.mem_filterMap]
    constructor
    · rintro ⟨p, -, hp⟩
      exact ⟨p, hp⟩
    · rintro ⟨p, hp⟩
      exact ⟨p, by simp [hp], hp⟩

theorem Reachable.exists_restarted {f : SessionFinder} (hf : Reachable f) : ∃ g, Restarted f g := by
  obtain ⟨sessions, hsessions⟩ := exists_activeSessions hf.finite
  obtain ⟨rows, hrows, -⟩ := dump_unreadable sessions
  exact ⟨_, sessions, rows, rows, rows, hsessions, hrows, .rfl, .rfl, rfl⟩

/-! ## A session over a restart -/

/-- The time of a number of seconds. -/
def seconds (n : Int) : Time := ⟨n * 10 ^ 9, 0⟩

/-- A call at a time, about a handshake at a time. -/
def callAt (now ht : Int) : Call := (seconds now, ⟨"p", seconds ht, ""⟩)

theorem survives_start : (∃ g, Restarted empty g ∧ Survives ⟨[]⟩ empty g) ∧
    ∃ g, Restarted (empty.analyze ⟨[]⟩ (callAt 1000 1000).1 (callAt 1000 1000).2).2 g ∧
      ¬ Survives ⟨[]⟩ (empty.analyze ⟨[]⟩ (callAt 1000 1000).1 (callAt 1000 1000).2).2 g := by
  obtain ⟨g, hg⟩ := Reachable.start.exists_restarted
  obtain ⟨g', hg'⟩ := (Reachable.start.call ⟨[]⟩ (callAt 1000 1000)).exists_restarted
  refine ⟨⟨g, hg, (survives_iff hg _).2 fun _ => rfl⟩, g', hg', fun h => ?_⟩
  exact absurd ((survives_iff hg' _).1 h "p") (by decide)

/-- A session that began before a restart is returned with a later begin. -/
theorem begin_lost : ¬ ∀ (r : IPRefiner) (f g : SessionFinder), Reachable f → Restarted f g →
    ∀ cs : List Call, (∀ c ∈ cs, (f.activeSessions c.2.publicKey).isSome) →
      (analyzeAll r cs g).1.map Handle.session = (analyzeAll r cs f).1.map Handle.session := by
  intro h
  have hreach := Reachable.start.call ⟨[]⟩ (callAt 1000 1000)
  obtain ⟨g, hg⟩ := hreach.exists_restarted
  have hsame := h ⟨[]⟩ _ g hreach hg [callAt 1500 1500, callAt 3000 1500] (by decide)
  rw [hg.eq_empty] at hsame
  exact absurd hsame (by decide)

end SessionFinder

end Wig.Sessions
