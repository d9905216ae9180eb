/-
Looking up the sessions of a peer. A completed session is written to the table with all it has, and each row
could be read back; but the loop over the rows of the query keeps none of them, so what is found is the active
session alone.
-/
import Wig.Model.Timestamp
import Wig.Sessions.Independence
import Wig.Sessions.Restart

namespace Wig.Sessions

open Wig.Lib

/-! ## Rows of the table -/

/-- The migrations, as far as `sessions` goes. -/
def sessionsMigrations : List Alter :=
  [.create ["peer_public_key", "begin_timestamp", "end_timestamp", "src_as", "src_country"],
    .addColumn "src_as_num", .addColumn "src_as_org", .dropColumn "src_as"]

def sessionsColumns : List String := sessionsMigrations.foldl Alter.apply []

namespace SessionRow

def values (row : SessionRow) : List (String × Cell) :=
  [("peer_public_key", .text row.peerPublicKey), ("begin_timestamp", .time row.beginTimestamp),
    ("end_timestamp", .time row.endTimestamp), ("src_as_num", .text row.srcASNum), ("src_as_org", .text row.srcASOrg),
    ("src_country", .text row.srcCountry)]

/-- The row as `SELECT *` returns it. -/
def cells (row : SessionRow) : ActiveRow := sessionsColumns.map fun c => (c, (row.values.lookup c).getD .null)

end SessionRow

/-- A session has what a row has; times are read as instants. -/
structure Reads (row : SessionRow) (sess : Session) : Prop where
  peer : sess.peerPublicKey = row.peerPublicKey
  begins : sess.beginTimestamp.unixNano = row.beginTimestamp.unixNano
  ends : sess.endTimestamp.unixNano = row.endTimestamp.unixNano
  asNum : sess.srcASNum = row.srcASNum
  asOrg : sess.srcASOrg = row.srcASOrg
  country : sess.srcCountry = row.srcCountry

/-- Every column of the altered table has its field, so each row scans. -/
theorem structScan_cells (row : SessionRow) : ∃ sess, structScan row.cells = some sess ∧ Reads row sess :=
  ⟨_, rfl, rfl, rfl, rfl, rfl, rfl, rfl⟩

/-! ## The lookup -/

/-- `SELECT * FROM sessions WHERE peer_public_key = ? ORDER BY begin_timestamp DESC LIMIT ?`. -/
def selectSessions (pk : String) (limit : Nat) (rows : List SessionRow) : List SessionRow :=
  ((rows.filter fun row => row.peerPublicKey = pk).insertionSort fun a b => b.beginTimestamp.text ≤
    a.beginTimestamp.text).take limit

/-- The loop over the rows. What was scanned into `sess` goes out of scope. -/
def scanRows : List SessionRow → List Session → List Session
  | [], out => out
  | row :: rows, out =>
    match structScan row.cells with
    | none => scanRows rows out
    | some _ => scanRows rows out

/-- `FindSessionsByPublicKey` of the transaction, whose query may fail. -/
def findInTx (queries : Bool) (pk : String) (limit : Nat) (rows : List SessionRow) : List Session :=
  if queries then scanRows (selectSessions pk limit rows) [] else []

namespace SessionManager

/-- `FindSessionsByPublicKey`: whether the transaction opens, and whether its query succeeds. -/
def findSessionsByPublicKey (opens queries : Bool) (pkey : String) (m : SessionManager) : List Session :=
  let out := ((m.sf.activeSessions pkey).map (·.session)).toList
  if opens then out ++ findInTx queries pkey 100 m.sessions else out

/-- Sessions written one after the other. -/
def writeAll : List Session → Proc SessionManager Error Unit
  | [] => pure ()
  | sess :: rest => do
    writeCompletedSession true sess
    writeAll rest

/-- `rows` are the latest of `all`, by decreasing begin, and at most `n`. -/
structure Latest (n : Nat) (all rows : List SessionRow) : Prop where
  length : rows.length = min n all.length
  ordered : rows.Pairwise fun a b => b.beginTimestamp.unixNano ≤ a.beginTimestamp.unixNano
  others : ∃ rest, (rows ++ rest).Perm all ∧
    ∀ a ∈ rows, ∀ b ∈ rest, b.beginTimestamp.unixNano ≤ a.beginTimestamp.unixNano

/-- The active session of a peer, and then the completed ones, latest first. -/
def FindsWritten (k : String) (m : SessionManager) (out : List Session) : Prop :=
  ∃ rows completed, out = ((m.sf.activeSessions k).map (·.session)).toList ++ completed ∧
    List.Forall₂ Reads rows completed ∧ Latest 100 (m.rowsOf k) rows

/-- In one zone the texts of times are ordered as the times are. -/
theorem text_le_iff {t u : Time} (ht : t.Dated) (hu : u.Dated) (hzone : t.offset = u.offset) :
    t.text ≤ u.text ↔ t.unixNano ≤ u.unixNano := by
  rw [← not_lt, Time.text_lt_iff hu ht, Time.WrittenBefore, Time.wall, Time.wall, hzone]
  omega

/-- The query is right about sessions that begin in one zone: its rows are the latest of the peer. -/
theorem selectSessions_latest {m : SessionManager} {zone : Int}
    (h : ∀ row ∈ m.sessions, row.beginTimestamp.Dated ∧ row.beginTimestamp.offset = zone) (k : String) :
    Latest 100 (m.rowsOf k) (selectSessions k 100 m.sessions) := by
  have hperm :=
    List.perm_insertionSort (fun a b : SessionRow => b.beginTimestamp.text ≤ a.beginTimestamp.text) (m.rowsOf k)
  have hsorted :=
    List.pairwise_insertionSort (fun a b : SessionRow => b.beginTimestamp.text ≤ a.beginTimestamp.text) (m.rowsOf k)
  have hsel : selectSessions k 100 m.sessions =
      ((m.rowsOf k).insertionSort fun a b => b.beginTimestamp.text ≤ a.beginTimestamp.text).take 100 := rfl
  rw [hsel]
  generalize ((m.rowsOf k).insertionSort fun a b => b.beginTimestamp.text ≤ a.beginTimestamp.text) = l at hperm hsorted
  have hmem : ∀ row ∈ l, row.beginTimestamp.Dated ∧ row.beginTimestamp.offset = zone := fun row hrow =>
    h row (List.mem_filter.1 (hperm.subset hrow)).1
  have htimes : l.Pairwise fun a b => b.beginTimestamp.unixNano ≤ a.beginTimestamp.unixNano :=
    hsorted.imp_of_mem fun {a b} ha hb hab =>
      (text_le_iff (hmem b hb).1 (hmem a ha).1 ((hmem b hb).2.trans (hmem a ha).2.symm)).1 hab
  rw [← List.take_append_drop 100 l, List.pairwise_append] at htimes
  obtain ⟨hordered, -, hothers⟩ := htimes
  refine ⟨by rw [List.length_take, hperm.length_eq], hordered, l.drop 100, ?_, hothers⟩
  rwa [List.take_append_drop]

theorem writeAll_eq : ∀ (ws : List Session) (m : SessionManager),
    writeAll ws m = (.ok (), ⟨m.sessions ++ ws.map Session.row, m.sf⟩)
  | [], m => by simp [writeAll]
  | sess :: ws, m => by
    have hwrite : writeCompletedSession true sess m = (.ok (), ⟨m.sessions ++ [sess.row], m.sf⟩) := rfl
    rw [writeAll, Proc.bind_of_ok hwrite, writeAll_eq ws]
    simp

theorem scanRows_eq : ∀ (rows : List SessionRow) (out : List Session), scanRows rows out = out
  | [], _ => rfl
  | row :: rows, out => by
    unfold scanRows
    cases structScan row.cells with
    | none => exact scanRows_eq rows out
    | some _ => exact scanRows_eq rows out

/-- No completed session is found, ever. -/
theorem findSessionsByPublicKey_eq (opens queries : Bool) (k : String) (m : SessionManager) :
    m.findSessionsByPublicKey opens queries k = ((m.sf.activeSessions k).map (·.session)).toList := by
  unfold findSessionsByPublicKey findInTx
  cases opens with
  | false => rfl
  | true => cases queries <;> simp [scanRows_eq]

theorem rowsOf_writeAll (ws : List Session) (sf : SessionFinder) (k : String) :
    (writeAll ws ⟨[], sf⟩).2.rowsOf k = (ws.filter fun s => s.peerPublicKey = k).map Session.row := by
  rw [writeAll_eq, rowsOf, List.nil_append, List.filter_map]
  rfl

theorem findsWritten_active_iff (k : String) (m : SessionManager) :
    FindsWritten k m ((m.sf.activeSessions k).map (·.session)).toList ↔ m.rowsOf k = [] := by
  constructor
  · rintro ⟨rows, completed, hout, hreads, hlatest⟩
    -- nothing follows the active session, so there was nothing to follow it
    have hnone : completed = [] := List.self_eq_append_right.1 hout
    subst hnone
    cases hreads
    have hlen := hlatest.length
    rw [List.length_nil] at hlen
    exact List.length_eq_zero_iff.1 (by omega)
  · intro hnil
    exact ⟨[], [], by simp, .nil, by simp [hnil], .nil, [], by rw [hnil]; exact .refl _, by simp⟩

/-- What was written is found just if nothing was written: the rows that the query returns are dropped. -/
theorem findSessionsByPublicKey_finds_iff (sf : SessionFinder) (ws : List Session) (opens queries : Bool) (k : String) :
    FindsWritten k (writeAll ws ⟨[], sf⟩).2 ((writeAll ws ⟨[], sf⟩).2.findSessionsByPublicKey opens queries k) ↔
      ∀ s ∈ ws, s.peerPublicKey ≠ k := by
  rw [findSessionsByPublicKey_eq, findsWritten_active_iff, rowsOf_writeAll, List.map_eq_nil_iff, List.filter_eq_nil_iff]
  simp

/-- One session, written without error and then looked up. -/
theorem findSessionsByPublicKey_loses_written :
    let sess : Session := ⟨"pk1", "", "", "IT", ⟨0, 0⟩, ⟨600 * 10 ^ 9, 0⟩, false⟩
    let (res, m) := writeAll [sess] ⟨[], .empty⟩
    res = .ok () ∧ m.findSessionsByPublicKey true true "pk1" = [] ∧
      ¬ FindsWritten "pk1" m (m.findSessionsByPublicKey true true "pk1") := by
  intro sess
  refine ⟨rfl, findSessionsByPublicKey_eq .., ?_⟩
  rw [findSessionsByPublicKey_eq, findsWritten_active_iff]
  decide

end SessionManager

end Wig.Sessions
