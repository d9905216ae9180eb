/-
Tables whose rows were written by the program. Each of their rows is the row of an object, reads
back as one, and that one has the same row.
-/
import Wig.Lib.Collect
import Wig.Lib.Split
import Wig.Model.Registered

namespace Wig.Model

open Wig.Lib

/-! ## Objects from rows and back -/

theorem CIDR.scan_value_exists (p : Option CIDR) :
    ∃ p', CIDR.scan (CIDR.value p) = .ok p' ∧ CIDR.value p' = CIDR.value p := by
  cases p with
  | none => exact ⟨none, rfl, rfl⟩
  | some c =>
    by_cases hn : c.isNil = true
    · -- an empty network is stored as NULL
      refine ⟨none, ?_, ?_⟩ <;> simp [CIDR.value, hn, CIDR.scan]
    · refine ⟨some c.reread, CIDR.scan_value fun c' h => ?_, CIDR.value_reread (some c)⟩
      cases h
      simpa using hn

theorem Interface.scan_row_exists (i : Interface) : ∃ i', i.row.scan = .ok i' ∧ i'.row = i.row := by
  obtain ⟨ip, hip, hvip⟩ := CIDR.scan_value_exists i.ip
  obtain ⟨ip6, hip6, hvip6⟩ := CIDR.scan_value_exists i.ip6
  refine ⟨⟨i.name, i.port, ip, ip6, i.fwmark, i.privateKey, i.publicKey⟩, ?_, ?_⟩
  · unfold InterfaceRow.scan Interface.row
    rw [hip, hip6]
    rfl
  · simp [Interface.row, hvip, hvip6]

theorem Peer.scan_row_exists (p : Peer) : ∃ p', p.row.scan = .ok p' ∧ p'.row = p.row := by
  obtain ⟨ip, hip, hvip⟩ := CIDR.scan_value_exists p.ip
  obtain ⟨ip6, hip6, hvip6⟩ := CIDR.scan_value_exists p.ip6
  refine ⟨⟨p.publicKey, p.interface, ip, ip6, p.expire⟩, ?_, ?_⟩
  · unfold PeerRow.scan Peer.row
    rw [hip, hip6]
    rfl
  · simp [Peer.row, hvip, hvip6]

/-- A list of roles is stored as one text, and read back it has that text again. -/
theorem TokenRow.row_scan (r : TokenRow) : r.scan.row = r := by
  obtain ⟨id, secret, roles⟩ := r
  cases roles with
  | none => rfl
  | some s =>
    have hjoin : ",".intercalate (s.splitOn ",") = s := intercalate_splitOn ',' s
    have hne : s.splitOn "," ≠ [] := by
      have h := splitOn_char ',' s
      rw [show String.ofList [','] = "," from rfl] at h
      rw [h]
      simp
    obtain ⟨a, l, hl⟩ := List.exists_cons_of_ne_nil hne
    simp only [TokenRow.scan, Token.row, Option.map_some, hl, commaSepValue]
    rw [← hl, hjoin]

/-! ## Stored tables -/

/-- Every row of an interface or a peer is one of an object. -/
structure Tables.Stored (t : Tables) : Prop where
  interfaces : ∀ r ∈ t.interfaces.rows, ∃ i : Interface, i.row = r
  peers : ∀ r ∈ t.peers.rows, ∃ p : Peer, p.row = r

theorem Tables.Stored.empty : Tables.empty.Stored where
  interfaces _ h := nomatch h
  peers _ h := nomatch h

theorem Tables.Stored.insert {t t' : Tables} {v : Value} {r : Row} (h : t.Stored) (hr : v.row = .ok r)
    (he : t.insert r = .ok t') : t'.Stored := by
  cases v with
  | other => cases hr
  | interface i =>
    cases hr
    simp only [Tables.insert] at he
    split at he
    · cases he
    · rename_i u hu
      cases he
      refine ⟨fun x hx => ?_, h.peers⟩
      rcases (Table.mem_insert hu).1 hx with hx | rfl
      · exact h.interfaces x hx
      · exact ⟨i, rfl⟩
  | peer p =>
    cases hr
    simp only [Tables.insert] at he
    split at he
    · cases he
    · rename_i u hu
      split at he
      · cases he
        refine ⟨h.interfaces, fun x hx => ?_⟩
        rcases (Table.mem_insert hu).1 hx with hx | rfl
        · exact h.peers x hx
        · exact ⟨p, rfl⟩
      · cases he
  | token k =>
    cases hr
    simp only [Tables.insert] at he
    split at he
    · cases he
    · cases he
      exact ⟨h.interfaces, h.peers⟩

theorem Tables.Stored.update {t t' : Tables} {v : Value} {r : Row} (h : t.Stored) (hr : v.row = .ok r)
    (he : t.update r = .ok t') : t'.Stored := by
  cases v with
  | other => cases hr
  | interface i =>
    cases hr
    cases he
    refine ⟨fun x hx => ?_, h.peers⟩
    rcases Table.mem_replace.1 hx with ⟨rfl, -⟩ | ⟨hx, -⟩
    · exact ⟨i, rfl⟩
    · exact h.interfaces x hx
  | peer p =>
    cases hr
    simp only [Tables.update] at he
    split at he
    · cases he
      refine ⟨h.interfaces, fun x hx => ?_⟩
      rcases Table.mem_replace.1 hx with ⟨rfl, -⟩ | ⟨hx, -⟩
      · exact ⟨p, rfl⟩
      · exact h.peers x hx
    · cases he
  | token k =>
    cases hr
    cases he
    exact ⟨h.interfaces, h.peers⟩

theorem Tables.Stored.delete {t : Tables} (h : t.Stored) (r : Row) : (t.delete r).Stored := by
  cases r with
  | interface r =>
    exact ⟨fun x hx => h.interfaces x (Table.mem_erase.1 hx).1, fun x hx => h.peers x (Table.mem_filter.1 hx).1⟩
  | peer r => exact ⟨h.interfaces, fun x hx => h.peers x (Table.mem_erase.1 hx).1⟩
  | token r => exact ⟨h.interfaces, h.peers⟩

/-! ## Visiting a table -/

/-- The rows of a table. -/
def Tables.rowsOf (t : Tables) : TableName → List Row
  | .interfaces => t.interfaces.rows.map .interface
  | .peers => t.peers.rows.map .peer
  | .tokens => t.tokens.rows.map .token

/-- `StructScan`. -/
def Row.scan : Row → Except Error Value
  | .interface r => r.scan.map .interface
  | .peer r => r.scan.map .peer
  | .token r => .ok (.token r.scan)

/-- What a `SELECT` of a whole table gives, as objects. -/
def Tables.visit (t : Tables) (n : TableName) : Except Error (List Value) := (t.rowsOf n).mapM Row.scan

/-- The row of an object scans, to an object with that row. -/
theorem Value.exists_scan {v : Value} {r : Row} (h : v.row = .ok r) : ∃ v', r.scan = .ok v' ∧ v'.row = .ok r := by
  cases v with
  | interface i =>
    cases h
    obtain ⟨i', hi', hrow⟩ := i.scan_row_exists
    exact ⟨.interface i', by simp only [Row.scan, hi']; rfl, by simp only [row, hrow]⟩
  | peer p =>
    cases h
    obtain ⟨p', hp', hrow⟩ := p.scan_row_exists
    exact ⟨.peer p', by simp only [Row.scan, hp']; rfl, by simp only [row, hrow]⟩
  | token t =>
    cases h
    exact ⟨.token t.row.scan, rfl, by simp only [row, TokenRow.row_scan]⟩
  | other => cases h

theorem mapM_scan {rows : List Row} (h : ∀ r ∈ rows, ∃ v, r.scan = .ok v ∧ v.row = .ok r) :
    ∃ objs, rows.mapM Row.scan = .ok objs ∧ objs.map Value.row = rows.map .ok := by
  obtain ⟨objs, ho, hrows⟩ := exists_mapM_forall₂ h
  exact ⟨objs, ho, (map_eq_of_forall₂ (fun _ _ hrow => hrow.symm) hrows).symm⟩

/-- A stored table can be visited, and the objects have the rows they were read from. -/
theorem Tables.Stored.visit {t : Tables} (h : t.Stored) (n : TableName) :
    ∃ objs, t.visit n = .ok objs ∧ objs.map Value.row = (t.rowsOf n).map .ok := by
  refine mapM_scan fun r hr => ?_
  cases n with
  | interfaces =>
    obtain ⟨x, hx, rfl⟩ := List.mem_map.1 hr
    obtain ⟨i, rfl⟩ := h.interfaces x hx
    exact Value.exists_scan (v := .interface i) rfl
  | peers =>
    obtain ⟨x, hx, rfl⟩ := List.mem_map.1 hr
    obtain ⟨p, rfl⟩ := h.peers x hx
    exact Value.exists_scan (v := .peer p) rfl
  | tokens =>
    obtain ⟨x, hx, rfl⟩ := List.mem_map.1 hr
    exact Value.exists_scan (v := .token x.scan) (by rw [Value.row, TokenRow.row_scan])

end Wig.Model
