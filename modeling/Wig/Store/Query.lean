/-
Finds on the registered tables, local and remote.
-/
import Wig.Crud.Client
import Wig.Crud.Query
import Wig.Store.Find

namespace Wig.Store

open Wig.Lib Wig.Crud Wig.Model Wig.Crudlog

theorem named_sqlTable (n : TableName) : (sqlTable n).Named where
  table := by cases n <;> exact ⟨by decide, by decide⟩
  fields := by
    have hfields : ∀ f ∈ (sqlTable n).allFields, ' ' ∉ f.toList ∧ f ≠ "" := by cases n <;> decide
    exact fun f hf => ⟨(hfields f hf).1, (hfields f hf).2⟩

/-- The rows that the program wrote scan. -/
theorem scan_of_stored {t : Tables} (h : t.Stored) (n : TableName) : ∀ row ∈ t.rowsOf n, ∃ v, row.scan = .ok v := by
  obtain ⟨objs, hvisit, -⟩ := h.visit n
  exact exists_mapM_ok_iff.1 ⟨objs, hvisit⟩

/-- So on tables that the program wrote, a find with a key goes over the rows that satisfy it. -/
theorem querySound_of_stored {E : Engine (Database Tables) Row} {n : TableName} {sat : Row → String → String → Bool}
    (hE : Selects E (sqlTable n) (fun d => d.tables.rowsOf n) sat) {query : List (String × String)}
    (hkeys : ∀ kv ∈ query, kv.1 ∈ (sqlTable n).allFields) (hne : query ≠ []) {d : Database Tables}
    (hd : d.tables.Stored) : QuerySound E (sqlTable n) (fun d => d.tables.rowsOf n) sat query d := by
  refine querySound_of_ne_nil (named_sqlTable n) hE hkeys hne fun row hrow => ?_
  have hscan := scan_of_stored hd n row (List.mem_filter.1 hrow).1
  cases n <;> exact hscan

/-- How a column with a text compares. -/
def textSat (row : Row) (col arg : String) : Bool := textCell row col == some (some arg)

/-- An engine for the statements on one table. -/
def oneTable (n : TableName) : Engine (Database Tables) Row :=
  tableEngine (sqlTable n) (fun d => d.tables.rowsOf n) textSat

theorem oneTable_selects (n : TableName) : Selects (oneTable n) (sqlTable n) (fun d => d.tables.rowsOf n) textSat :=
  tableEngine_selects _ _ _

/-! ## The empty query -/

theorem query_sound_publicKey :
    QuerySound (oneTable .peers) (sqlTable .peers) (fun d => d.tables.rowsOf .peers) textSat [("public_key", "pk")]
    (withSecret "a") ∧
      ¬ QuerySound (oneTable .peers) (sqlTable .peers) (fun d => d.tables.rowsOf .peers) textSat
        [] (withSecret "a") := by
  have hpeers : (withSecret "a").tables.rowsOf .peers = [.peer ⟨"pk", "wg0", none, none, Time.zero⟩] := by
    decide +kernel
  constructor
  · refine (query_sound_iff (named_sqlTable .peers) (oneTable_selects .peers) (by decide) (withSecret "a")).1.2
      ⟨List.cons_ne_nil _ _, fun row hrow => ?_⟩
    have hmem : row ∈ (withSecret "a").tables.rowsOf .peers := (List.mem_filter.1 hrow).1
    rw [hpeers, List.mem_singleton] at hmem
    exact ⟨.peer ⟨"pk", "wg0", none, none, Time.zero⟩, by rw [hmem]; rfl⟩
  · intro h
    exact ((query_sound_iff (named_sqlTable .peers) (oneTable_selects .peers) (by decide) (withSecret "a")).1.1 h).1 rfl

/-- The empty query, which is the one of `Each`, is not a statement. -/
theorem empty_query_refused :
    ¬ ∀ (E : Engine (Database Tables) Row) (sat : Row → String → String → Bool) (n : TableName),
    Selects E (sqlTable n) (fun d => d.tables.rowsOf n) sat → ∀ (query : List (String × String)),
      (∀ kv ∈ query, kv.1 ∈ (sqlTable n).allFields) → ∀ d : Database Tables, d.tables.Stored →
        QuerySound E (sqlTable n) (fun d => d.tables.rowsOf n) sat query d := by
  intro h
  have hstored : (Database.fresh Tables.empty).tables.Stored := .empty
  have hsound :=
    h (oneTable .peers) textSat .peers (oneTable_selects .peers) [] (fun _ hkv => (List.not_mem_nil hkv).elim)
    (Database.fresh Tables.empty) hstored
  exact not_visited_nil (named_sqlTable .peers) (oneTable_selects .peers) _ _ hsound.visited

/-! ## The remote client -/

/-- One token is found here; over HTTP the find of it fails. -/
theorem remote_find_fails : ¬ ∀ (E : Engine (Database Tables) Row) (sat : Row → String → String → Bool) (n : TableName),
    Selects E (sqlTable n) (fun d => d.tables.rowsOf n) sat → ∀ (newInstance : GoType)
    (query args : List (String × String)),
      args.Perm (queryArgs (urlValues query)) → ∀ d : Database Tables,
        (sqlReaderFind E sqlTables (sqlTable n).typename query true true d).1.err = none →
        (sqlReaderFind E sqlTables (sqlTable n).typename query true true d).1.objs.length = 1 →
        FindsAlike E sqlTables Value.marshal (sqlTable n) newInstance query args true true d := by
  intro h
  have htoken : matching (fun d => d.tables.rowsOf .tokens) textSat [("id", "t")] (withSecret "a") =
      [.token ⟨"t", "a", none⟩] := by
    decide +kernel
  obtain ⟨found, hperm, hfind⟩ := find_cons (named_sqlTable .tokens) (oneTable_selects .tokens)
    (show ∀ kv ∈ [("id", "t")], kv.1 ∈ (sqlTable .tokens).allFields by decide) (List.cons_ne_nil _ _) (withSecret "a")
  rw [htoken, List.perm_singleton] at hperm
  have hlocal : (sqlReaderFind (oneTable .tokens) sqlTables (sqlTable .tokens).typename [("id", "t")] true
    true (withSecret "a")).1 =
      ⟨[.token ⟨"t", "a", none⟩], none⟩ := by
    simp only [sqlReaderFind, sqlTables_find, withTx, hfind, hperm]
    rfl
  exact not_findsAlike _ _ _ _ _ _ (h (oneTable .tokens) textSat .tokens (oneTable_selects .tokens) .token [("id", "t")]
    [("id", "t")] (by rw [queryArgs_urlValues]) (withSecret "a") (by rw [hlocal]) (by rw [hlocal]; rfl))

end Wig.Store
