/-
The query builder against the language it writes: the words of its statement, the grammar they should
follow, and the rows that a table's `Find` and `Each` go over. A statement without a condition still
ends in `WHERE`.
-/
import Wig.Crud.Find
import Wig.Lib.Collect
import Wig.Lib.Split

namespace Wig.Crud

open Wig.Lib

/-! ## The grammar -/

/-- The words of a text, as blanks separate them. -/
def words (text : String) : List String := (text.splitOn " ").filter fun w => decide (w ≠ "")

/-- Comparisons of a column with a parameter, joined by `AND`: the columns, in the order of their
placeholders. -/
def comparisons : List String → Option (List String)
  | [col, "=", "?"] => some [col]
  | col :: "=" :: "?" :: "AND" :: rest => (comparisons rest).map (col :: ·)
  | _ => none

/-- A `SELECT` on a table: the columns of its condition, in the order of their placeholders. There may
be no condition, but after `WHERE` there is one. -/
def selectColumns (table : String) : List String → Option (List String)
  | ["SELECT", "*", "FROM", name] => if name = "`" ++ table ++ "`" then some [] else none
  | "SELECT" :: "*" :: "FROM" :: name :: "WHERE" :: rest =>
    if name = "`" ++ table ++ "`" then comparisons rest else none
  | _ => none

/-- The words of a statement with a condition, up to the condition. -/
def selectWhere (table : String) : List String := ["SELECT", "*", "FROM", "`" ++ table ++ "`", "WHERE"]

def comparison (col : String) : List String := [col, "=", "?"]

theorem selectColumns_where (table : String) (rest : List String) :
    selectColumns table (selectWhere table ++ rest) = comparisons rest := by
  show (if "`" ++ table ++ "`" = "`" ++ table ++ "`" then comparisons rest else none) = _
  exact if_pos rfl

theorem comparisons_join (col : String) (cols : List String) :
    comparisons (comparison col ++ cols.flatMap fun c => "AND" :: comparison c) = some (col :: cols) := by
  induction cols generalizing col with
  | nil => rfl
  | cons c cols ih =>
    show (comparisons (comparison c ++ cols.flatMap fun c => "AND" :: comparison c)).map (col :: ·) = _
    rw [ih]
    rfl

/-! ## The words of the builder's statement -/

section Words

variable {table : String} {query : List (String × String)}

/-- A name that can stand in a statement as one word. -/
structure Word (w : String) : Prop where
  noBlank : ' ' ∉ w.toList
  nonempty : w ≠ ""

theorem words_intercalate {ws : List String} (h : ∀ w ∈ ws, ' ' ∉ w.toList) (hne : ws ≠ []) :
    words (" ".intercalate ws) = ws.filter fun w => decide (w ≠ "") := by
  have hsplit : (" ".intercalate ws).splitOn " " = ws := splitOn_intercalate (c := ' ') h hne
  rw [words, hsplit]

theorem text_mk (table : String) (clauses args : List String) :
    QueryBuilder.text ⟨table, clauses, args⟩ = "SELECT * FROM `" ++ table ++ "` WHERE " ++
      " AND ".intercalate clauses := rfl

theorem text_nil (table : String) : (newQueryBuilder table []).text = " ".intercalate (selectWhere table ++ [""]) := by
  rw [← String.toList_inj]
  simp [newQueryBuilder_eq, text_mk, selectWhere]

theorem toList_comparison (col : String) :
    (comparison col).flatMap (fun w => ' ' :: w.toList) = ' ' :: (col ++ " = ?").toList := by
  simp [comparison]

theorem text_cons (table : String) (kv : String × String) (query : List (String × String)) :
    (newQueryBuilder table (kv :: query)).text =
      " ".intercalate (selectWhere table ++ (comparison kv.1 ++ query.flatMap fun kv => "AND" :: comparison kv.1)) := by
  rw [← String.toList_inj]
  simp [newQueryBuilder_eq, text_mk, selectWhere, String.toList_intercalate, intercalate_cons, List.flatMap_map,
    List.flatMap_assoc, toList_comparison]

theorem selectWhere_words (ht : Word table) : ∀ w ∈ selectWhere table, Word w := by
  have hquoted : Word ("`" ++ table ++ "`") :=
    ⟨by simp [ht.noBlank], fun h => by simpa using congrArg String.length h⟩
  intro w hw
  simp only [selectWhere, List.mem_cons, List.not_mem_nil, or_false] at hw
  rcases hw with rfl | rfl | rfl | rfl | rfl
  · exact ⟨by decide, by decide⟩
  · exact ⟨by decide, by decide⟩
  · exact ⟨by decide, by decide⟩
  · exact hquoted
  · exact ⟨by decide, by decide⟩

theorem comparison_words {col : String} (h : Word col) : ∀ w ∈ comparison col, Word w := by
  intro w hw
  simp only [comparison, List.mem_cons, List.not_mem_nil, or_false] at hw
  rcases hw with rfl | rfl | rfl
  · exact h
  · exact ⟨by decide, by decide⟩
  · exact ⟨by decide, by decide⟩

theorem words_of_words {ws : List String} (h : ∀ w ∈ ws, Word w) (hne : ws ≠ []) : words (" ".intercalate ws) = ws := by
  rw [words_intercalate (fun w hw => (h w hw).noBlank) hne, List.filter_eq_self]
  exact fun w hw => decide_eq_true (h w hw).nonempty

/-- With a key there is a condition. -/
theorem words_cons (ht : Word table) {kv : String × String} (hk : ∀ kv' ∈ kv :: query, Word kv'.1) :
    words (newQueryBuilder table (kv :: query)).text =
      selectWhere table ++ (comparison kv.1 ++ query.flatMap fun kv => "AND" :: comparison kv.1) := by
  obtain ⟨hkv, hrest⟩ := List.forall_mem_cons.1 hk
  rw [text_cons]
  refine words_of_words (fun w hw => ?_) (List.append_ne_nil_of_left_ne_nil (List.cons_ne_nil _ _) _)
  rcases List.mem_append.1 hw with hw | hw
  · exact selectWhere_words ht w hw
  · rcases List.mem_append.1 hw with hw | hw
    · exact comparison_words hkv w hw
    · obtain ⟨kv', hkv', hw⟩ := List.mem_flatMap.1 hw
      rcases List.mem_cons.1 hw with rfl | hw
      · exact ⟨by decide, by decide⟩
      · exact comparison_words (hrest kv' hkv') w hw

/-- Without one, `WHERE` is the last word. -/
theorem words_nil (ht : Word table) : words (newQueryBuilder table []).text = selectWhere table := by
  rw [text_nil, words_intercalate ?_ (by simp)]
  · rw [List.filter_append, List.filter_eq_self.2 fun w hw => decide_eq_true (selectWhere_words ht w hw).nonempty]
    rfl
  · intro w hw
    rcases List.mem_append.1 hw with hw | hw
    · exact (selectWhere_words ht w hw).noBlank
    · rw [List.mem_singleton.1 hw]; decide

/-- The columns of the statement are the keys of the query. -/
theorem selectColumns_query (ht : Word table) (hk : ∀ kv ∈ query, Word kv.1) (hne : query ≠ []) :
    selectColumns table (words (newQueryBuilder table query).text) = some (query.map Prod.fst) := by
  obtain ⟨kv, query, rfl⟩ := List.exists_cons_of_ne_nil hne
  have hjoin := comparisons_join kv.1 (query.map Prod.fst)
  rw [List.flatMap_map] at hjoin
  rw [words_cons ht hk, selectColumns_where, hjoin]
  rfl

end Words

/-! ## What is found -/

section Sound

variable {D R V : Type} (E : Engine D R) (t : SQLTable R V) (rows : D → List R) (sat : R → String → String → Bool)

/-- `sqlTableAdapter.Each`: a find with a nil query. -/
def SQLTable.each (d : D) : Found V × D := t.find E [] d

/-- The names of a table can stand in a statement. -/
structure SQLTable.Named (t : SQLTable R V) : Prop where
  table : Word t.table
  fields : ∀ f ∈ t.allFields, Word f

/-- The rows of the table that satisfy all the equalities of a query. -/
def matching (query : List (String × String)) (d : D) : List R :=
  (rows d).filter fun row => query.all fun kv => sat row kv.1 kv.2

/-- The objects of some rows, each once and in any order, went to the callback, and there was no error. -/
def Visited (found : Found V) (expected : List R) : Prop :=
  found.err = none ∧ ∃ visited : List R, visited.Perm expected ∧ visited.mapM t.structScan = .ok found.objs

/-- What SQLite does with the statements on a table. One that ends in `WHERE` it refuses; one that
follows the grammar gives the rows on which every column equals the argument of its placeholder.
`rows` are the rows of the table, and `sat` is how a column compares. -/
structure Selects : Prop where
  refuses : ∀ text, words text = selectWhere t.table → ∃ e, E.prepare text = .error e
  selects : ∀ (text : String) (cols args : List String), selectColumns t.table (words text) = some cols →
    (∀ c ∈ cols, c ∈ t.allFields) → cols.length = args.length →
    ∃ stmt, E.prepare text = .ok stmt ∧ ∀ d, ∃ found, found.Perm (matching rows sat (cols.zip args) d) ∧
      E.exec stmt args d = ((found, none), d)

/-- The statement is a `SELECT`, each placeholder is bound to the value of the field before it, and the
callback gets the rows that satisfy the query. -/
structure QuerySound (query : List (String × String)) (d : D) : Prop where
  statement : ∃ cols, selectColumns t.table (words (newQueryBuilder t.table query).text) = some cols ∧
    cols.length = (newQueryBuilder t.table query).args.length ∧ cols.zip (newQueryBuilder t.table query).args = query
  visited : Visited t (t.find E query d).1 (matching rows sat query d)

variable {E t rows sat}

theorem visitRows_ok {scan : R → Except Error V} {l : List R} {objs : List V} (h : l.mapM scan = .ok objs)
    (err : Option Error) : visitRows scan err l = ⟨objs, err⟩ := by
  have hall := mapM_eq_ok_iff.1 h
  clear h
  induction hall with
  | nil => rfl
  | cons hr _ ih => simp only [visitRows, hr, ih]

theorem zip_fst_snd (query : List (String × String)) : (query.map Prod.fst).zip (query.map Prod.snd) = query := by
  have h := List.zip_unzip query
  rwa [List.unzip_eq_map] at h

/-- Without keys the statement is refused. -/
theorem find_nil (ht : t.Named) (hE : Selects E t rows sat) (d : D) : ∃ e, t.find E [] d = (⟨[], some e⟩, d) := by
  obtain ⟨e, he⟩ := hE.refuses _ (words_nil ht.table)
  exact ⟨e, SQLTable.find_of_refused he d⟩

/-- With keys, the rows that are gone over are those that satisfy the query. -/
theorem find_cons (ht : t.Named) (hE : Selects E t rows sat) {query : List (String × String)}
    (hkeys : ∀ kv ∈ query, kv.1 ∈ t.allFields) (hne : query ≠ []) (d : D) :
    ∃ found, found.Perm (matching rows sat query d) ∧ t.find E query d = (visitRows t.structScan none found, d) := by
  have hcols := selectColumns_query ht.table (fun kv hkv => ht.fields _ (hkeys kv hkv)) hne
  obtain ⟨stmt, hprep, hexec⟩ := hE.selects _ _ (query.map Prod.snd) hcols (List.forall_mem_map.2 hkeys) (by simp)
  obtain ⟨found, hperm, he⟩ := hexec d
  rw [zip_fst_snd] at hperm
  exact ⟨found, hperm, SQLTable.find_of_prepared hprep he⟩

theorem not_visited_nil (ht : t.Named) (hE : Selects E t rows sat) (d : D) (expected : List R) :
    ¬ Visited t (t.find E [] d).1 expected := by
  obtain ⟨e, hnil⟩ := find_nil ht hE d
  rintro ⟨herr, -⟩
  rw [hnil] at herr
  cases herr

/-- A query with keys is sound, if the rows that satisfy it scan. -/
theorem querySound_of_ne_nil (ht : t.Named) (hE : Selects E t rows sat) {query : List (String × String)}
    (hkeys : ∀ kv ∈ query, kv.1 ∈ t.allFields) (hne : query ≠ []) {d : D}
    (hscans : ∀ row ∈ matching rows sat query d, ∃ v, t.structScan row = .ok v) : QuerySound E t rows sat query d := by
  have hcols := selectColumns_query ht.table (fun kv hkv => ht.fields _ (hkeys kv hkv)) hne
  have hargs : (newQueryBuilder t.table query).args = query.map Prod.snd := by rw [newQueryBuilder_eq]
  obtain ⟨found, hperm, hfind⟩ := find_cons ht hE hkeys hne d
  obtain ⟨vs, hvs⟩ := exists_mapM_ok_iff.2 fun r hr => hscans r (hperm.mem_iff.1 hr)
  refine ⟨⟨_, hcols, by simp [hargs], ?_⟩, ?_⟩
  · rw [hargs, zip_fst_snd]
  · rw [hfind, visitRows_ok hvs]
    exact ⟨rfl, found, hperm, hvs⟩

/-- `Find` is sound just if the query has a key, and the rows that satisfy it scan. `Each`, whose query
has none, is sound on no table. -/
theorem query_sound_iff (ht : t.Named) (hE : Selects E t rows sat) {query : List (String × String)}
    (hkeys : ∀ kv ∈ query, kv.1 ∈ t.allFields) (d : D) :
    (QuerySound E t rows sat query d ↔ query ≠ [] ∧ ∀ row ∈ matching rows sat query d, ∃ v, t.structScan row = .ok v) ∧
      ¬ Visited t (t.each E d).1 (rows d) := by
  refine ⟨⟨fun h => ?_, fun ⟨hne, hscans⟩ => querySound_of_ne_nil ht hE hkeys hne hscans⟩, not_visited_nil ht hE d _⟩
  have hne : query ≠ [] := by
    rintro rfl
    exact not_visited_nil ht hE d _ h.visited
  obtain ⟨-, visited, hperm, hscan⟩ := h.visited
  exact ⟨hne, fun row hrow => exists_mapM_ok_iff.1 ⟨_, hscan⟩ row (hperm.mem_iff.2 hrow)⟩

/-! ## An engine -/

/-- An engine that knows the statements on one table, and no others. -/
def tableEngine (t : SQLTable R V) (rows : D → List R) (sat : R → String → String → Bool) : Engine D R where
  Prepared := List String
  prepare text :=
    match selectColumns t.table (words text) with
    | some cols => if ∀ c ∈ cols, c ∈ t.allFields then .ok cols else .error .syntaxError
    | none => .error .syntaxError
  exec cols args d := ((matching rows sat (cols.zip args) d, none), d)

theorem tableEngine_selects (t : SQLTable R V) (rows : D → List R) (sat : R → String → String → Bool) :
    Selects (tableEngine t rows sat) t rows sat where
  refuses text h := by
    have hnone : selectColumns t.table (words text) = none := by
      rw [h, ← List.append_nil (selectWhere t.table), selectColumns_where]
      rfl
    exact ⟨.syntaxError, by simp only [tableEngine, hnone]⟩
  selects text cols args h hcols _ := by
    refine ⟨cols, ?_, fun d => ⟨_, .refl _, rfl⟩⟩
    simp only [tableEngine, h]
    exact if_pos hcols

end Sound

end Wig.Crud
