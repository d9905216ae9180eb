/-
What a reader of one table can see. The keys of a query go into the text of a statement as they came
in the URL, so the tables that an answer depends on are those the keys name.
-/
import Wig.Crud.Find
import Wig.Lib.Split
import Wig.Store.Copy

namespace Wig.Store

open Wig.Lib Wig.Crud Wig.Model Wig.Crudlog

/-! ## The registered tables -/

def sqlTable : TableName → SQLTable Row Value
  | .interfaces =>
    ⟨"interface", "interfaces", ["name", "ip", "ip6", "fwmark", "port", "private_key", "public_key"], Row.scan⟩
  | .peers => ⟨"peer", "peers", ["public_key", "ip", "ip6", "interface", "expire"], Row.scan⟩
  | .tokens => ⟨"token", "tokens", ["id", "secret", "roles"], Row.scan⟩

def sqlTables : List (SQLTable Row Value) := [sqlTable .peers, sqlTable .interfaces, sqlTable .tokens]

theorem sqlTables_find (n : TableName) :
    (sqlTables.find? fun t => t.typename == (sqlTable n).typename) = some (sqlTable n) := by
  cases n <;> rfl

/-- The statement that a find on a table runs. -/
def findText (n : TableName) (query : List (String × String)) : String :=
  (newQueryBuilder (sqlTable n).table query).text

theorem findText_eq (n : TableName) (query : List (String × String)) :
    findText n query = "SELECT * FROM `" ++ (sqlTable n).table ++ "` WHERE " ++
      " AND ".intercalate (query.map fun kv => kv.1 ++ " = ?") := by
  unfold findText
  rw [newQueryBuilder_eq]
  rfl

/-- `handleFind` of the handler of a table's type. -/
def findOn (E : Engine (Database Tables) Row) (n : TableName) (query : List (String × String)) (opens commits : Bool)
    (d : Database Tables) : Response :=
  (handleFind E sqlTables Value.marshal (sqlTable n) query opens commits d).1

/-- A statement that is prepared has no key but a declared field, and the answer is a function of the
table alone. -/
structure Confined (E : Engine (Database Tables) Row) (n : TableName) (query : List (String × String)) : Prop where
  fields : ∀ stmt, E.prepare (findText n query) = .ok stmt → ∀ kv ∈ query, kv.1 ∈ (sqlTable n).allFields
  tableOnly : ∀ (opens commits : Bool) (d d' : Database Tables), d.tables.rowsOf n = d'.tables.rowsOf n →
    findOn E n query opens commits d = findOn E n query opens commits d'

/-! ## What SQLite does -/

/-- The cell of a text column; none if there is no such column. -/
def textCell : Row → String → Option (Option String)
  | .interface r, "name" => some (some r.name)
  | .interface r, "ip" => some r.ip
  | .interface r, "ip6" => some r.ip6
  | .interface r, "private_key" => some (some r.privateKey)
  | .interface r, "public_key" => some (some r.publicKey)
  | .peer r, "public_key" => some (some r.publicKey)
  | .peer r, "interface" => some (some r.interface)
  | .peer r, "ip" => some r.ip
  | .peer r, "ip6" => some r.ip6
  | .token r, "id" => some (some r.id)
  | .token r, "secret" => some (some r.secret)
  | .token r, "roles" => some r.roles
  | _, _ => none

def textColumns : TableName → List String
  | .interfaces => ["name", "ip", "ip6", "private_key", "public_key"]
  | .peers => ["public_key", "interface", "ip", "ip6"]
  | .tokens => ["id", "secret", "roles"]

/-- The left side of a comparison: a column of the table, or a scalar subquery on a text column of
any table. -/
inductive Operand where
  | column (name : String)
  | scalar (name : String) (table : TableName)
  deriving DecidableEq

namespace Operand

def text : Operand → String
  | column name => name
  | scalar name table => "(SELECT " ++ name ++ " FROM " ++ (sqlTable table).table ++ ")"

def Valid (n : TableName) : Operand → Prop
  | column name => name ∈ (sqlTable n).allFields
  | scalar name table => name ∈ textColumns table

/-- A subquery with several rows gives any of them. -/
def Settled (d : Database Tables) : Operand → Prop
  | column _ => True
  | scalar _ table => (d.tables.rowsOf table).length ≤ 1

/-- Whether the comparison with a bound text holds on a row; how a column compares is `sat`, a
subquery without rows is NULL, and NULL equals nothing. -/
def holds (sat : Row → String → String → Bool) (d : Database Tables) (row : Row) : Operand × String → Bool
  | (column name, arg) => sat row name arg
  | (scalar name table, arg) => ((d.tables.rowsOf table).head?.bind fun r => (textCell r name).join) == some arg

end Operand

/-- SQLite on the statements of the query builder, as far as it is used here. An empty condition is
refused. A conjunction of comparisons gives the rows that meet them all, in an order that the plan
and the table determine. -/
structure Conforms (E : Engine (Database Tables) Row) : Prop where
  empty : ∀ n, ∃ e, E.prepare (findText n []) = .error e
  select : ∃ (visits : TableName → List String → List Row → List Row) (sat : Row → String → String → Bool),
    (∀ n keys rows, (visits n keys rows).Perm rows) ∧
    ∀ (n : TableName) (ops : List (Operand × String)), ops ≠ [] → (∀ o ∈ ops, o.1.Valid n) →
      ∃ stmt, E.prepare (findText n (ops.map fun o => (o.1.text, o.2))) = .ok stmt ∧
        ∀ d : Database Tables, (∀ o ∈ ops, o.1.Settled d) →
          E.exec stmt (ops.map Prod.snd) d =
            (((visits n (ops.map fun o => o.1.text) (d.tables.rowsOf n)).filter fun row =>
              ops.all (Operand.holds sat d row), none), d)

/-! ## The law -/

variable {E : Engine (Database Tables) Row} {n : TableName} {query : List (String × String)}

theorem tableOnly_of_find {d d' : Database Tables}
    (h : ((sqlTable n).find E query d).1 = ((sqlTable n).find E query d').1)
    (opens commits : Bool) : findOn E n query opens commits d = findOn E n query opens commits d' :=
  handleFind_congr (sqlTables_find n) opens commits h

/-- A statement that is refused is refused whatever the tables hold. -/
theorem confined_of_refused {e : Error} (h : E.prepare (findText n query) = .error e) : Confined E n query where
  fields stmt hs := by rw [h] at hs; cases hs
  tableOnly opens commits d d' _ :=
    tableOnly_of_find (by rw [SQLTable.find_of_refused h, SQLTable.find_of_refused h]) opens commits

/-- A query map as comparisons of columns. -/
def columnOps (query : List (String × String)) : List (Operand × String) := query.map fun kv => (.column kv.1, kv.2)

theorem forall_columnOps {P : Operand × String → Prop} :
    (∀ o ∈ columnOps query, P o) ↔ ∀ kv ∈ query, P (.column kv.1, kv.2) := List.forall_mem_map

theorem columnOps_text (query : List (String × String)) : (columnOps query).map (fun o => (o.1.text, o.2)) = query := by
  unfold columnOps
  rw [List.map_map]
  exact List.map_id query

/-- Keys that are declared fields compare columns of the table, row by row. -/
theorem confined_of_fields (hE : Conforms E) (hkeys : ∀ kv ∈ query, kv.1 ∈ (sqlTable n).allFields) :
    Confined E n query where
  fields _ _ := hkeys
  tableOnly opens commits d d' hrows := by
    refine tableOnly_of_find ?_ opens commits
    by_cases hnil : query = []
    · obtain ⟨e, he⟩ := hE.empty n
      subst hnil
      rw [SQLTable.find_of_refused he, SQLTable.find_of_refused he]
    · obtain ⟨visits, sat, -, hselect⟩ := hE.select
      obtain ⟨stmt, hprep, hexec⟩ :=
        hselect n (columnOps query) (by simpa [columnOps] using hnil) (forall_columnOps.2 hkeys)
      have hargs : (columnOps query).map Prod.snd = query.map Prod.snd := List.map_map
      -- no comparison looks beyond the row
      have hholds : ∀ row, (columnOps query).all (Operand.holds sat d row) =
          (columnOps query).all (Operand.holds sat d' row) := by
        intro row
        unfold columnOps
        rw [List.all_map, List.all_map]
        rfl
      rw [columnOps_text] at hprep
      rw [hargs] at hexec
      have hfound := hexec d (forall_columnOps.2 fun _ _ => trivial)
      have hfound' := hexec d' (forall_columnOps.2 fun _ _ => trivial)
      rw [SQLTable.find_of_prepared hprep hfound, SQLTable.find_of_prepared hprep hfound']
      simp only [hrows, hholds]

/-- Find confines a reader to its table just if every key is a declared field, or the statement with
the keys in it is refused. -/
theorem find_confined_iff (hE : Conforms E) (n : TableName) (url : List (String × List String))
    (horder : query.Perm (queryArgs url)) :
    Confined E n query ↔
      (∀ kv ∈ queryArgs url, kv.1 ∈ (sqlTable n).allFields) ∨ ∃ e, E.prepare (findText n query) = .error e := by
  constructor
  · intro h
    cases hp : E.prepare (findText n query) with
    | error e => exact .inr ⟨e, rfl⟩
    | ok stmt => exact .inl fun kv hkv => h.fields stmt hp kv (horder.mem_iff.2 hkv)
  · rintro (hkeys | ⟨e, he⟩)
    · exact confined_of_fields hE fun kv hkv => hkeys kv (horder.mem_iff.1 hkv)
    · exact confined_of_refused he

/-! ## What a key can read -/

/-- A subquery on another table, as a key. -/
def secretKey : String := "(SELECT secret FROM tokens)"

theorem secretKey_eq : (Operand.scalar "secret" .tokens).text = secretKey := by decide

/-- An answer with rows is not the answer without. -/
theorem respond_visitRows_ne {rows : List Row} (h : rows ≠ []) :
    respond Value.marshal (visitRows Row.scan none rows) ≠ respond Value.marshal (visitRows Row.scan none []) := by
  obtain ⟨r, rs, rfl⟩ := List.exists_cons_of_ne_nil h
  intro heq
  have hlen := congrArg (fun resp => resp.body.length) heq
  cases hr : r.scan <;> simp [visitRows, hr, respond, writeObjects] at hlen

/-- On a database with one token, a find on the peers gives all of them or none, as the token's secret
is the value of the argument. -/
theorem findOn_secretKey (hE : Conforms E) : ∃ visits : List Row → List Row, (∀ rows, (visits rows).Perm rows) ∧
    ∀ (guess : String) (d : Database Tables) (k : TokenRow), d.tables.rowsOf .tokens = [.token k] →
      findOn E .peers [(secretKey, guess)] true true d =
        respond Value.marshal
          (visitRows Row.scan none (if k.secret = guess then visits (d.tables.rowsOf .peers) else [])) := by
  obtain ⟨visits, sat, hperm, hselect⟩ := hE.select
  refine ⟨visits .peers [secretKey], hperm _ _, fun guess d k hk => ?_⟩
  have hvalid : Operand.Valid .peers (.scalar "secret" .tokens) := by unfold Operand.Valid; decide
  obtain ⟨stmt, hprep, hexec⟩ := hselect .peers [(.scalar "secret" .tokens, guess)] (List.cons_ne_nil _ _)
    (by simpa using hvalid)
  have hsettled : Operand.Settled d (.scalar "secret" .tokens) := by simp [Operand.Settled, hk]
  have hholds : ∀ row, Operand.holds sat d row (.scalar "secret" .tokens, guess) = decide (k.secret = guess) := by
    intro row
    simp only [Operand.holds, hk, List.head?_cons, Option.bind_some, textCell, Option.join_some]
    rfl
  have hrows := hexec d (by simpa using hsettled)
  have hall : ∀ rows : List Row,
    rows.filter (fun row => [((.scalar "secret" .tokens : Operand), guess)].all (Operand.holds sat d row)) =
      if k.secret = guess then rows else [] := by
    intro rows
    simp only [List.all_cons, List.all_nil, Bool.and_true, hholds]
    split <;> simp [*]
  rw [hall] at hrows
  simp only [List.map_cons, List.map_nil, secretKey_eq] at hprep hrows
  have hfound : (sqlTable .peers).find E [(secretKey, guess)] d = _ := SQLTable.find_of_prepared hprep hrows
  unfold findOn
  rw [handleFind_faultless (sqlTables_find .peers), hfound]
  rfl

/-- So two databases with the same peers, but not the same token, are told apart. -/
theorem findOn_secretKey_ne (hE : Conforms E) {d d' : Database Tables} {k k' : TokenRow}
    (hk : d.tables.rowsOf .tokens = [.token k]) (hk' : d'.tables.rowsOf .tokens = [.token k'])
    (hne : k'.secret ≠ k.secret) (hpeers : d.tables.rowsOf .peers ≠ []) :
    findOn E .peers [(secretKey, k.secret)] true true d ≠ findOn E .peers [(secretKey, k.secret)] true true d' := by
  obtain ⟨visits, hperm, hfind⟩ := findOn_secretKey hE
  rw [hfind k.secret d k hk, hfind k.secret d' k' hk', if_pos rfl, if_neg hne]
  exact respond_visitRows_ne fun h => hpeers (List.nil_perm.1 (h ▸ hperm _))

/-! ## An engine -/

namespace Operand

/-- The words of an operand. -/
def tokens : Operand → List String
  | column name => [name]
  | scalar name table => ["(SELECT", name, "FROM", (sqlTable table).table ++ ")"]

/-- A comparison with a parameter. -/
def clause (op : Operand) : List String := op.tokens ++ ["=", "?"]

end Operand

def tableNames : List TableName := [.interfaces, .peers, .tokens]

def parseOperand : List String → Option (Operand × List String)
  | "(SELECT" :: name :: "FROM" :: table :: rest =>
    (tableNames.find? fun n => (sqlTable n).table ++ ")" == table).map fun n => (.scalar name n, rest)
  | name :: rest => some (.column name, rest)
  | [] => none

/-- Comparisons with a parameter, joined by `AND`; there are no more of them than words. -/
def parseOps : Nat → List String → Option (List Operand)
  | 0, _ => none
  | fuel + 1, toks =>
    (parseOperand toks).bind fun
      | (op, ["=", "?"]) => some [op]
      | (op, "=" :: "?" :: "AND" :: rest) => (parseOps fuel rest).map (op :: ·)
      | _ => none

def parseSelect : List String → Option (TableName × List Operand)
  | "SELECT" :: "*" :: "FROM" :: table :: "WHERE" :: rest =>
    (tableNames.find? fun n => "`" ++ (sqlTable n).table ++ "`" == table).bind fun n =>
      (parseOps rest.length rest).map fun ops => (n, ops)
  | _ => none

instance (n : TableName) : (op : Operand) → Decidable (op.Valid n)
  | .column name => inferInstanceAs (Decidable (name ∈ (sqlTable n).allFields))
  | .scalar name table => inferInstanceAs (Decidable (name ∈ textColumns table))

/-- An engine that knows just the statements of `Conforms`; a column compares if its text is the argument. -/
def miniEngine : Engine (Database Tables) Row where
  Prepared := TableName × List Operand
  prepare text :=
    match parseSelect (text.splitOn " ") with
    | some (n, ops) => if ∀ op ∈ ops, op.Valid n then .ok (n, ops) else .error .syntaxError
    | none => .error .syntaxError
  exec stmt args d :=
    (((d.tables.rowsOf stmt.1).filter fun row =>
      (stmt.2.zip args).all (Operand.holds (fun row name arg => textCell row name == some (some arg)) d row), none), d)

/-- The words of a statement with one comparison or more. -/
def selectTokens (n : TableName) (op : Operand) (ops : List Operand) : List String :=
  ["SELECT", "*", "FROM", "`" ++ (sqlTable n).table ++ "`", "WHERE"] ++ op.clause ++ ops.flatMap fun o =>
    "AND" :: o.clause

theorem toList_clause (op : Operand) :
    op.clause.flatMap (fun w => ' ' :: w.toList) = ' ' :: (op.text ++ " = ?").toList := by
  cases op <;> simp [Operand.clause, Operand.tokens, Operand.text]

/-- The text of the query builder is the words, one blank apart. -/
theorem findText_tokens (n : TableName) (op : Operand × String) (ops : List (Operand × String)) :
    findText n ((op :: ops).map fun o => (o.1.text, o.2)) =
      " ".intercalate (selectTokens n op.1 (ops.map Prod.fst)) := by
  rw [findText_eq, ← String.toList_inj]
  simp [selectTokens, String.toList_intercalate, intercalate_cons, List.flatMap_map, List.flatMap_assoc, toList_clause]

theorem allFields_noSpace (n : TableName) : ∀ name ∈ (sqlTable n).allFields, ' ' ∉ name.toList ∧ name ≠ "(SELECT" := by
  cases n <;> decide

theorem textColumns_noSpace (n : TableName) : ∀ name ∈ textColumns n, ' ' ∉ name.toList := by
  cases n <;> decide

theorem tokens_noSpace {n : TableName} {op : Operand} (h : op.Valid n) : ∀ w ∈ op.clause, ' ' ∉ w.toList := by
  cases op with
  | column name =>
    have hname := (allFields_noSpace n name h).1
    simp [Operand.clause, Operand.tokens, hname]
  | scalar name table =>
    have hname := textColumns_noSpace table name h
    cases table <;> simp [Operand.clause, Operand.tokens, hname, sqlTable]

theorem selectTokens_noSpace {n : TableName} {op : Operand} {ops : List Operand} (hop : op.Valid n)
    (hops : ∀ o ∈ ops, o.Valid n) : ∀ w ∈ selectTokens n op ops, ' ' ∉ w.toList := by
  have hhead : ∀ w ∈ ["SELECT", "*", "FROM", "`" ++ (sqlTable n).table ++ "`", "WHERE"], ' ' ∉ w.toList := by
    cases n <;> decide
  intro w hw
  rcases List.mem_append.1 hw with hw | hw
  · rcases List.mem_append.1 hw with hw | hw
    · exact hhead w hw
    · exact tokens_noSpace hop w hw
  · obtain ⟨o, ho, hw⟩ := List.mem_flatMap.1 hw
    rcases List.mem_cons.1 hw with rfl | hw
    · decide
    · exact tokens_noSpace (hops o ho) w hw

theorem parseOperand_tokens {n : TableName} {op : Operand} (h : op.Valid n) (rest : List String) :
    parseOperand (op.tokens ++ "=" :: rest) = some (op, "=" :: rest) := by
  cases op with
  | column name =>
    have hname := (allFields_noSpace n name h).2
    show parseOperand (name :: "=" :: rest) = _
    unfold parseOperand
    split
    · rename_i heq
      exact absurd (List.cons.inj heq).1 hname
    · rename_i heq
      cases heq
      rfl
    · rename_i heq; cases heq
  | scalar name table => cases table <;> rfl

theorem parseOps_clauses {n : TableName} :
    ∀ (ops : List Operand) {op : Operand} {fuel : Nat}, op.Valid n → (∀ o ∈ ops, o.Valid n) →
    ops.length < fuel → parseOps fuel (op.clause ++ ops.flatMap fun o => "AND" :: o.clause) = some (op :: ops)
  | [], op, 0, _, _, hlen => absurd hlen (Nat.not_lt_zero _)
  | [], op, fuel + 1, hop, _, _ => by
    simp only [List.flatMap_nil, List.append_nil, Operand.clause, parseOps]
    rw [parseOperand_tokens hop]
    rfl
  | o :: ops, op, 0, _, _, hlen => absurd hlen (Nat.not_lt_zero _)
  | o :: ops, op, fuel + 1, hop, hops, hlen => by
    have ih := parseOps_clauses ops (hops o List.mem_cons_self) (fun x hx => hops x (List.mem_cons_of_mem _ hx))
      (Nat.lt_of_succ_lt_succ hlen)
    have htoks : op.clause ++ (o :: ops).flatMap (fun o => "AND" :: o.clause) =
        op.tokens ++ "=" :: "?" :: "AND" :: (o.clause ++ ops.flatMap fun o => "AND" :: o.clause) := by
      simp [Operand.clause]
    rw [htoks, parseOps, parseOperand_tokens hop]
    show (parseOps fuel (o.clause ++ ops.flatMap fun o => "AND" :: o.clause)).map (op :: ·) = _
    rw [ih]
    rfl

theorem length_le_flatMap_clause (ops : List Operand) :
    ops.length ≤ (ops.flatMap fun o => "AND" :: o.clause).length := by
  induction ops with
  | nil => exact Nat.le_refl 0
  | cons o ops ih => rw [List.flatMap_cons, List.length_append, List.length_cons, List.length_cons]; omega

theorem parseSelect_tokens {n : TableName} {op : Operand} {ops : List Operand} (hop : op.Valid n)
    (hops : ∀ o ∈ ops, o.Valid n) : parseSelect (selectTokens n op ops) = some (n, op :: ops) := by
  have hlen : ops.length < (op.clause ++ ops.flatMap fun o => "AND" :: o.clause).length := by
    have hle := length_le_flatMap_clause ops
    rw [List.length_append, Operand.clause, List.length_append, List.length_cons]
    omega
  have hparse := parseOps_clauses ops hop hops hlen
  have htable : (tableNames.find? fun m => "`" ++ (sqlTable m).table ++ "`" == "`" ++ (sqlTable n).table ++ "`") =
      some n := by
    cases n <;> decide
  show ((tableNames.find? fun m => "`" ++ (sqlTable m).table ++ "`" == "`" ++ (sqlTable n).table ++ "`").bind fun n =>
    (parseOps (op.clause ++ ops.flatMap fun o => "AND" :: o.clause).length
      (op.clause ++ ops.flatMap fun o => "AND" :: o.clause)).map fun ops => (n, ops)) = _
  rw [htable, hparse]
  rfl

theorem miniEngine_prepare {n : TableName} {op : Operand × String} {ops : List (Operand × String)} (hop : op.1.Valid n)
    (hops : ∀ o ∈ ops, o.1.Valid n) :
    miniEngine.prepare (findText n ((op :: ops).map fun o => (o.1.text, o.2))) = .ok (n, (op :: ops).map Prod.fst) := by
  have hvalid : ∀ o ∈ ops.map Prod.fst, o.Valid n := List.forall_mem_map.2 hops
  have hsplit : (" ".intercalate (selectTokens n op.1 (ops.map Prod.fst))).splitOn " " =
      selectTokens n op.1 (ops.map Prod.fst) :=
    splitOn_intercalate (c := ' ') (selectTokens_noSpace hop hvalid) (by simp [selectTokens])
  have hall : ∀ o ∈ op.1 :: ops.map Prod.fst, o.Valid n := List.forall_mem_cons.2 ⟨hop, hvalid⟩
  simp only [miniEngine, findText_tokens, hsplit, parseSelect_tokens hop hvalid, if_pos hall]
  rfl

theorem miniEngine_conforms : Conforms miniEngine where
  empty n := by
    have htext : findText n [] = " ".intercalate ["SELECT", "*", "FROM",
      "`" ++ (sqlTable n).table ++ "`", "WHERE", ""] := by
      rw [findText_eq, ← String.toList_inj]
      simp
    have hsplit : (findText n []).splitOn " " =
        ["SELECT", "*", "FROM", "`" ++ (sqlTable n).table ++ "`", "WHERE", ""] := by
      rw [htext]
      exact splitOn_intercalate (c := ' ') (by cases n <;> decide) (List.cons_ne_nil _ _)
    refine ⟨.syntaxError, ?_⟩
    simp only [miniEngine, hsplit]
    cases n <;> rfl
  select := by
    refine ⟨fun _ _ rows => rows, fun row name arg => textCell row name == some (some arg), fun _ _ _ => .refl _, ?_⟩
    intro n ops hne hvalid
    obtain ⟨op, ops, rfl⟩ := List.exists_cons_of_ne_nil hne
    obtain ⟨hop, hops⟩ := List.forall_mem_cons.1 hvalid
    refine ⟨_, miniEngine_prepare hop hops, fun d _ => ?_⟩
    have hzip : ((op :: ops).map Prod.fst).zip ((op :: ops).map Prod.snd) = op :: ops := by
      have h := List.zip_unzip (op :: ops)
      rwa [List.unzip_eq_map] at h
    simp only [miniEngine, hzip]

/-! ## Two secrets -/

/-- A primary with a peer and a token. -/
def withSecret (secret : String) : Database Tables :=
  (Datastore.requests (crud 8) encoding
    (onePeer ++ [⟨.create (.token ⟨"t", secret, none⟩), Time.zero, true⟩]) fresh).2.db

/-- A peer is found by its key, and a key that names another table is not confined. -/
theorem find_confined_publicKey : Confined miniEngine .peers [("public_key", "pk")] ∧
    ¬ Confined miniEngine .peers [(secretKey, "a")] := by
  constructor
  · exact (find_confined_iff miniEngine_conforms .peers [("public_key", ["pk"])] (.refl _)).2 (.inl (by decide))
  · intro h
    rcases (find_confined_iff miniEngine_conforms .peers [(secretKey, ["a"])] (.refl _)).1 h with hkeys | ⟨e, he⟩
    · exact absurd hkeys (by decide)
    · have hprep : miniEngine.prepare
        (findText .peers ([(Operand.scalar "secret" .tokens, "a")].map fun o => (o.1.text, o.2))) =
          .ok _ := miniEngine_prepare (by decide) (by simp)
      simp only [List.map_cons, List.map_nil, secretKey_eq] at hprep
      cases hprep.symm.trans he

/-- A reader of the peers gets to know a token's secret. -/
theorem find_reads_tokens :
    ¬ ∀ E : Engine (Database Tables) Row, Conforms E → ∀ (n : TableName) (url : List (String × List String))
    (query : List (String × String)), query.Perm (queryArgs url) → Confined E n query := by
  intro h
  have hconf := h miniEngine miniEngine_conforms .peers [(secretKey, ["a"])] [(secretKey, "a")] (.refl _)
  have hpeers : (withSecret "a").tables.rowsOf .peers = (withSecret "b").tables.rowsOf .peers := by decide +kernel
  have hne : (withSecret "a").tables.rowsOf .peers ≠ [] := by decide +kernel
  have ha : (withSecret "a").tables.rowsOf .tokens = [.token ⟨"t", "a", none⟩] := by decide +kernel
  have hb : (withSecret "b").tables.rowsOf .tokens = [.token ⟨"t", "b", none⟩] := by decide +kernel
  exact findOn_secretKey_ne miniEngine_conforms ha hb (by decide) hne (hconf.tableOnly true true _ _ hpeers)

end Wig.Store
