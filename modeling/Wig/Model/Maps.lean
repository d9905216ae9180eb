/-
What the CRUD layer is for: a finite map from keys to objects for each registered type. The texts of the
statements, run one after the other on a migrated database, do to its tables what these maps say, and a
find by key reads back the object last written.
-/
import Wig.Crud.Query
import Wig.Model.Statements

namespace Wig.Model

open Wig.Lib Wig.Lib.Sql Wig.Crud

/-! ## The maps -/

namespace Value

def table : Value → Option TableName
  | .interface _ => some .interfaces
  | .peer _ => some .peers
  | .token _ => some .tokens
  | .other => none

def key : Value → String
  | .interface i => i.name
  | .peer p => p.publicKey
  | .token t => t.id
  | .other => ""

/-- A peer of an interface. -/
def RefersTo : Value → Value → Prop
  | .peer p, .interface i => p.interface = i.name
  | _, _ => False

instance (v v' : Value) : Decidable (v.RefersTo v') := by
  cases v <;> cases v' <;> unfold RefersTo <;> infer_instance

end Value

/-- The object last written to each key of each table. -/
abbrev Maps : Type := TableName → String → Option Value

namespace Maps

def empty : Maps := fun _ _ => none

def set (m : Maps) (n : TableName) (v : Value) : Maps := fun n' k => if n' = n ∧ k = v.key then some v else m n' k

/-- A peer whose interface is not there. -/
def Orphan (m : Maps) : Value → Prop
  | .peer p => m .interfaces p.interface = none
  | _ => False

instance (m : Maps) (v : Value) : Decidable (m.Orphan v) := by
  cases v <;> unfold Orphan <;> infer_instance

def create (v : Value) : Proc Maps Error Unit := fun m =>
  match v.table with
  | none => (.err .unknownType, m)
  | some n =>
    if m n v.key ≠ none then (.err .uniqueConstraint, m)
    else if m.Orphan v then (.err .foreignKey, m)
    else (.ok (), m.set n v)

def update (v : Value) : Proc Maps Error Unit := fun m =>
  match v.table with
  | none => (.err .unknownType, m)
  | some n =>
    if m n v.key = none then (.ok (), m)
    else if m.Orphan v then (.err .foreignKey, m)
    else (.ok (), m.set n v)

/-- The peers of an interface go with it. -/
def delete (v : Value) : Proc Maps Error Unit := fun m =>
  match v.table with
  | none => (.err .unknownType, m)
  | some n => (.ok (), fun n' k => if n' = n ∧ k = v.key then none else (m n' k).filter fun v' => ¬ v'.RefersTo v)

end Maps

/-! ## The tables hold the maps -/

def Tables.tableOf (t : Tables) (n : TableName) : Table Row.key := ⟨t.rowsOf n, t.nodup_keys n⟩

/-- Every key has the row of its object. -/
def Tables.Holds (t : Tables) (m : Maps) : Prop := ∀ n k, (m n k).map Value.row = ((t.tableOf n).find? k).map .ok

theorem Value.table_of_row {v : Value} {r : Row} (h : v.row = .ok r) : v.table = some r.table ∧ v.key = r.key := by
  cases v <;> cases h <;> exact ⟨rfl, rfl⟩

theorem Value.table_of_error {v : Value} {e : Error} (h : v.row = .error e) : v.table = none ∧ e = .unknownType := by
  cases v <;> cases h
  exact ⟨rfl, rfl⟩

theorem Value.refersTo_iff {v v' : Value} {r r' : Row} (h : v.row = .ok r) (h' : v'.row = .ok r') :
    v.RefersTo v' ↔ r.RefersTo r' := by
  cases v <;> cases h <;> cases v' <;> cases h' <;> rfl

namespace Tables.Holds

variable {t t' : Tables} {m : Maps} {v : Value} {r : Row}

theorem empty : Tables.empty.Holds Maps.empty := by
  intro n k
  cases n <;> rfl

theorem find? (h : t.Holds m) {n : TableName} {k : String} {r : Row} (hr : (t.tableOf n).find? k = some r) :
    ∃ v, m n k = some v ∧ v.row = .ok r := by
  have hk := h n k
  rw [hr, Option.map_some, Option.map_eq_some_iff] at hk
  exact hk

theorem eq_none (h : t.Holds m) {n : TableName} {k : String} : m n k = none ↔ k ∉ (t.rowsOf n).map Row.key := by
  have hk := h n k
  have hnone : (t.tableOf n).find? k = none ↔ k ∉ (t.rowsOf n).map Row.key := Table.find?_eq_none
  rw [← hnone]
  cases hm : m n k <;> cases hf : (t.tableOf n).find? k <;> simp_all

theorem orphan_iff (h : t.Holds m) (hr : v.row = .ok r) : m.Orphan v ↔ r.Orphan t := by
  cases v with
  | peer p =>
    cases hr
    show m .interfaces p.interface = none ↔ p.interface ∉ t.interfaces.keys
    rw [h.eq_none, keys_interfaces]
  | interface i => cases hr; rfl
  | token t => cases hr; rfl
  | other => cases hr

/-- One key of one table gets another row. -/
theorem set (h : t.Holds m) (hr : v.row = .ok r)
    (hfind : ∀ n k, (t'.tableOf n).find? k = if n = r.table ∧ k = r.key then some r else (t.tableOf n).find? k) :
    t'.Holds (m.set r.table v) := by
  intro n k
  rw [hfind, Maps.set, (Value.table_of_row hr).2]
  split
  · rw [Option.map_some, Option.map_some, hr]
  · exact h n k

end Tables.Holds

namespace Tables

variable {t t' : Tables} {r : Row}

theorem find?_inserted (habsent : r.key ∉ (t.rowsOf r.table).map Row.key)
    (hrows : ∀ n, t'.rowsOf n = if n = r.table then t.rowsOf r.table ++ [r] else t.rowsOf n)
    (n : TableName) (k : String) :
    (t'.tableOf n).find? k = if n = r.table ∧ k = r.key then some r else (t.tableOf n).find? k := by
  by_cases hn : n = r.table
  · subst hn
    obtain ⟨u, hu, hur⟩ := Table.insert_of_not_mem (t := t.tableOf r.table) habsent
    have heq : t'.tableOf r.table = u := Table.ext (by rw [hur]; exact (hrows r.table).trans (if_pos rfl))
    rw [heq, Table.find?_insert hu]
    simp only [true_and, eq_comm]
  · have heq : t'.tableOf n = t.tableOf n := Table.ext ((hrows n).trans (if_neg hn))
    rw [heq, if_neg fun h => hn h.1]

theorem find?_updated (hrows : ∀ n, t'.rowsOf n = if n = r.table then replaced r (t.rowsOf r.table) else t.rowsOf n)
    (n : TableName) (k : String) :
    (t'.tableOf n).find? k = if n = r.table ∧ k = r.key then ((t.tableOf n).find? k).map fun _ =>
      r else (t.tableOf n).find? k := by
  by_cases hn : n = r.table
  · subst hn
    have heq : t'.tableOf r.table = (t.tableOf r.table).replace r := Table.ext ((hrows r.table).trans (if_pos rfl))
    rw [heq, Table.find?_replace]
    simp only [true_and, eq_comm]
  · have heq : t'.tableOf n = t.tableOf n := Table.ext ((hrows n).trans (if_neg hn))
    rw [heq, if_neg fun h => hn h.1]

/-- The row is replaced, if its key is there; if not, nothing changes. -/
theorem find?_updated_of_mem
    (hrows : ∀ n, t'.rowsOf n = if n = r.table then replaced r (t.rowsOf r.table) else t.rowsOf n)
    (hk : r.key ∈ (t.rowsOf r.table).map Row.key) (n : TableName) (k : String) :
    (t'.tableOf n).find? k = if n = r.table ∧ k = r.key then some r else (t.tableOf n).find? k := by
  obtain ⟨old, hold⟩ := Table.mem_keys_iff_find?.1 (show r.key ∈ (t.tableOf r.table).keys from hk)
  rw [find?_updated hrows]
  refine if_ctx_congr Iff.rfl (fun heq => ?_) fun _ => rfl
  rw [heq.1, heq.2, hold, Option.map_some]

theorem find?_updated_of_not_mem
    (hrows : ∀ n, t'.rowsOf n = if n = r.table then replaced r (t.rowsOf r.table) else t.rowsOf n)
    (hk : r.key ∉ (t.rowsOf r.table).map Row.key) (n : TableName) (k : String) :
    (t'.tableOf n).find? k = (t.tableOf n).find? k := by
  have hnone : (t.tableOf r.table).find? r.key = none := Table.find?_eq_none.2 hk
  rw [find?_updated hrows]
  split
  · rename_i heq
    rw [heq.1, heq.2, hnone]
    rfl
  · rfl

theorem find?_deleted (t : Tables) (r : Row) (n : TableName) (k : String) : ((t.delete r).tableOf n).find? k =
    ((t.tableOf n).find? k).filter fun x => decide (¬ (n = r.table ∧ x.key = r.key) ∧ ¬ x.RefersTo r) := by
  have heq : (t.delete r).tableOf n = (t.tableOf n).filter fun x =>
      decide (¬ (n = r.table ∧ x.key = r.key) ∧ ¬ x.RefersTo r) :=
    Table.ext (t.rowsOf_delete r n)
  rw [heq, Table.find?_filter]

end Tables

/-! ## One call -/

section

variable (stack : Nat) (v : Value) {t : Tables} {m : Maps}

/-- A call comes to the same on the tables as on the maps. -/
def Agree (x : Outcome Error Unit × Tables) (y : Outcome Error Unit × Maps) : Prop := x.1 = y.1 ∧ x.2.Holds y.2

theorem create_agrees (h : t.Holds m) : Agree ((crud stack).create v t) (Maps.create v m) := by
  rw [crud_create]
  unfold Maps.create
  cases hr : v.row with
  | error e =>
    obtain ⟨htable, rfl⟩ := Value.table_of_error hr
    rw [htable, namedExec, hr]
    exact ⟨rfl, h⟩
  | ok r =>
    obtain ⟨htable, hkey⟩ := Value.table_of_row hr
    simp only [htable, hkey, ne_eq, h.eq_none, h.orphan_iff hr, not_not]
    have hcases : t.Inserted r (t.exec (.insert r)) := t.insert_inserted r
    cases hins : t.exec (.insert r) with
    | error e =>
      rw [namedExec_of_error hr hins]
      rw [hins] at hcases
      cases hcases with
      | duplicate present => rw [if_pos present]; exact ⟨rfl, h⟩
      | orphan absent orphan => rw [if_neg absent, if_pos orphan]; exact ⟨rfl, h⟩
    | ok t' =>
      rw [namedExec_of_ok hr hins]
      rw [hins] at hcases
      cases hcases with
      | inserted _ absent parent rows =>
        rw [if_neg absent, if_neg parent]
        exact ⟨rfl, h.set hr (Tables.find?_inserted absent rows)⟩

theorem update_agrees (h : t.Holds m) : Agree ((crud stack).update v t) (Maps.update v m) := by
  rw [crud_update]
  unfold Maps.update
  cases hr : v.row with
  | error e =>
    obtain ⟨htable, rfl⟩ := Value.table_of_error hr
    rw [htable, namedExec, hr]
    exact ⟨rfl, h⟩
  | ok r =>
    obtain ⟨htable, hkey⟩ := Value.table_of_row hr
    simp only [htable, hkey, h.eq_none, h.orphan_iff hr]
    have hcases : t.Updated r (t.exec (.update r)) := t.update_updated r
    cases hupd : t.exec (.update r) with
    | error e =>
      rw [namedExec_of_error hr hupd]
      rw [hupd] at hcases
      cases hcases with
      | orphan present orphan => rw [if_neg (not_not.2 present), if_pos orphan]; exact ⟨rfl, h⟩
    | ok t' =>
      rw [namedExec_of_ok hr hupd]
      rw [hupd] at hcases
      cases hcases with
      | updated _ parent rows =>
        by_cases hk : r.key ∈ (t.rowsOf r.table).map Row.key
        · rw [if_neg (not_not.2 hk), if_neg (parent hk)]
          exact ⟨rfl, h.set hr (Tables.find?_updated_of_mem rows hk)⟩
        · rw [if_pos hk]
          refine ⟨rfl, fun n k => ?_⟩
          rw [h n k, Tables.find?_updated_of_not_mem rows hk]

theorem delete_agrees (h : t.Holds m) : Agree ((crud stack).delete v t) (Maps.delete v m) := by
  rw [crud_delete]
  unfold Maps.delete
  cases hr : v.row with
  | error e =>
    obtain ⟨htable, rfl⟩ := Value.table_of_error hr
    rw [htable, namedExec, hr]
    exact ⟨rfl, h⟩
  | ok r =>
    obtain ⟨htable, hkey⟩ := Value.table_of_row hr
    have hdel : t.exec (.delete r) = .ok (t.delete r) := rfl
    rw [namedExec_of_ok hr hdel]
    simp only [htable, hkey]
    refine ⟨rfl, fun n k => ?_⟩
    rw [Tables.find?_deleted]
    cases hf : (t.tableOf n).find? k with
    | none =>
      have hm : m n k = none := h.eq_none.2 (Table.find?_eq_none.1 hf)
      simp [hm]
    | some x =>
      obtain ⟨v', hm, hx⟩ := h.find? hf
      obtain ⟨-, rfl⟩ := Table.find?_eq_some.1 hf
      simp only [hm, Option.filter_some, Value.refersTo_iff hx hr]
      by_cases hdel : n = r.table ∧ x.key = r.key
      · simp [hdel]
      · by_cases href : x.RefersTo r
        · simp [hdel, href]
        · simp [hdel, href, hx]

end

/-! ## Runs -/

/-- A call of the dispatcher that writes. -/
inductive Mutation where
  | create (obj : Value)
  | update (obj : Value)
  | delete (obj : Value)

namespace Mutation

def onTables (stack : Nat) : Mutation → Proc Tables Error Unit
  | .create obj => (crud stack).create obj
  | .update obj => (crud stack).update obj
  | .delete obj => (crud stack).delete obj

def onStore (stack : Nat) : Mutation → Proc (Store SqlValue) Error Unit
  | .create obj => (sqlCrud stack).create obj
  | .update obj => (sqlCrud stack).update obj
  | .delete obj => (sqlCrud stack).delete obj

def onMaps : Mutation → Proc Maps Error Unit
  | .create obj => Maps.create obj
  | .update obj => Maps.update obj
  | .delete obj => Maps.delete obj

theorem onTables_agrees (stack : Nat) (c : Mutation) {t : Tables} {m : Maps} (h : t.Holds m) :
    Agree (c.onTables stack t) (c.onMaps m) := by
  cases c with
  | create v => exact create_agrees stack v h
  | update v => exact update_agrees stack v h
  | delete v => exact delete_agrees stack v h

theorem onStore_store (stack : Nat) (rest : Store SqlValue) (c : Mutation) (t : Tables) :
    c.onStore stack (t.store rest) = Prod.map id (Tables.store rest) (c.onTables stack t) := by
  cases c with
  | create v => exact sqlCrud_create stack v t
  | update v => exact sqlCrud_update stack v t
  | delete v => exact sqlCrud_delete stack v t

/-- The relation between the store and the maps that every call keeps. -/
def Kept (rest db : Store SqlValue) (m : Maps) : Prop := ∃ t : Tables, db = t.store rest ∧ t.Holds m

theorem onStore_simulates (stack : Nat) (rest : Store SqlValue) (c : Mutation) (db : Store SqlValue)
    (m : Maps) (h : Kept rest db m) :
    (c.onStore stack db).1 = (c.onMaps m).1 ∧ Kept rest (c.onStore stack db).2 (c.onMaps m).2 := by
  obtain ⟨t, rfl, hm⟩ := h
  obtain ⟨hout, hnext⟩ := c.onTables_agrees stack hm
  rw [onStore_store]
  exact ⟨hout, _, rfl, hnext⟩

end Mutation

/-! ## What a database shows of the maps -/

/-- The cells of an object. -/
def Value.record (v : Value) : Record SqlValue :=
  match v.row with
  | .ok r => r.record
  | .error _ => fun _ => none

/-- The tables of a database are the maps: of the rows with a key there is the one with the fields of the object
that was written, or none. All else is as it was. -/
structure Represents (before db : Store SqlValue) (m : Maps) : Prop where
  rows : ∀ n k, (db (tableSchema n).name).filter (fun x => Sql.eq (x (primaryKey n)) (some (.text k))) =
    (m n k).toList.map Value.record
  keyed : ∀ n, ∀ x ∈ db (tableSchema n).name, ∃ k, x (primaryKey n) = some (.text k)
  others : ∀ name, (∀ n, name ≠ (tableSchema n).name) → db name = before name

theorem record_of_row {v : Value} {r : Row} (h : v.row = .ok r) : v.record = r.record := by
  rw [Value.record, h]

/-- The rows that a comparison with a key selects. -/
theorem Tables.select_key (t : Tables) (rest : Store SqlValue) (n : TableName) (k : String) :
    (t.store rest (tableSchema n).name).filter (fun x => Sql.eq (x (primaryKey n)) (some (.text k))) =
      ((t.tableOf n).find? k).toList.map Row.record := by
  rw [← Table.filter_rows_key, t.store_name, List.filter_map]
  congr 1
  refine List.filter_congr fun x hx => ?_
  have htable : x.table = n := table_of_mem_rowsOf hx
  have hkey := x.record_key
  rw [htable, primaryKey_eq] at hkey
  rw [Function.comp_apply, hkey]
  simp [Sql.eq]

theorem Tables.Holds.represents {t : Tables} {m : Maps} (h : t.Holds m) (rest : Store SqlValue) :
    Represents rest (t.store rest) m where
  rows n k := by
    rw [t.select_key rest n k]
    cases hf : (t.tableOf n).find? k with
    | none =>
      have hm : m n k = none := h.eq_none.2 (Table.find?_eq_none.1 hf)
      rw [hm]
      rfl
    | some x =>
      obtain ⟨v, hm, hx⟩ := h.find? hf
      rw [hm]
      simp [record_of_row hx]
  keyed n x hx := by
    rw [t.store_name] at hx
    obtain ⟨r, hr, rfl⟩ := List.mem_map.1 hx
    have htable : r.table = n := table_of_mem_rowsOf hr
    have hkey := r.record_key
    rw [htable, primaryKey_eq] at hkey
    exact ⟨r.key, hkey⟩
  others _ hname := t.store_other hname

/-! ## Finds -/

namespace SqlValue

/-- A string field takes no NULL. -/
def toText : Option SqlValue → Except Error String
  | some (.text s) => .ok s
  | _ => .error .ioError

def toNullText : Option SqlValue → Except Error (Option String)
  | none => .ok none
  | some (.text s) => .ok (some s)
  | _ => .error .ioError

def toInt : Option SqlValue → Except Error Int64
  | some (.int n) => .ok n
  | _ => .error .ioError

def toTime : Option SqlValue → Except Error Time
  | some (.time t) => .ok t
  | _ => .error .ioError

end SqlValue

open SqlValue in
/-- The cells of a row, as the fields of the type take them by their `db` tags. -/
def scanRow (x : Record SqlValue) : TableName → Except Error Row
  | .interfaces => do
    return .interface ⟨← toText (x "name"), ← toInt (x "port"), ← toNullText (x "ip"), ← toNullText (x "ip6"),
      ← toInt (x "fwmark"), ← toText (x "private_key"), ← toText (x "public_key")⟩
  | .peers => do
    return .peer ⟨← toText (x "public_key"), ← toText (x "interface"), ← toNullText (x "ip"), ← toNullText (x "ip6"),
      ← toTime (x "expire")⟩
  | .tokens => do
    return .token ⟨← toText (x "id"), ← toText (x "secret"), ← toNullText (x "roles")⟩

def typename : TableName → String
  | .interfaces => interfaceType.name
  | .peers => peerType.name
  | .tokens => tokenType.name

/-- What `Find` uses of an adapter. -/
def storeTable (n : TableName) : SQLTable (Record SqlValue) Value :=
  ⟨typename n, (tableSchema n).name, primaryKey n :: fields n, fun x => scanRow x n >>= Row.scan⟩

def storeTables : List (SQLTable (Record SqlValue) Value) :=
  [storeTable .peers, storeTable .interfaces, storeTable .tokens]

theorem scanRow_record (r : Row) : scanRow r.record r.table = .ok r := by
  cases r with
  | interface r => obtain ⟨_, _, _ | _, _ | _, _, _, _⟩ := r <;> rfl
  | peer r => obtain ⟨_, _, _ | _, _ | _, _⟩ := r <;> rfl
  | token r => obtain ⟨_, _, _ | _⟩ := r <;> rfl

theorem storeTables_find (n : TableName) :
    (storeTables.find? fun t => t.typename == (storeTable n).typename) = some (storeTable n) := by
  cases n <;> rfl

theorem named_storeTable (n : TableName) : (storeTable n).Named where
  table := by cases n <;> exact ⟨by decide, by decide⟩
  fields := by
    have hfields : ∀ f ∈ (storeTable n).allFields, ' ' ∉ f.toList ∧ f ≠ "" := by cases n <;> decide
    exact fun f hf => ⟨(hfields f hf).1, (hfields f hf).2⟩

section

variable (E : Engine (Store SqlValue) (Record SqlValue)) (n : TableName)

/-- SQLite on the statements that `Find` makes, and how a key compares with a text. -/
structure SelectsByKey (sat : Record SqlValue → String → String → Bool) : Prop where
  selects : Selects E (storeTable n) (fun db => db (tableSchema n).name) sat
  key : ∀ x k, sat x (primaryKey n) k = Sql.eq (x (primaryKey n)) (some (.text k))

def findByKey (k : String) (db : Store SqlValue) : Found Value :=
  (sqlReaderFind E storeTables (typename n) [(primaryKey n, k)] true true db).1

/-- What the SQL codec makes of the fields of an object. -/
def Value.readBack (v : Value) : Except Error Value := v.row >>= Row.scan

/-- The find of a key gives the object that was last written to it, as it reads back, and nothing else. -/
def FindsLast (m : Maps) (k : String) (db : Store SqlValue) : Prop :=
  ∃ objs, findByKey E n k db = ⟨objs, none⟩ ∧ (m n k).toList.mapM Value.readBack = .ok objs ∧
    objs.map Value.row = (m n k).toList.map Value.row

variable {E n}

theorem findByKey_of_find {k : String} {db db' : Store SqlValue} {objs : List Value}
    (h : (storeTable n).find E [(primaryKey n, k)] db = (⟨objs, none⟩, db')) : findByKey E n k db = ⟨objs, none⟩ := by
  have htypes : (storeTables.find? fun t => t.typename == typename n) = some (storeTable n) := storeTables_find n
  simp only [findByKey, sqlReaderFind, htypes, withTx, h, if_true]

theorem structScan_record {r : Row} (h : r.table = n) : (storeTable n).structScan r.record = r.scan := by
  subst h
  simp only [storeTable, scanRow_record]
  rfl

theorem Tables.Holds.findsLast {t : Tables} {m : Maps} (h : t.Holds m) (rest : Store SqlValue)
    {sat : Record SqlValue → String → String → Bool} (hE : SelectsByKey E n sat) (k : String) :
    FindsLast E n m k (t.store rest) := by
  obtain ⟨found, hperm, hfind⟩ := find_cons (named_storeTable n) hE.selects
    (show ∀ kv ∈ [(primaryKey n, k)], kv.1 ∈ (storeTable n).allFields by simp [storeTable])
      (List.cons_ne_nil _ _) (t.store rest)
  have hmatching : matching (fun db => db (tableSchema n).name) sat [(primaryKey n, k)] (t.store rest) =
      ((t.tableOf n).find? k).toList.map Row.record := by
    rw [← t.select_key rest n k]
    simp only [matching, List.all_cons, List.all_nil, Bool.and_true, hE.key]
  rw [hmatching] at hperm
  cases hf : (t.tableOf n).find? k with
  | none =>
    have hm : m n k = none := h.eq_none.2 (Table.find?_eq_none.1 hf)
    rw [hf] at hperm
    cases hperm.eq_nil
    rw [FindsLast, hm]
    exact ⟨[], findByKey_of_find hfind, rfl, rfl⟩
  | some x =>
    obtain ⟨v, hm, hx⟩ := h.find? hf
    obtain ⟨v', hscan, hrow⟩ := Value.exists_scan hx
    have htable : x.table = n := table_of_mem_rowsOf (Table.find?_eq_some.1 hf).1
    rw [hf] at hperm
    cases List.perm_singleton.1 hperm
    simp only [visitRows, structScan_record htable, hscan] at hfind
    rw [FindsLast, hm]
    refine ⟨[v'], findByKey_of_find hfind, ?_, ?_⟩
    · have hread : v.readBack = .ok v' := by rw [Value.readBack, hx]; exact hscan
      exact mapM_eq_map (g := fun _ => v') fun a ha => by cases List.mem_singleton.1 ha; exact hread
    · simp [hx, hrow]

end

/-! ## The refinement -/

/-- The CRUD layer refines keyed maps: from any migrated database with empty tables, every run of calls of the
dispatcher comes, call by call, to what the maps come to, and leaves tables that are the maps. A find by key gives what
was last written. An object of another type is refused and nothing changes. -/
theorem crud_refines_maps (stack : Nat) (before : Store SqlValue) (hempty : ∀ n, before (tableSchema n).name = [])
    (cs : List Mutation) :
    let run := Proc.runAll (Mutation.onStore stack) cs before
    let maps := Proc.runAll Mutation.onMaps cs Maps.empty
    run.1 = maps.1 ∧ Represents before run.2 maps.2 ∧
      (∀ E n sat, SelectsByKey E n sat → ∀ k, FindsLast E n maps.2 k run.2) ∧
      ∀ v : Value, v.typeOf = .other → ∀ db,
        (sqlCrud stack).create v db = (.err .unknownType, db) ∧ (sqlCrud stack).update v db = (.err .unknownType, db) ∧
        (sqlCrud stack).delete v db = (.err .unknownType, db) := by
  intro run maps
  have hstart : Mutation.Kept before before Maps.empty := by
    refine ⟨Tables.empty, Tables.store_ext (fun n => ?_) fun _ _ => rfl, .empty⟩
    rw [hempty]
    cases n <;> rfl
  obtain ⟨houts, t, hdb, hholds⟩ := Proc.runAll_simulates (Mutation.onStore_simulates stack before) cs hstart
  refine ⟨houts, ?_, fun E n sat hE k => ?_, fun v hv db => ?_⟩
  · rw [hdb]
    exact hholds.represents before
  · rw [hdb]
    exact hholds.findsLast before hE k
  · cases v <;> cases hv
    exact ⟨rfl, rfl, rfl⟩

/-- An interface, a peer of it, the same peer again, one of another interface; then the interface goes, and the peer
with it. -/
theorem crud_refines_maps_cascade :
    let before : Store SqlValue := fun name => if name = "sequence" then [fun _ => some (.int 0)] else []
    let wg0 : Value := .interface ⟨"wg0", 51820, none, none, 0, "", ""⟩
    let peer (intf : String) : Value := .peer ⟨"pk", intf, none, none, Time.zero⟩
    let cs : List Mutation :=
      [.create wg0, .create (peer "wg0"), .create (peer "wg0"), .update (peer "wg1"), .delete wg0]
    let run := Proc.runAll (Mutation.onStore 1) cs before
    (∀ n, before (tableSchema n).name = []) ∧
      run.1 = [.ok (), .ok (), .err .uniqueConstraint, .err .foreignKey, .ok ()] ∧
      (run.2 "peers").filter (fun x => Sql.eq (x "public_key") (some (.text "pk"))) = [] := by
  intro before wg0 peer cs run
  have hempty : ∀ n, before (tableSchema n).name = [] := fun n => by cases n <;> rfl
  obtain ⟨houts, hrows, -⟩ := crud_refines_maps 1 before hempty cs
  have hgone : (Proc.runAll Mutation.onMaps cs Maps.empty).2 .peers "pk" = none := by decide
  refine ⟨hempty, houts.trans (by decide), (hrows.rows .peers "pk").trans ?_⟩
  rw [hgone]
  rfl

end Wig.Model
