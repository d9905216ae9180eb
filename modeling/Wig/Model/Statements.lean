/-
The table adapters by the texts of their statements, on a store of rows with named cells. Run with the `db`
tags of an object, each text does to the store what the statement of the typed tables does to them.
-/
import Wig.Crud.Statement
import Wig.Model.Stored

namespace Wig.Model

open Wig.Lib Wig.Lib.Sql Wig.Crud

/-! ## Cells -/

inductive SqlValue where
  | text (s : String)
  | int (n : Int64)
  | time (t : Time)
  deriving DecidableEq

/-- The tables of the migrations, as far as the registered types go. Columns that are `NOT NULL` are
strings in Go. -/
def tableSchema : TableName → TableSchema
  | .interfaces => ⟨"interfaces", ["name", "port", "ip", "ip6", "fwmark", "private_key", "public_key"], "name", none⟩
  | .peers =>
    ⟨"peers", ["public_key", "interface", "ip", "ip6", "expire"], "public_key",
      some ⟨"interface", "interfaces", "name"⟩⟩
  | .tokens => ⟨"tokens", ["id", "secret", "roles"], "id", none⟩

def schema : Schema := [tableSchema .interfaces, tableSchema .peers, tableSchema .tokens]

namespace Row

def table : Row → TableName
  | .interface _ => .interfaces
  | .peer _ => .peers
  | .token _ => .tokens

def key : Row → String
  | .interface r => r.name
  | .peer r => r.publicKey
  | .token r => r.id

/-- The cells by the `db` tags of the object's fields. -/
def cells : Row → List (String × Option SqlValue)
  | .interface r =>
    [("name", some (.text r.name)), ("port", some (.int r.port)), ("ip", r.ip.map .text), ("ip6", r.ip6.map .text),
      ("fwmark", some (.int r.fwmark)), ("private_key", some (.text r.privateKey)),
      ("public_key", some (.text r.publicKey))]
  | .peer r =>
    [("public_key", some (.text r.publicKey)), ("interface", some (.text r.interface)), ("ip", r.ip.map .text),
      ("ip6", r.ip6.map .text), ("expire", some (.time r.expire))]
  | .token r => [("id", some (.text r.id)), ("secret", some (.text r.secret)), ("roles", r.roles.map .text)]

def record (r : Row) : Record SqlValue := Sql.record r.cells

/-- What the named parameters of a statement are bound to. -/
def args (r : Row) (name : String) : Option (Option SqlValue) := r.cells.lookup name

end Row

/-! ## The adapters -/

def sqlError : SqlError → Error
  | .refused => .syntaxError
  | .unbound => .syntaxError
  | .unique => .uniqueConstraint
  | .foreignKey => .foreignKey

/-- `NamedExec`, of a text. -/
def namedExecText (text : String) (obj : Value) : Proc (Store SqlValue) Error Unit := fun db =>
  match parse text, obj.row with
  | none, _ => (.err .syntaxError, db)
  | _, .error e => (.err e, db)
  | some stmt, .ok r =>
    match exec schema r.args db stmt with
    | .ok db' => (.ok (), db')
    | .error e => (.err (sqlError e), db)

/-- `sqlTableAdapter`, as `NewSQLTableType` makes it. `Each` runs `Find` with a nil query, whose statement ends
in `WHERE`. -/
def sqlTableAdapter (typename table primaryKey : String) (fields : List String) (newFn : Value)
    (unmarshal : Json → Except Error Value) : ObjType (Store SqlValue) Value :=
  { name := typename
    newInstance := newFn
    unmarshal := unmarshal
    create := namedExecText (buildInsertStatement table primaryKey fields)
    update := namedExecText (buildUpdateStatement table primaryKey fields)
    delete := namedExecText (buildDeleteStatement table primaryKey)
    deleteAll := .modify fun db =>
      schema.foldl (fun db' t => Function.update db' t.name (cascade table (db table) t (db' t.name)))
        (Function.update db table [])
    each := .fail .syntaxError }

def primaryKey : TableName → String
  | .interfaces => "name"
  | .peers => "public_key"
  | .tokens => "id"

def fields : TableName → List String
  | .interfaces => ["ip", "ip6", "fwmark", "port", "private_key", "public_key"]
  | .peers => ["ip", "ip6", "interface", "expire"]
  | .tokens => ["secret", "roles"]

def sqlPeerType : ObjType (Store SqlValue) Value :=
  sqlTableAdapter "peer" "peers" (primaryKey .peers) (fields .peers) peerType.newInstance peerType.unmarshal

def sqlInterfaceType : ObjType (Store SqlValue) Value :=
  sqlTableAdapter "interface" "interfaces" (primaryKey .interfaces) (fields .interfaces) interfaceType.newInstance
    interfaceType.unmarshal

def sqlTokenType : ObjType (Store SqlValue) Value :=
  sqlTableAdapter "token" "tokens" (primaryKey .tokens) (fields .tokens) tokenType.newInstance tokenType.unmarshal

def sqlRegistry : Registry (Store SqlValue) Value GoType :=
  ((Registry.empty.register Value.typeOf sqlPeerType).register Value.typeOf sqlInterfaceType).register
    Value.typeOf sqlTokenType

def sqlCrud (stack : Nat) : CRUD (Store SqlValue) Value := sqlRegistry.crud Value.typeOf stack

/-! ## The typed tables as a store -/

/-- The rows of the tables with named cells, among the `rest` of the store. -/
def Tables.store (rest : Store SqlValue) (t : Tables) : Store SqlValue := fun name =>
  if name = "interfaces" then (t.rowsOf .interfaces).map Row.record
  else if name = "peers" then (t.rowsOf .peers).map Row.record
  else if name = "tokens" then (t.rowsOf .tokens).map Row.record
  else rest name

variable {rest : Store SqlValue}

theorem Tables.store_name (t : Tables) (n : TableName) :
    t.store rest (tableSchema n).name = (t.rowsOf n).map Row.record := by
  cases n <;> rfl

theorem Tables.store_other (t : Tables) {name : String} (h : ∀ n, name ≠ (tableSchema n).name) :
    t.store rest name = rest name := by
  have hi := h .interfaces
  have hp := h .peers
  have ht := h .tokens
  simp only [tableSchema] at hi hp ht
  rw [Tables.store, if_neg hi, if_neg hp, if_neg ht]

theorem tableSchema_name_inj {n n' : TableName} (h : (tableSchema n).name = (tableSchema n').name) : n = n' := by
  revert h
  cases n <;> cases n' <;> decide

theorem Tables.store_ext {t : Tables} {db : Store SqlValue}
    (h : ∀ n, db (tableSchema n).name = (t.rowsOf n).map Row.record)
    (hother : ∀ name, (∀ n, name ≠ (tableSchema n).name) → db name = rest name) : db = t.store rest := by
  funext name
  by_cases hname : ∃ n, name = (tableSchema n).name
  · obtain ⟨n, rfl⟩ := hname
    rw [h, t.store_name]
  · push Not at hname
    rw [hother name hname, t.store_other hname]

/-- The store after the rows of one table changed. -/
theorem Tables.store_update {t t' : Tables} {n : TableName} {rows : List Row}
    (hrows : ∀ n', t'.rowsOf n' = if n' = n then rows else t.rowsOf n') :
    t'.store rest = Function.update (t.store rest) (tableSchema n).name (rows.map Row.record) := by
  symm
  refine store_ext (fun n' => ?_) fun name hname => ?_
  · rw [hrows]
    by_cases hn : n' = n
    · subst hn
      rw [Function.update_self, if_pos rfl]
    · rw [Function.update_of_ne fun h => hn (tableSchema_name_inj h), t.store_name, if_neg hn]
  · rw [Function.update_of_ne (hname n), t.store_other hname]

theorem find?_schema (n : TableName) :
    (schema.find? fun t => t.name = (tableSchema n).name) = some (tableSchema n) := by
  cases n <;> rfl

/-! ## Rows and their keys -/

theorem Row.record_key (r : Row) : r.record (tableSchema r.table).primaryKey = some (.text r.key) := by
  cases r <;> rfl

theorem Row.bound_args (r : Row) : bound r.args = r.record := rfl

theorem primaryKey_eq (n : TableName) : (tableSchema n).primaryKey = primaryKey n := by
  cases n <;> rfl

theorem columns_perm (n : TableName) : (tableSchema n).columns.Perm (primaryKey n :: fields n) := by
  cases n <;> decide

/-- The cells are those of the key and of the fields that the statements name. -/
theorem Row.isSome_args (r : Row) (c : String) :
    (r.args c).isSome = true ↔ c ∈ primaryKey r.table :: fields r.table := by
  have hnames : r.cells.map Prod.fst = (tableSchema r.table).columns := by cases r <;> rfl
  rw [Row.args, isSome_lookup, hnames, (columns_perm r.table).mem_iff]

theorem table_of_mem_rowsOf {t : Tables} {n : TableName} {r : Row} (h : r ∈ t.rowsOf n) : r.table = n := by
  cases n with
  | interfaces => obtain ⟨_, -, rfl⟩ := List.mem_map.1 h; rfl
  | peers => obtain ⟨_, -, rfl⟩ := List.mem_map.1 h; rfl
  | tokens => obtain ⟨_, -, rfl⟩ := List.mem_map.1 h; rfl

/-- Cells of two rows of a table compare as the keys. -/
theorem eq_key {r x : Row} (h : x.table = r.table) :
    Sql.eq (x.record (primaryKey r.table)) (r.record (primaryKey r.table)) = decide (x.key = r.key) := by
  have hx := x.record_key
  have hr := r.record_key
  rw [h, primaryKey_eq] at hx
  rw [primaryKey_eq] at hr
  rw [hx, hr]
  simp [Sql.eq]

/-! ## What the typed statements do, table by table -/

/-- The row is a peer's whose interface is not there. -/
def Row.Orphan (t : Tables) : Row → Prop
  | .peer r => r.interface ∉ t.interfaces.keys
  | _ => False

/-- The row is a peer's on the interface of another row. -/
def Row.RefersTo : Row → Row → Prop
  | .peer p, .interface r => p.interface = r.name
  | _, _ => False

instance (t : Tables) (r : Row) : Decidable (r.Orphan t) := by
  cases r <;> unfold Row.Orphan <;> infer_instance

instance (x r : Row) : Decidable (x.RefersTo r) := by
  cases x <;> cases r <;> unfold Row.RefersTo <;> infer_instance

namespace Tables

theorem map_key_rows {ρ : Type} {key : ρ → String} (f : ρ → Row) (hf : ∀ x, (f x).key = key x) (u : Table key) :
    (u.rows.map f).map Row.key = u.keys := by
  rw [List.map_map, Table.keys]
  exact List.map_congr_left fun x _ => hf x

theorem keys_interfaces (t : Tables) : (t.rowsOf .interfaces).map Row.key = t.interfaces.keys :=
  map_key_rows _ (fun _ => rfl) _

theorem keys_peers (t : Tables) : (t.rowsOf .peers).map Row.key = t.peers.keys := map_key_rows _ (fun _ => rfl) _

theorem keys_tokens (t : Tables) : (t.rowsOf .tokens).map Row.key = t.tokens.keys := map_key_rows _ (fun _ => rfl) _

/-- What an INSERT comes to. -/
inductive Inserted (t : Tables) (r : Row) : Except Error Tables → Prop
  | duplicate (present : r.key ∈ (t.rowsOf r.table).map Row.key) : Inserted t r (.error .uniqueConstraint)
  | orphan (absent : r.key ∉ (t.rowsOf r.table).map Row.key) (orphan : r.Orphan t) : Inserted t r (.error .foreignKey)
  | inserted (t' : Tables) (absent : r.key ∉ (t.rowsOf r.table).map Row.key) (parent : ¬ r.Orphan t)
      (rows : ∀ n, t'.rowsOf n = if n = r.table then t.rowsOf r.table ++ [r] else t.rowsOf n) : Inserted t r (.ok t')

theorem insert_inserted (t : Tables) (r : Row) : Inserted t r (t.insert r) := by
  cases r with
  | interface r =>
    have hkeys : r.name ∈ (t.rowsOf .interfaces).map Row.key ↔ r.name ∈ t.interfaces.keys := by rw [keys_interfaces]
    simp only [insert]
    split
    · rename_i hnone
      exact .duplicate (hkeys.2 (Table.insert_eq_none.1 hnone))
    · rename_i u hu
      obtain ⟨habsent, hrows⟩ := Table.insert_rows hu
      refine .inserted _ (mt hkeys.1 habsent) id fun n => ?_
      cases n <;> simp [rowsOf, Row.table, hrows]
  | peer r =>
    have hkeys : r.publicKey ∈ (t.rowsOf .peers).map Row.key ↔ r.publicKey ∈ t.peers.keys := by rw [keys_peers]
    simp only [insert]
    split
    · rename_i hnone
      exact .duplicate (hkeys.2 (Table.insert_eq_none.1 hnone))
    · rename_i u hu
      obtain ⟨habsent, hrows⟩ := Table.insert_rows hu
      split
      · rename_i hparent
        refine .inserted _ (mt hkeys.1 habsent) (not_not.2 hparent) fun n => ?_
        cases n <;> simp [rowsOf, Row.table, hrows]
      · rename_i horphan
        exact .orphan (mt hkeys.1 habsent) horphan
  | token r =>
    have hkeys : r.id ∈ (t.rowsOf .tokens).map Row.key ↔ r.id ∈ t.tokens.keys := by rw [keys_tokens]
    simp only [insert]
    split
    · rename_i hnone
      exact .duplicate (hkeys.2 (Table.insert_eq_none.1 hnone))
    · rename_i u hu
      obtain ⟨habsent, hrows⟩ := Table.insert_rows hu
      refine .inserted _ (mt hkeys.1 habsent) id fun n => ?_
      cases n <;> simp [rowsOf, Row.table, hrows]

/-- The rows after one of them is replaced, where its key is. -/
def replaced (r : Row) (rows : List Row) : List Row := rows.map fun x => if x.key = r.key then r else x

theorem map_replaced {ρ : Type} {key : ρ → String} (f : ρ → Row) (hf : ∀ x, (f x).key = key x) (r : ρ) (l : List ρ) :
    (l.map fun x => if key x = key r then r else x).map f = replaced (f r) (l.map f) := by
  rw [replaced, List.map_map, List.map_map]
  refine List.map_congr_left fun x _ => ?_
  simp only [Function.comp_apply, hf]
  split <;> rfl

/-- What an UPDATE comes to. -/
inductive Updated (t : Tables) (r : Row) : Except Error Tables → Prop
  | orphan (present : r.key ∈ (t.rowsOf r.table).map Row.key) (orphan : r.Orphan t) : Updated t r (.error .foreignKey)
  | updated (t' : Tables) (parent : r.key ∈ (t.rowsOf r.table).map Row.key → ¬ r.Orphan t)
      (rows : ∀ n, t'.rowsOf n = if n = r.table then
        replaced r (t.rowsOf r.table) else t.rowsOf n) : Updated t r (.ok t')

theorem update_updated (t : Tables) (r : Row) : Updated t r (t.update r) := by
  cases r with
  | interface r =>
    refine .updated _ (fun _ => id) fun n => ?_
    cases n with
    | interfaces => exact map_replaced Row.interface (fun _ => rfl) r t.interfaces.rows
    | peers => rfl
    | tokens => rfl
  | peer r =>
    have hkeys : r.publicKey ∈ (t.rowsOf .peers).map Row.key ↔ r.publicKey ∈ t.peers.keys := by rw [keys_peers]
    simp only [update]
    split
    · rename_i hparent
      refine .updated _ (fun h => not_not.2 (hparent (hkeys.1 h))) fun n => ?_
      cases n with
      | interfaces => rfl
      | peers => exact map_replaced Row.peer (fun _ => rfl) r t.peers.rows
      | tokens => rfl
    · rename_i horphan
      push Not at horphan
      exact .orphan (hkeys.2 horphan.1) horphan.2
  | token r =>
    refine .updated _ (fun _ => id) fun n => ?_
    cases n with
    | interfaces => rfl
    | peers => rfl
    | tokens => exact map_replaced Row.token (fun _ => rfl) r t.tokens.rows

/-- A DELETE leaves the rows of other keys, but for the peers of a deleted interface. -/
theorem rowsOf_delete (t : Tables) (r : Row) (n : TableName) : (t.delete r).rowsOf n =
    (t.rowsOf n).filter fun x => decide (¬ (n = r.table ∧ x.key = r.key) ∧ ¬ x.RefersTo r) := by
  cases r <;> cases n <;>
    simp [delete, rowsOf, Row.table, Row.key, Row.RefersTo, Table.erase, List.filter_map, Function.comp_def]

/-! ## The texts on the typed tables -/

theorem consistent_iff {db : Store SqlValue} {peers : List PeerRow} {interfaces : List InterfaceRow}
    (hp : db "peers" = (peers.map Row.peer).map Row.record)
    (hi : db "interfaces" = (interfaces.map Row.interface).map Row.record) :
    consistent schema db = true ↔ ∀ p ∈ peers, p.interface ∈ interfaces.map InterfaceRow.name := by
  have hcell : ∀ p : PeerRow, (Row.peer p).record "interface" = some (.text p.interface) := fun _ => rfl
  have hname : ∀ i : InterfaceRow, (Row.interface i).record "name" = some (.text i.name) := fun _ => rfl
  simp [consistent, schema, tableSchema, hp, hi, Sql.eq, hcell, hname]

theorem checked_store (t : Tables) : checked schema (t.store rest) = .ok (t.store rest) := by
  have hc : consistent schema (t.store rest) = true :=
    (consistent_iff (t.store_name .peers) (t.store_name .interfaces)).2 t.foreignKey
  rw [checked, if_pos hc]

theorem exists_map_peer :
    ∀ {rows : List Row}, (∀ x ∈ rows, x.table = .peers) → ∃ peers : List PeerRow, rows = peers.map Row.peer
  | [], _ => ⟨[], rfl⟩
  | .peer p :: rows, h => by
    obtain ⟨peers, rfl⟩ := exists_map_peer fun x hx => h x (.tail _ hx)
    exact ⟨p :: peers, rfl⟩
  | .interface _ :: _, h => absurd (h _ (.head _)) (by simp [Row.table])
  | .token _ :: _, h => absurd (h _ (.head _)) (by simp [Row.table])

/-- A peer that refers to no interface is refused after the statement. -/
theorem checked_orphan {t : Tables} {r : Row} (horphan : r.Orphan t) {rows : List Row}
    (hrows : ∀ x ∈ rows, x.table = r.table) (hr : r ∈ rows) :
    checked schema (Function.update (t.store rest) (tableSchema r.table).name (rows.map Row.record)) =
      .error .foreignKey := by
  cases r with
  | interface r => exact horphan.elim
  | token r => exact horphan.elim
  | peer r =>
    obtain ⟨peers, rfl⟩ := exists_map_peer hrows
    have hc : ¬ consistent schema (Function.update (t.store rest) "peers" ((peers.map Row.peer).map Row.record)) =
        true := by
      rw [consistent_iff (Function.update_self ..)
        ((Function.update_of_ne (by decide) ..).trans (t.store_name .interfaces))]
      intro hall
      exact horphan (hall r (by simpa using hr))
    exact if_neg hc

theorem any_key {t : Tables} (r : Row) : ((t.rowsOf r.table).map Row.record).any
    (fun x => Sql.eq (x (primaryKey r.table)) (bound r.args (primaryKey r.table))) =
      decide (r.key ∈ (t.rowsOf r.table).map Row.key) := by
  rw [Row.bound_args, Bool.eq_iff_iff, List.any_map, List.any_eq_true, decide_eq_true_iff, List.mem_map]
  refine exists_congr fun x => and_congr_right fun hx => ?_
  rw [Function.comp_apply, eq_key (table_of_mem_rowsOf hx), decide_eq_true_iff]

theorem columns_subset (n : TableName) : (tableSchema n).primaryKey :: fields n ⊆ (tableSchema n).columns := by
  rw [primaryKey_eq]
  exact (columns_perm n).symm.subset

theorem isSome_args_of_mem (r : Row) :
    ∀ c ∈ (tableSchema r.table).primaryKey :: fields r.table, (r.args c).isSome = true := by
  rw [primaryKey_eq]
  exact fun c => (r.isSome_args c).2

theorem args_eq_none (r : Row) : ∀ c ∉ (tableSchema r.table).primaryKey :: fields r.table, r.args c = none := by
  rw [primaryKey_eq]
  exact fun c hc => Option.not_isSome_iff_eq_none.1 (mt (r.isSome_args c).1 hc)

theorem exec_insertText (t : Tables) (r : Row) :
    (Sql.exec schema r.args (t.store rest) (.insert (tableSchema r.table).name (primaryKey r.table :: fields r.table)
      (primaryKey r.table :: fields r.table))).mapError sqlError = (t.insert r).map (Tables.store rest) := by
  have hexec :=
    exec_insert (t.store rest) (find?_schema r.table) (columns_subset r.table) (isSome_args_of_mem r) (args_eq_none r)
  rw [primaryKey_eq, t.store_name, any_key] at hexec
  rw [hexec]
  have hcases := t.insert_inserted r
  generalize t.insert r = res at hcases
  have hrows : (t.rowsOf r.table).map Row.record ++ [bound r.args] = (t.rowsOf r.table ++ [r]).map Row.record := by
    rw [List.map_append]
    rfl
  cases hcases with
  | duplicate present =>
    rw [if_pos (decide_eq_true present)]
    rfl
  | orphan absent orphan =>
    rw [if_neg (by simpa using absent), hrows, checked_orphan orphan]
    · rfl
    · intro x hx
      rcases List.mem_append.1 hx with hx | hx
      · exact table_of_mem_rowsOf hx
      · rw [List.mem_singleton.1 hx]
    · simp
  | inserted t' absent parent rows =>
    rw [if_neg (by simpa using absent), hrows, ← store_update rows, checked_store]
    rfl

/-- Where the key of a row is that of another, so are all cells that an UPDATE leaves alone. -/
theorem record_eq_of_key {r x : Row} (htable : x.table = r.table) (hkey : x.key = r.key) :
    ∀ c ∉ fields r.table, x.record c = r.record c := by
  intro c hc
  by_cases hpk : c = primaryKey r.table
  · subst hpk
    have hx := x.record_key
    have hr := r.record_key
    rw [htable, primaryKey_eq] at hx
    rw [primaryKey_eq] at hr
    rw [hx, hr, hkey]
  · have hnone : ∀ y : Row, y.table = r.table → y.record c = none := by
      intro y hy
      have hargs : y.args c = none := args_eq_none y c (by rw [hy, primaryKey_eq]; simp [hpk, hc])
      show (y.args c).join = none
      rw [hargs]
      rfl
    rw [hnone x htable, hnone r rfl]

theorem nodup_keys (t : Tables) (n : TableName) : ((t.rowsOf n).map Row.key).Nodup := by
  cases n with
  | interfaces => rw [keys_interfaces]; exact t.interfaces.nodup
  | peers => rw [keys_peers]; exact t.peers.nodup
  | tokens => rw [keys_tokens]; exact t.tokens.nodup

theorem keys_replaced (r : Row) (rows : List Row) : (replaced r rows).map Row.key = rows.map Row.key :=
  Table.map_key_replace r rows

theorem table_of_mem_replaced {t : Tables} {r x : Row} (h : x ∈ replaced r (t.rowsOf r.table)) : x.table = r.table := by
  obtain ⟨y, hy, rfl⟩ := List.mem_map.1 h
  split
  · rfl
  · exact table_of_mem_rowsOf hy

theorem map_record_replaced {r : Row} {rows : List Row} (h : ∀ x ∈ rows, x.table = r.table) :
    ((rows.map Row.record).map fun x =>
      if Sql.eq (x (primaryKey r.table)) (bound r.args (primaryKey r.table)) then bound r.args else x) =
        (replaced r rows).map Row.record := by
  rw [replaced, List.map_map, List.map_map, Row.bound_args]
  refine List.map_congr_left fun x hx => ?_
  simp only [Function.comp_apply, eq_key (h x hx), decide_eq_true_iff]
  split <;> rfl

/-- An UPDATE gives no key twice. -/
theorem nodup_replaced (t : Tables) (r : Row) :
    (((replaced r (t.rowsOf r.table)).map Row.record).map fun x => x (primaryKey r.table)).Nodup := by
  have hcells : ((replaced r (t.rowsOf r.table)).map Row.record).map (fun x => x (primaryKey r.table)) =
      ((replaced r (t.rowsOf r.table)).map Row.key).map fun k => some (SqlValue.text k) := by
    rw [List.map_map, List.map_map]
    refine List.map_congr_left fun x hx => ?_
    have hkey := x.record_key
    rwa [table_of_mem_replaced hx, primaryKey_eq] at hkey
  rw [hcells, keys_replaced]
  refine (t.nodup_keys r.table).map fun a b hab => ?_
  simpa using hab

theorem exec_updateText (t : Tables) (r : Row) :
    (Sql.exec schema r.args (t.store rest)
      (.update (tableSchema r.table).name ((fields r.table).map fun f => (f, f)) (primaryKey r.table)
      (primaryKey r.table))).mapError sqlError = (t.update r).map (Tables.store rest) := by
  have hsame : ∀ x ∈ t.store rest (tableSchema r.table).name,
      Sql.eq (x (tableSchema r.table).primaryKey) (bound r.args (tableSchema r.table).primaryKey) = true →
      ∀ c ∉ fields r.table, x c = bound r.args c := by
    intro x hx heq
    rw [t.store_name] at hx
    obtain ⟨y, hy, rfl⟩ := List.mem_map.1 hx
    have hty := table_of_mem_rowsOf hy
    rw [primaryKey_eq, Row.bound_args, eq_key hty, decide_eq_true_iff] at heq
    exact record_eq_of_key hty heq
  have hexec := exec_update (t.store rest) (find?_schema r.table) (columns_subset r.table) (isSome_args_of_mem r) hsame
  rw [primaryKey_eq, t.store_name, map_record_replaced fun x hx => table_of_mem_rowsOf hx] at hexec
  rw [hexec]
  simp only [if_pos (t.nodup_replaced r)]
  have hcases := t.update_updated r
  generalize t.update r = res at hcases
  cases hcases with
  | orphan present orphan =>
    rw [checked_orphan orphan fun x hx => table_of_mem_replaced hx]
    · rfl
    · obtain ⟨y, hy, hkey⟩ := List.mem_map.1 present
      exact List.mem_map.2 ⟨y, hy, if_pos hkey⟩
  | updated t' parent rows =>
    rw [← store_update rows, checked_store]
    rfl

/-- The rows of a table whose key is the bound one. -/
theorem filter_key {r : Row} {rows : List Row} (h : ∀ x ∈ rows, x.table = r.table) (f : Bool → Bool) :
    (rows.map Row.record).filter (fun x => f (Sql.eq (x (primaryKey r.table)) (bound r.args (primaryKey r.table)))) =
      (rows.filter fun x => f (decide (x.key = r.key))).map Row.record := by
  rw [List.filter_map, Row.bound_args]
  congr 1
  refine List.filter_congr fun x hx => ?_
  rw [Function.comp_apply, eq_key (h x hx)]

/-- Only the peers have a reference. -/
theorem foldl_cascade (table : String) (deleted : List (Record SqlValue)) (db : Store SqlValue) :
    schema.foldl (fun db t => Function.update db t.name (cascade table deleted t (db t.name))) db =
      Function.update db (tableSchema .peers).name
        (cascade table deleted (tableSchema .peers) (db (tableSchema .peers).name)) := by
  have hi : ∀ rows, cascade table deleted (tableSchema .interfaces) rows = rows := fun _ => rfl
  have ht : ∀ rows, cascade table deleted (tableSchema .tokens) rows = rows := fun _ => rfl
  simp only [schema, List.foldl_cons, List.foldl_nil, hi, ht, Function.update_eq_self]

/-- The interface a peer is of is among the deleted ones exactly if it has the deleted name: a peer without
its interface does not exist. -/
theorem any_deleted {t : Tables} {p : PeerRow} (hp : p ∈ t.peers.rows) (r : InterfaceRow) :
    (((t.interfaces.rows.filter fun i => decide (i.name = r.name)).map Row.interface).map Row.record).any
      (fun x => Sql.eq (x "name") ((Row.peer p).record "interface")) = decide (p.interface = r.name) := by
  have hcell : (Row.peer p).record "interface" = some (.text p.interface) := rfl
  have hname : ∀ i : InterfaceRow, (Row.interface i).record "name" = some (.text i.name) := fun _ => rfl
  obtain ⟨i, hi, hpi⟩ := List.mem_map.1 (t.foreignKey p hp)
  rw [Bool.eq_iff_iff, decide_eq_true_iff]
  simp only [List.any_map, List.any_filter, Function.comp_def, hcell, hname, List.any_eq_true, Bool.and_eq_true,
    decide_eq_true_iff, Sql.eq, Option.isSome_some, true_and, Option.some.injEq, SqlValue.text.injEq]
  constructor
  · rintro ⟨i', _, hi', heq⟩
    rw [← heq, hi']
  · intro hr
    exact ⟨i, hi, hpi.trans hr, hpi⟩

theorem cascade_peers (t : Tables) (r : InterfaceRow) :
    cascade "interfaces" (((t.rowsOf .interfaces).filter fun x => decide (x.key = r.name)).map Row.record)
    (tableSchema .peers)
      ((t.rowsOf .peers).map Row.record) = ((t.delete (.interface r)).rowsOf .peers).map Row.record := by
  have hpeers : (t.delete (.interface r)).rowsOf .peers =
      (t.peers.rows.filter fun p => decide (p.interface ≠ r.name)).map Row.peer := rfl
  have hdeleted : (t.rowsOf .interfaces).filter (fun x => decide (x.key = r.name)) =
      (t.interfaces.rows.filter fun i => decide (i.name = r.name)).map Row.interface := List.filter_map
  rw [hpeers, hdeleted]
  simp only [cascade, tableSchema, if_true, rowsOf, List.filter_map]
  congr 2
  refine List.filter_congr fun p hp => ?_
  rw [Function.comp_apply, Function.comp_apply, any_deleted hp r, decide_not]

/-- A DELETE of a row nothing can refer to. -/
theorem store_delete {t : Tables} {r : Row} (h : ∀ x : Row, ¬ x.RefersTo r) :
    (t.delete r).store rest =
      Function.update (t.store rest) (tableSchema r.table).name
        (((t.rowsOf r.table).filter fun x => !decide (x.key = r.key)).map Row.record) := by
  refine store_update fun n => ?_
  rw [rowsOf_delete]
  split <;> rename_i hn
  · subst hn
    simp [h]
  · simp [h, hn]

theorem exec_deleteText (t : Tables) (r : Row) :
    Sql.exec schema r.args (t.store rest)
    (.delete (tableSchema r.table).name (primaryKey r.table) (primaryKey r.table)) =
      .ok ((t.delete r).store rest) := by
  have hexec :=
    exec_delete (t.store rest) (find?_schema r.table) (columns_subset r.table (.head _))
      (isSome_args_of_mem r _ (.head _))
  have htable : ∀ x ∈ t.rowsOf r.table, x.table = r.table := fun x hx => table_of_mem_rowsOf hx
  have hdeleted := filter_key htable id
  simp only [id] at hdeleted
  simp only [primaryKey_eq, t.store_name, filter_key htable Bool.not, hdeleted, foldl_cascade] at hexec
  rw [hexec]
  simp only [Except.ok.injEq]
  cases r with
  | interface r =>
    refine store_ext (fun n => ?_) fun name hname => ?_
    · cases n with
      | peers => exact cascade_peers t r
      | interfaces =>
        have hrows : (t.delete (.interface r)).rowsOf .interfaces = (t.rowsOf .interfaces).filter fun x =>
            !decide (x.key = r.name) := by
          simp only [delete, rowsOf, Table.erase, List.filter_map, decide_not]
          rfl
        rw [hrows]
        rfl
      | tokens => rfl
    · rw [Function.update_of_ne (hname .peers), Function.update_of_ne (hname (Row.interface r).table),
        t.store_other hname]
  | peer r =>
    rw [store_delete fun x => by cases x <;> exact id]
    exact Function.update_eq_self _ _
  | token r =>
    rw [store_delete fun x => by cases x <;> exact id]
    exact Function.update_eq_self _ _

end Tables

/-! ## The dispatcher on the store -/

theorem isName_table (n : TableName) : IsName (tableSchema n).name := by
  cases n <;> decide

theorem isName_fields (n : TableName) : ∀ f ∈ primaryKey n :: fields n, IsName f := by
  cases n <;> decide

theorem fields_ne_nil (n : TableName) : fields n ≠ [] := by
  cases n <;> decide

theorem namedExecText_store {text : String} {s : Statement} {stmt : Row → Stmt} {v : Value} {r : Row}
    {t : Tables} (hr : v.row = .ok r) (hparse : parse text = some s)
    (hexec : (Sql.exec schema r.args (t.store rest) s).mapError sqlError = (t.exec (stmt r)).map (Tables.store rest)) :
    namedExecText text v (t.store rest) = Prod.map id (Tables.store rest) (namedExec stmt v t) := by
  unfold namedExecText
  simp only [hparse, hr]
  cases htyped : t.exec (stmt r) with
  | ok t' =>
    cases hstore : Sql.exec schema r.args (t.store rest) s with
    | ok db =>
      rw [hstore, htyped] at hexec
      cases hexec
      rw [namedExec_of_ok hr htyped]
      rfl
    | error e =>
      rw [hstore, htyped] at hexec
      cases hexec
  | error e =>
    cases hstore : Sql.exec schema r.args (t.store rest) s with
    | ok db =>
      rw [hstore, htyped] at hexec
      cases hexec
    | error e' =>
      rw [hstore, htyped] at hexec
      cases hexec
      rw [namedExec_of_error hr htyped]
      rfl

section

variable (typename table pk : String) (fields : List String) (newFn : Value) (unmarshal : Json → Except Error Value)

theorem sqlTableAdapter_create :
    (sqlTableAdapter typename table pk fields newFn unmarshal).create =
      namedExecText (buildInsertStatement table pk fields) := by
  rw [sqlTableAdapter]

theorem sqlTableAdapter_update :
    (sqlTableAdapter typename table pk fields newFn unmarshal).update =
      namedExecText (buildUpdateStatement table pk fields) := by
  rw [sqlTableAdapter]

theorem sqlTableAdapter_delete :
    (sqlTableAdapter typename table pk fields newFn unmarshal).delete =
      namedExecText (buildDeleteStatement table pk) := by
  rw [sqlTableAdapter]

end

/-- An object is routed to the adapter of its table. -/
theorem sqlRegistry_getType {v : Value} {r : Row} (hr : v.row = .ok r) :
    ∃ typename newFn unmarshal, sqlRegistry.getType Value.typeOf v =
    some (sqlTableAdapter typename (tableSchema r.table).name (primaryKey r.table)
      (fields r.table) newFn unmarshal) := by
  cases v with
  | interface i => cases hr; exact ⟨_, _, _, rfl⟩
  | peer p => cases hr; exact ⟨_, _, _, rfl⟩
  | token t => cases hr; exact ⟨_, _, _, rfl⟩
  | other => cases hr

theorem sqlRegistry_getType_none {v : Value} {e : Error} (hr : v.row = .error e) :
    sqlRegistry.getType Value.typeOf v = none ∧ e = .unknownType := by
  cases v <;> cases hr
  exact ⟨rfl, rfl⟩

section

variable (stack : Nat) (v : Value) (t : Tables)

/-- The texts do to the store of the tables what the dispatcher does to the tables. -/
theorem sqlCrud_create :
    (sqlCrud stack).create v (t.store rest) = Prod.map id (Tables.store rest) ((crud stack).create v t) := by
  rw [crud_create]
  show sqlRegistry.create Value.typeOf v (t.store rest) = _
  cases hr : v.row with
  | error e =>
    obtain ⟨hnone, rfl⟩ := sqlRegistry_getType_none hr
    rw [Registry.create, hnone, namedExec, hr]
    rfl
  | ok r =>
    obtain ⟨_, _, _, hm⟩ := sqlRegistry_getType hr
    simp only [Registry.create, hm, sqlTableAdapter_create]
    exact namedExecText_store hr (parse_buildInsertStatement (isName_table _) (isName_fields _)) (t.exec_insertText r)

theorem sqlCrud_update :
    (sqlCrud stack).update v (t.store rest) = Prod.map id (Tables.store rest) ((crud stack).update v t) := by
  rw [crud_update]
  show sqlRegistry.update Value.typeOf v (t.store rest) = _
  cases hr : v.row with
  | error e =>
    obtain ⟨hnone, rfl⟩ := sqlRegistry_getType_none hr
    rw [Registry.update, hnone, namedExec, hr]
    rfl
  | ok r =>
    obtain ⟨_, _, _, hm⟩ := sqlRegistry_getType hr
    simp only [Registry.update, hm, sqlTableAdapter_update]
    exact namedExecText_store hr (parse_buildUpdateStatement (isName_table _) (fields_ne_nil _) (isName_fields _))
      (t.exec_updateText r)

theorem sqlCrud_delete :
    (sqlCrud stack).delete v (t.store rest) = Prod.map id (Tables.store rest) ((crud stack).delete v t) := by
  rw [crud_delete]
  show sqlRegistry.delete Value.typeOf v (t.store rest) = _
  cases hr : v.row with
  | error e =>
    obtain ⟨hnone, rfl⟩ := sqlRegistry_getType_none hr
    rw [Registry.delete, hnone, namedExec, hr]
    rfl
  | ok r =>
    obtain ⟨_, _, _, hm⟩ := sqlRegistry_getType hr
    simp only [Registry.delete, hm, sqlTableAdapter_delete]
    refine namedExecText_store hr (parse_buildDeleteStatement (isName_table _) (isName_fields _ _ (.head _))) ?_
    rw [t.exec_deleteText r]
    rfl

end

end Wig.Model
