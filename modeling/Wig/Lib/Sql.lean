/-
A fragment of SQL: statements with named parameters on tables with a primary key, and references between
tables that are checked after each statement and deleted along.
-/
import Mathlib.Data.List.Basic
import Mathlib.Data.List.Nodup
import Mathlib.Logic.Function.Basic

namespace Wig.Lib.Sql

/-- A statement; what stands for a value is the name of a parameter. -/
inductive Statement where
  | insert (table : String) (columns params : List String)
  | update (table : String) (sets : List (String × String)) (column param : String)
  | delete (table : String) (column param : String)
  deriving DecidableEq

inductive SqlError where
  /-- The statement does not fit the schema. -/
  | refused
  /-- A parameter has no value. -/
  | unbound
  | unique
  | foreignKey

/-- A column that holds values of a column of another table; its rows go when those do. -/
structure Reference where
  column : String
  table : String
  target : String

structure TableSchema where
  name : String
  columns : List String
  primaryKey : String
  reference : Option Reference

abbrev Schema := List TableSchema

/-- The cells of a row by column; `none` is NULL. -/
abbrev Record (κ : Type) := String → Option κ

/-- The rows of each table. -/
abbrev Store (κ : Type) := String → List (Record κ)

variable {κ : Type}

/-- The cells of a list, by their names. -/
def record (cells : List (String × Option κ)) : Record κ := fun c => (cells.lookup c).join

/-- The value of a parameter. -/
def bindOne (args : String → Option (Option κ)) (param : String) : Except SqlError (Option κ) :=
  match args param with
  | some value => .ok value
  | none => .error .unbound

/-- The values of parameters, if all have one. -/
def bindAll (args : String → Option (Option κ)) (params : List String) : Except SqlError (List (Option κ)) :=
  match params.mapM args with
  | some values => .ok values
  | none => .error .unbound

def overwrite (cells : List (String × Option κ)) (r : Record κ) : Record κ := fun c => (cells.lookup c).getD (r c)

variable [DecidableEq κ]

/-- Equality of cells; NULL equals nothing. -/
def eq (a b : Option κ) : Bool := a.isSome && a = b

/-- Every row that refers to a table finds its target there. -/
def consistent (schema : Schema) (db : Store κ) : Bool :=
  schema.all fun t =>
    match t.reference with
    | none => true
    | some ref => (db t.name).all fun r => (r ref.column).isNone || (db ref.table).any fun r' =>
      eq (r' ref.target) (r ref.column)

/-- The store after a statement, unless it breaks a reference. -/
def checked (schema : Schema) (db : Store κ) : Except SqlError (Store κ) :=
  if consistent schema db then .ok db else .error .foreignKey

/-- The rows of a table after some of another were deleted. -/
def cascade (table : String) (deleted : List (Record κ)) (t : TableSchema) (rows : List (Record κ)) : List (Record κ) :=
  match t.reference with
  | none => rows
  | some ref =>
    if ref.table = table then rows.filter fun r => !deleted.any fun r' => eq (r' ref.target) (r ref.column) else rows

/-- Run a statement with its parameters. The rows that refer to deleted rows are not referred to themselves. -/
def exec (schema : Schema) (args : String → Option (Option κ)) (db : Store κ) : Statement → Except SqlError (Store κ)
  | .insert table columns params =>
    match schema.find? fun t => t.name = table with
    | none => .error .refused
    | some t =>
      if columns ⊆ t.columns ∧ columns.length = params.length then do
        let values ← bindAll args params
        let r := record (columns.zip values)
        if (db table).any fun r' => eq (r' t.primaryKey) (r t.primaryKey) then .error .unique
        else checked schema (Function.update db table (db table ++ [r]))
      else .error .refused
  | .update table sets column param =>
    match schema.find? fun t => t.name = table with
    | none => .error .refused
    | some t =>
      if column ∈ t.columns ∧ sets.map Prod.fst ⊆ t.columns then do
        let values ← bindAll args (sets.map Prod.snd)
        let key ← bindOne args param
        let rows :=
          (db table).map fun r => if eq (r column) key then overwrite ((sets.map Prod.fst).zip values) r else r
        if (rows.map fun r => r t.primaryKey).Nodup then checked schema (Function.update db table rows)
        else .error .unique
      else .error .refused
  | .delete table column param =>
    match schema.find? fun t => t.name = table with
    | none => .error .refused
    | some t =>
      if column ∈ t.columns then do
        let key ← bindOne args param
        let deleted := (db table).filter fun r => eq (r column) key
        let kept := Function.update db table ((db table).filter fun r => !eq (r column) key)
        .ok (schema.foldl (fun db t => Function.update db t.name (cascade table deleted t (db t.name))) kept)
      else .error .refused

/-! ## Parameters that are the cells of a row -/

section Bound

omit [DecidableEq κ]

variable {args : String → Option (Option κ)}

theorem isSome_lookup {c : String} :
    ∀ {cells : List (String × Option κ)}, (cells.lookup c).isSome = true ↔ c ∈ cells.map Prod.fst
  | [] => by simp
  | (c', value) :: cells => by
    rw [List.lookup_cons, List.map_cons, List.mem_cons]
    by_cases hc : c = c'
    · simp [hc]
    · rw [beq_false_of_ne hc]
      rw [isSome_lookup]
      simp [hc]

theorem mapM_eq_some : ∀ {columns : List String}, (∀ c ∈ columns, (args c).isSome) →
    columns.mapM args = some (columns.map fun c => (args c).join)
  | [], _ => rfl
  | column :: columns, h => by
    obtain ⟨value, hvalue⟩ := Option.isSome_iff_exists.1 (h column (.head _))
    rw [List.mapM_cons, mapM_eq_some fun c hc => h c (.tail _ hc), hvalue]
    simp [hvalue]

theorem lookup_zip : ∀ (columns : List String) (c : String),
    (columns.zip (columns.map fun c => (args c).join)).lookup c = if c ∈ columns then some (args c).join else none
  | [], _ => rfl
  | column :: columns, c => by
    rw [List.map_cons, List.zip_cons_cons, List.lookup_cons]
    by_cases hc : c = column
    · subst hc
      simp
    · rw [beq_false_of_ne hc]
      simp [hc, lookup_zip columns c]

/-- A row of all the cells is the row of the parameters. -/
theorem record_zip {columns : List String} (hother : ∀ c ∉ columns, args c = none) :
    record (columns.zip (columns.map fun c => (args c).join)) = fun c => (args c).join := by
  funext c
  rw [record, lookup_zip]
  by_cases hc : c ∈ columns
  · rw [if_pos hc]
    rfl
  · rw [if_neg hc, hother c hc]

/-- A row that agrees with the parameters elsewhere becomes the row of the parameters. -/
theorem overwrite_zip {columns : List String} {r : Record κ} (hother : ∀ c ∉ columns, r c = (args c).join) :
    overwrite (columns.zip (columns.map fun c => (args c).join)) r = fun c => (args c).join := by
  funext c
  rw [overwrite, lookup_zip]
  by_cases hc : c ∈ columns
  · rw [if_pos hc]
    rfl
  · rw [if_neg hc, ← hother c hc]
    rfl

end Bound

/-! ## Statements whose parameters are named as their columns -/

section Named

variable {schema : Schema} {t : TableSchema} {args : String → Option (Option κ)} (db : Store κ) {fields : List String}

/-- The row of the parameters. -/
def bound (args : String → Option (Option κ)) : Record κ := fun c => (args c).join

theorem exec_insert (ht : (schema.find? fun t' => t'.name = t.name) = some t)
    (hcols : t.primaryKey :: fields ⊆ t.columns) (hargs : ∀ c ∈ t.primaryKey :: fields, (args c).isSome)
    (hother : ∀ c ∉ t.primaryKey :: fields, args c = none) :
    exec schema args db (.insert t.name (t.primaryKey :: fields) (t.primaryKey :: fields)) =
      if (db t.name).any fun r => eq (r t.primaryKey) (bound args t.primaryKey) then .error .unique
      else checked schema (Function.update db t.name (db t.name ++ [bound args])) := by
  have hrecord := record_zip hother
  simp only [exec, ht, hcols, bindAll, mapM_eq_some hargs, true_and, if_true, bind, Except.bind]
  rw [hrecord]
  rfl

theorem exec_update (ht : (schema.find? fun t' => t'.name = t.name) = some t)
    (hcols : t.primaryKey :: fields ⊆ t.columns) (hargs : ∀ c ∈ t.primaryKey :: fields, (args c).isSome)
    (hrows : ∀ r ∈ db t.name, eq (r t.primaryKey) (bound args t.primaryKey) = true → ∀ c ∉ fields, r c = bound args c) :
    exec schema args db (.update t.name (fields.map fun f => (f, f)) t.primaryKey t.primaryKey) =
      let rows := (db t.name).map fun r => if eq (r t.primaryKey) (bound args t.primaryKey) then bound args else r
      if (rows.map fun r => r t.primaryKey).Nodup then
        checked schema (Function.update db t.name rows) else .error .unique := by
  obtain ⟨hkey, hfields⟩ := List.cons_subset.1 hcols
  obtain ⟨key, hkeyArg⟩ := Option.isSome_iff_exists.1 (hargs t.primaryKey (.head _))
  have hfst : (fields.map fun f => (f, f)).map Prod.fst = fields := by simp [Function.comp_def]
  have hsnd : (fields.map fun f => (f, f)).map Prod.snd = fields := by simp [Function.comp_def]
  have hbind : bindAll args fields = .ok (fields.map fun c => (args c).join) := by
    rw [bindAll, mapM_eq_some fun c hc => hargs c (.tail _ hc)]
  have hbound : bound args t.primaryKey = key := by rw [bound, hkeyArg]; rfl
  have hmap : ((db t.name).map fun r => if eq (r t.primaryKey) key then
    overwrite (fields.zip (fields.map fun c => (args c).join)) r else r) =
      (db t.name).map fun r => if eq (r t.primaryKey) key then bound args else r := by
    refine List.map_congr_left fun r hr => ?_
    by_cases heq : eq (r t.primaryKey) key = true
    · rw [if_pos heq, if_pos heq]
      exact overwrite_zip (hrows r hr (by rw [hbound]; exact heq))
    · rw [if_neg heq, if_neg heq]
  simp only [exec, ht, hkey, hfst, hsnd, hfields, hbind, bindOne, hkeyArg, and_self, if_true, bind, Except.bind, hbound]
  rw [hmap]

theorem exec_delete (ht : (schema.find? fun t' => t'.name = t.name) = some t) (hkey : t.primaryKey ∈ t.columns)
    (harg : (args t.primaryKey).isSome) :
    exec schema args db (.delete t.name t.primaryKey t.primaryKey) =
      let deleted := (db t.name).filter fun r => eq (r t.primaryKey) (bound args t.primaryKey)
      let kept := Function.update db t.name ((db t.name).filter fun r => !eq (r t.primaryKey) (bound args t.primaryKey))
      .ok (schema.foldl (fun db t' => Function.update db t'.name (cascade t.name deleted t' (db t'.name))) kept) := by
  obtain ⟨key, hkeyArg⟩ := Option.isSome_iff_exists.1 harg
  have hbound : bound args t.primaryKey = key := by rw [bound, hkeyArg]; rfl
  simp only [exec, ht, hkey, bindOne, hkeyArg, if_true, bind, Except.bind, hbound]

end Named

end Wig.Lib.Sql
