/-
The read path of the CRUD layer: the HTTP handler that turns the arguments of a URL into a query map,
the reader that opens a transaction, and the table adapter that writes the keys of the map into the
text of a statement. What runs the statement is the SQL engine, a parameter.
-/
import Wig.Crud.Registry

namespace Wig.Crud

/-- An SQL engine over databases `D` with rows `R`. What a text is prepared to depends on the schema
alone; a statement that is run gives the rows it steps through, and the error that cut them short. -/
structure Engine (D R : Type) where
  Prepared : Type
  prepare : String → Except Error Prepared
  exec : Prepared → List String → D → (List R × Option Error) × D

/-! ## The query builder -/

structure QueryBuilder where
  table : String
  clauses : List String
  args : List String

/-- The query map comes in the order in which the loop over it meets the keys. -/
def newQueryBuilder (table : String) (query : List (String × String)) : QueryBuilder :=
  query.foldl (fun q kv => { q with clauses := q.clauses ++ [kv.1 ++ " = ?"], args := q.args ++ [kv.2] })
    ⟨table, [], []⟩

namespace QueryBuilder

def text (q : QueryBuilder) : String := "SELECT * FROM `" ++ q.table ++ "` WHERE " ++ " AND ".intercalate q.clauses

/-- `Queryx`. -/
def exec {D R : Type} (E : Engine D R) (q : QueryBuilder) (d : D) : Except Error ((List R × Option Error) × D) :=
  (E.prepare q.text).map fun stmt => E.exec stmt q.args d

end QueryBuilder

theorem foldl_newQueryBuilder : ∀ (query : List (String × String)) (q : QueryBuilder),
    query.foldl (fun q kv => { q with clauses := q.clauses ++ [kv.1 ++ " = ?"], args := q.args ++ [kv.2] }) q =
      ⟨q.table, q.clauses ++ query.map fun kv => kv.1 ++ " = ?", q.args ++ query.map Prod.snd⟩
  | [], q => by simp
  | kv :: query, q => by
    rw [List.foldl_cons, foldl_newQueryBuilder query]
    simp

/-- One clause with the text of its key and one bound value for each entry. -/
theorem newQueryBuilder_eq (table : String) (query : List (String × String)) :
    newQueryBuilder table query = ⟨table, query.map fun kv => kv.1 ++ " = ?", query.map Prod.snd⟩ :=
  foldl_newQueryBuilder query _

/-! ## The table adapter and the reader -/

/-- The part of a `sqlTableAdapter` that `Find` uses. -/
structure SQLTable (R V : Type) where
  typename : String
  table : String
  allFields : List String
  structScan : R → Except Error V

/-- The objects that the callback was given, and the error that `Find` returned. -/
structure Found (V : Type) where
  objs : List V
  err : Option Error

section Find

variable {D R V : Type} (E : Engine D R)

/-- The loop over the rows ends at the first that does not scan. -/
def visitRows (structScan : R → Except Error V) (err : Option Error) : List R → Found V
  | [] => ⟨[], err⟩
  | r :: rows =>
    match structScan r with
    | .error e => ⟨[], some e⟩
    | .ok obj =>
      let found := visitRows structScan err rows
      ⟨obj :: found.objs, found.err⟩

def SQLTable.find (t : SQLTable R V) (query : List (String × String)) (d : D) : Found V × D :=
  match (newQueryBuilder t.table query).exec E d with
  | .error e => (⟨[], some e⟩, d)
  | .ok ((rows, err), d') => (visitRows t.structScan err rows, d')

/-- `sqlite.WithTx` around a find; whether the transaction opens and whether it commits is up to the
database. -/
def withTx (opens commits : Bool) (find : D → Found V × D) (d : D) : Found V × D :=
  if opens then
    match find d with
    | (⟨objs, some e⟩, _) => (⟨objs, some e⟩, d)
    | (⟨objs, none⟩, d') => if commits then (⟨objs, none⟩, d') else (⟨objs, some .commit⟩, d)
  else (⟨[], some .ioError⟩, d)

/-- `SQLReader.Find`. -/
def sqlReaderFind (types : List (SQLTable R V)) (typ : String) (query : List (String × String))
    (opens commits : Bool) (d : D) : Found V × D :=
  match types.find? fun t => t.typename == typ with
  | none => (⟨[], some .unknownType⟩, d)
  | some t => withTx opens commits (t.find E query) d

/-! ## The handler -/

/-- A piece of a response body. -/
inductive Chunk where
  | text (s : String)
  | doc (j : Json)
  | error (e : Error)

structure Response where
  status : Nat
  body : List Chunk

/-- Of the values of an argument the first one counts, and an argument without values is left out. -/
def queryArgs (url : List (String × List String)) : List (String × String) :=
  url.filterMap fun kv => kv.2.head?.map fun v => (kv.1, v)

/-- What the callback has written after some objects; `i` counts them. -/
def writeObjects (marshal : V → Json) : Nat → List V → List Chunk
  | _, [] => []
  | i, obj :: objs => .text (if i = 0 then "[" else ",") :: .doc (marshal obj) :: writeObjects marshal (i + 1) objs

/-- An error is written after the objects that were found before it, and sets the status if there
were none. -/
def respond (marshal : V → Json) (found : Found V) : Response :=
  { status := if found.err.isSome ∧ found.objs = [] then 500 else 200
    body := writeObjects marshal 0 found.objs ++ (found.err.map Chunk.error).toList ++ [.text "]"] }

/-- `query` is `queryArgs` of the URL, in the order in which the query builder meets its keys. -/
def handleFind (types : List (SQLTable R V)) (marshal : V → Json) (t : SQLTable R V) (query : List (String × String))
    (opens commits : Bool) (d : D) : Response × D :=
  let r := sqlReaderFind E types t.typename query opens commits d
  (respond marshal r.1, r.2)

/-! ## What an answer depends on -/

variable {E} {types : List (SQLTable R V)} {marshal : V → Json} {t : SQLTable R V} {query : List (String × String)}

theorem withTx_congr (opens commits : Bool) {find : D → Found V × D} {d d' : D} (h : (find d).1 = (find d').1) :
    (withTx opens commits find d).1 = (withTx opens commits find d').1 := by
  unfold withTx
  rcases hd : find d with ⟨⟨objs, _ | e⟩, s⟩ <;> rcases hd' : find d' with ⟨⟨objs', _ | e'⟩,
    s'⟩ <;> rw [hd, hd'] at h <;>
    cases h <;> cases opens <;> cases commits <;> rfl

/-- The answers of two databases agree if what the table adapter finds does. -/
theorem handleFind_congr (ht : (types.find? fun u => u.typename == t.typename) = some t)
    (opens commits : Bool) {d d' : D} (h : (t.find E query d).1 = (t.find E query d').1) :
    (handleFind E types marshal t query opens commits d).1 =
      (handleFind E types marshal t query opens commits d').1 := by
  simp only [handleFind, sqlReaderFind, ht]
  rw [withTx_congr opens commits h]

/-- With no fault in the transaction, the answer has what was found. -/
theorem handleFind_faultless (ht : (types.find? fun u => u.typename == t.typename) = some t) (d : D) :
    (handleFind E types marshal t query true true d).1 = respond marshal (t.find E query d).1 := by
  simp only [handleFind, sqlReaderFind, ht, withTx, if_true]
  rcases t.find E query d with ⟨⟨objs, _ | e⟩, d'⟩ <;> rfl

theorem SQLTable.find_of_refused {e : Error} (h : E.prepare (newQueryBuilder t.table query).text = .error e) (d : D) :
    t.find E query d = (⟨[], some e⟩, d) := by
  unfold SQLTable.find QueryBuilder.exec
  rw [h]
  rfl

theorem SQLTable.find_of_prepared {stmt : E.Prepared}
    (h : E.prepare (newQueryBuilder t.table query).text = .ok stmt) {d d' : D}
    {rows : List R} {err : Option Error} (he : E.exec stmt (query.map Prod.snd) d = ((rows, err), d')) :
    t.find E query d = (visitRows t.structScan err rows, d') := by
  have hargs : (newQueryBuilder t.table query).args = query.map Prod.snd := by rw [newQueryBuilder_eq]
  simp only [SQLTable.find, QueryBuilder.exec, h, hargs, Except.map, he]

end Find

end Wig.Crud
