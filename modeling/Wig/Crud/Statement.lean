/-
The statements of a table adapter: their texts, made from the names of the table and its fields, and the
statements that they are texts of.
-/
import Wig.Lib.Split
import Wig.Lib.SqlText

namespace Wig.Crud

open Wig.Lib Wig.Lib.Sql

/-! ## The builders -/

def buildInsertStatement (table primaryKeyField : String) (fields : List String) : String :=
  let fnames := primaryKeyField :: fields
  let flabels := (":" ++ primaryKeyField) :: fields.map fun f => ":" ++ f
  "INSERT INTO `" ++ table ++ "` (" ++ ",".intercalate fnames ++ ") VALUES (" ++ ",".intercalate flabels ++ ")"

def buildUpdateStatement (table primaryKeyField : String) (fields : List String) : String :=
  let tmp := fields.map fun f => f ++ "=:" ++ f
  "UPDATE `" ++ table ++ "` SET " ++ ",".intercalate tmp ++ " WHERE " ++ primaryKeyField ++ "=:" ++ primaryKeyField

def buildDeleteStatement (table primaryKeyField : String) : String :=
  "DELETE FROM `" ++ table ++ "` WHERE " ++ primaryKeyField ++ "=:" ++ primaryKeyField

example : buildInsertStatement "tokens" "id" ["secret", "roles"] =
    "INSERT INTO `tokens` (id,secret,roles) VALUES (:id,:secret,:roles)" := by decide

example :
    buildUpdateStatement "tokens" "id" ["secret", "roles"] =
      "UPDATE `tokens` SET secret=:secret,roles=:roles WHERE id=:id" := by
  decide

/-! ## Lists with commas -/

section Commas

variable {g : String → List Char} {tok : String → List Token}

theorem delimited_commas {rest : List Char} (h : Delimited rest) : ∀ fields : List String,
    Delimited ((fields.flatMap fun f => ',' :: g f) ++ rest)
  | [] => h
  | _ :: _ => rfl

theorem lexes_commas : ∀ {fields : List String}, (∀ f ∈ fields, Lexes (g f) (tok f)) →
    Lexes (fields.flatMap fun f => ',' :: g f) (fields.flatMap fun f => .sym ',' :: tok f)
  | [], _ => .nil
  | f :: fields, h => by
    rw [List.flatMap_cons, List.flatMap_cons]
    refine (Lexes.sym rfl (h f (.head _))).append (lexes_commas fun f hf => h f (.tail _ hf)) fun rest hrest => ?_
    exact delimited_commas hrest fields

/-- The text of a list that is not empty. -/
theorem lexes_joined (f : String) (fields : List String) (h : ∀ f' ∈ f :: fields, Lexes (g f') (tok f')) :
    Lexes (g f ++ fields.flatMap fun f' => ',' :: g f') (tok f ++ fields.flatMap fun f' => .sym ',' :: tok f') :=
  (h f (.head _)).append (lexes_commas fun f' hf => h f' (.tail _ hf)) fun _ hrest => delimited_commas hrest fields

theorem toList_joined (f : String) (fields : List String) {s : String → String} (hs : ∀ f, (s f).toList = g f) :
    (",".intercalate ((f :: fields).map s)).toList = g f ++ fields.flatMap fun f' => ',' :: g f' := by
  have hmap : ((f :: fields).map s).map String.toList = g f :: fields.map g := by simp [Function.comp_def, hs]
  rw [String.toList_intercalate, hmap, intercalate_cons, List.flatMap_map]
  rfl

end Commas

/-! ## What the texts are -/

section Parse

variable {table pk : String} {fields : List String}

theorem columnNames_commas (rest : List Token) : ∀ (f : String) (fields : List String),
    columnNames (.word f :: ((fields.flatMap fun f => [.sym ',', .word f]) ++ .sym ')' :: rest)) =
      some (f :: fields, rest)
  | f, [] => rfl
  | f, f' :: fields => by
    rw [List.flatMap_cons, List.append_assoc, List.cons_append, List.cons_append, List.nil_append, columnNames,
      columnNames_commas rest f' fields]
    rfl

theorem paramNames_commas (rest : List Token) : ∀ (f : String) (fields : List String),
    paramNames (.param f :: ((fields.flatMap fun f => [.sym ',', .param f]) ++ .sym ')' :: rest)) =
      some (f :: fields, rest)
  | f, [] => rfl
  | f, f' :: fields => by
    rw [List.flatMap_cons, List.append_assoc, List.cons_append, List.cons_append, List.nil_append, paramNames,
      paramNames_commas rest f' fields]
    rfl

theorem assignments_commas (rest : List Token) : ∀ (f : String) (fields : List String),
    assignments (.word f :: .sym '=' :: .param f ::
      ((fields.flatMap fun f => [.sym ',', .word f, .sym '=', .param f]) ++ .word "WHERE" :: rest)) =
        some ((f :: fields).map fun f => (f, f), rest)
  | f, [] => rfl
  | f, f' :: fields => by
    have ih := assignments_commas rest f' fields
    simp only [List.flatMap_cons, List.cons_append, List.nil_append] at ih ⊢
    rw [assignments, ih]
    rfl

theorem lexes_assignment {f : String} (h : IsName f) :
    Lexes (f.toList ++ '=' :: ':' :: f.toList) [.word f, .sym '=', .param f] :=
  (Lexes.word h).append (Lexes.sym rfl (Lexes.param h)) fun _ _ => rfl

theorem toList_columns (f : String) (fields : List String) :
    (",".intercalate (f :: fields)).toList = f.toList ++ fields.flatMap fun f' => ',' :: f'.toList := by
  have h := toList_joined f fields (g := String.toList) (s := id) fun _ => rfl
  rwa [List.map_id] at h

theorem parse_buildInsertStatement (ht : IsName table) (hnames : ∀ f ∈ pk :: fields, IsName f) :
    parse (buildInsertStatement table pk fields) = some (.insert table (pk :: fields) (pk :: fields)) := by
  have hcolumns := lexes_joined pk fields fun f hf => Lexes.word (hnames f hf)
  have hlabels := lexes_joined pk fields fun f hf => Lexes.param (hnames f hf)
  have hlex := (Lexes.word (s := "INSERT") (by decide)).append
    ((Lexes.word (s := "INTO") (by decide)).append
      ((Lexes.quoted ht).append
        ((hcolumns.append
          ((((Lexes.word (s := "VALUES") (by decide)).append
            ((hlabels.append (Lexes.nil.sym (c := ')') rfl) fun _ _ => rfl).sym (c := '(') rfl).blank
            fun _ _ => rfl).blank).sym (c := ')') rfl)
          fun _ _ => rfl).sym (c := '(') rfl).blank
        fun _ _ => rfl).blank
      fun _ _ => rfl).blank
    fun _ _ => rfl
  have htext : buildInsertStatement table pk fields = "INSERT INTO `" ++ table ++ "` (" ++
    ",".intercalate (pk :: fields) ++
      ") VALUES (" ++ ",".intercalate ((pk :: fields).map fun f => ":" ++ f) ++ ")" := rfl
  have hlabelsText := toList_joined pk fields (g := fun f => ':' :: f.toList) (s := fun f => ":" ++ f) fun f => by simp
  rw [parse_of_lexes hlex]
  · simp only [parseTokens, List.cons_append, List.nil_append, columnNames_commas, paramNames_commas]
  · rw [htext]
    simp only [String.toList_append]
    rw [toList_columns, hlabelsText]
    simp only [List.append_assoc, List.cons_append]
    rfl

theorem parse_buildUpdateStatement (ht : IsName table) (hne : fields ≠ []) (hnames : ∀ f ∈ pk :: fields, IsName f) :
    parse (buildUpdateStatement table pk fields) = some (.update table (fields.map fun f => (f, f)) pk pk) := by
  obtain ⟨f, rest, rfl⟩ := List.exists_cons_of_ne_nil hne
  have hsets := lexes_joined f rest fun f' hf => lexes_assignment (hnames f' (.tail _ hf))
  have hlex := (Lexes.word (s := "UPDATE") (by decide)).append
    ((Lexes.quoted ht).append
      ((Lexes.word (s := "SET") (by decide)).append
        (hsets.append
          ((Lexes.word (s := "WHERE") (by decide)).append (lexes_assignment (hnames pk (.head _))).blank
            fun _ _ => rfl).blank
          fun _ _ => rfl).blank
        fun _ _ => rfl).blank
      fun _ _ => rfl).blank
    fun _ _ => rfl
  have htext : buildUpdateStatement table pk (f :: rest) = "UPDATE `" ++ table ++ "` SET " ++
      ",".intercalate ((f :: rest).map fun f => f ++ "=:" ++ f) ++ " WHERE " ++ pk ++ "=:" ++ pk := rfl
  have hsetsText :=
    toList_joined f rest (g := fun f => f.toList ++ '=' :: ':' :: f.toList) (s := fun f => f ++ "=:" ++ f)
    fun f => by simp
  rw [parse_of_lexes hlex]
  · simp only [parseTokens, List.cons_append, List.nil_append, assignments_commas]
  · rw [htext]
    simp only [String.toList_append]
    rw [hsetsText]
    simp only [List.append_assoc, List.cons_append]
    rfl

theorem parse_buildDeleteStatement (ht : IsName table) (hpk : IsName pk) :
    parse (buildDeleteStatement table pk) = some (.delete table pk pk) := by
  have hlex := (Lexes.word (s := "DELETE") (by decide)).append
    ((Lexes.word (s := "FROM") (by decide)).append
      ((Lexes.quoted ht).append
        ((Lexes.word (s := "WHERE") (by decide)).append (lexes_assignment hpk).blank fun _ _ => rfl).blank
        fun _ _ => rfl).blank
      fun _ _ => rfl).blank
    fun _ _ => rfl
  have htext : buildDeleteStatement table pk = "DELETE FROM `" ++ table ++ "` WHERE " ++ pk ++ "=:" ++ pk := rfl
  rw [parse_of_lexes hlex]
  · rfl
  · rw [htext]
    simp only [String.toList_append]
    simp only [List.append_assoc, List.cons_append]
    rfl

end Parse

end Wig.Crud
