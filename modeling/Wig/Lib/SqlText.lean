/-
The texts of statements: a lexer, as a machine that reads one character at a time, and a parser for
statements with named parameters.
-/
import Wig.Lib.Sql

namespace Wig.Lib.Sql

open String (ofList)

/-! ## Tokens -/

inductive Token where
  | word (s : String)
  | quoted (s : String)
  | param (s : String)
  | sym (c : Char)
  deriving DecidableEq

def isIdent (c : Char) : Bool := c.isAlphanum || c = '_'

/-- A name alone, or after the colon of a parameter. -/
def nameToken (colon : Bool) (s : String) : Token := if colon then .param s else .word s

/-- What of a token was read. -/
inductive Mode where
  | start
  | name (colon : Bool) (acc : List Char)
  | quoted (acc : List Char)

/-- The first character of a token. -/
def begin_ (c : Char) : Option (List Token × Mode) :=
  if c = ' ' then some ([], .start)
  else if c = '`' then some ([], .quoted [])
  else if c = ':' then some ([], .name true [])
  else if isIdent c then some ([], .name false [c])
  else if c ∈ ['(', ')', ',', '=', '*', '?'] then some ([.sym c], .start)
  else none

/-- One character more: the tokens that end before it or with it. -/
def Mode.step : Mode → Char → Option (List Token × Mode)
  | .start, c => begin_ c
  | .name colon acc, c =>
    if isIdent c then some ([], .name colon (acc ++ [c]))
    else (begin_ c).map fun x => (nameToken colon (ofList acc) :: x.1, x.2)
  | .quoted acc, c => if c = '`' then some ([.quoted (ofList acc)], .start) else some ([], .quoted (acc ++ [c]))

def Mode.close : Mode → Option (List Token)
  | .start => some []
  | .name colon acc => some [nameToken colon (ofList acc)]
  | .quoted _ => none

def lex : Mode → List Char → Option (List Token)
  | m, [] => m.close
  | m, c :: cs => (m.step c).bind fun x => (lex x.2 cs).map (x.1 ++ ·)

/-! ## The parser -/

/-- Names up to a closing bracket. -/
def columnNames : List Token → Option (List String × List Token)
  | .word n :: .sym ')' :: rest => some ([n], rest)
  | .word n :: .sym ',' :: rest => (columnNames rest).map fun x => (n :: x.1, x.2)
  | _ => none

def paramNames : List Token → Option (List String × List Token)
  | .param n :: .sym ')' :: rest => some ([n], rest)
  | .param n :: .sym ',' :: rest => (paramNames rest).map fun x => (n :: x.1, x.2)
  | _ => none

/-- Assignments up to the condition. -/
def assignments : List Token → Option (List (String × String) × List Token)
  | .word n :: .sym '=' :: .param p :: .word "WHERE" :: rest => some ([(n, p)], rest)
  | .word n :: .sym '=' :: .param p :: .sym ',' :: rest => (assignments rest).map fun x => ((n, p) :: x.1, x.2)
  | _ => none

def parseTokens : List Token → Option Statement
  | .word "INSERT" :: .word "INTO" :: .quoted table :: .sym '(' :: rest =>
    match columnNames rest with
    | some (columns, .word "VALUES" :: .sym '(' :: rest) =>
      match paramNames rest with
      | some (params, []) => some (.insert table columns params)
      | _ => none
    | _ => none
  | .word "UPDATE" :: .quoted table :: .word "SET" :: rest =>
    match assignments rest with
    | some (sets, [.word column, .sym '=', .param param]) => some (.update table sets column param)
    | _ => none
  | [.word "DELETE", .word "FROM", .quoted table, .word "WHERE", .word column, .sym '=', .param param] =>
    some (.delete table column param)
  | _ => none

def parse (text : String) : Option Statement := (lex .start text.toList).bind parseTokens

/-! ## Lexing piece by piece -/

/-- No name goes on here. -/
def Delimited : List Char → Prop
  | [] => True
  | c :: _ => isIdent c = false

/-- The characters are those of the tokens, whatever follows that does not go on with a name. -/
def Lexes (cs : List Char) (ts : List Token) : Prop :=
  ∀ rest, Delimited rest → lex .start (cs ++ rest) = (lex .start rest).map (ts ++ ·)

theorem Lexes.lex {cs : List Char} {ts : List Token} (h : Lexes cs ts) : Sql.lex .start cs = some ts := by
  have hnil := h [] trivial
  rw [List.append_nil] at hnil
  rw [hnil]
  simp [Sql.lex, Mode.close]

theorem parse_of_lexes {text : String} {cs : List Char} {ts : List Token} (h : Lexes cs ts) (htext : text.toList = cs) :
    parse text = parseTokens ts := by
  rw [parse, htext, h.lex]
  rfl

theorem Lexes.nil : Lexes [] [] := fun rest _ => by simp

theorem Lexes.append {a b : List Char} {ts us : List Token} (ha : Lexes a ts) (hb : Lexes b us)
    (hdelim : ∀ rest, Delimited rest → Delimited (b ++ rest)) : Lexes (a ++ b) (ts ++ us) := by
  intro rest hrest
  rw [List.append_assoc, ha _ (hdelim rest hrest), hb rest hrest, Option.map_map]
  simp [Function.comp_def]

theorem Lexes.blank {cs : List Char} {ts : List Token} (h : Lexes cs ts) : Lexes (' ' :: cs) ts := by
  intro rest hrest
  have hb : begin_ ' ' = some ([], .start) := rfl
  rw [List.cons_append, Sql.lex, Mode.step, hb, Option.bind_some, h rest hrest, Option.map_map]
  simp [Function.comp_def]

theorem Lexes.sym {c : Char} (hc : begin_ c = some ([.sym c], .start)) {cs : List Char}
    {ts : List Token} (h : Lexes cs ts) : Lexes (c :: cs) (.sym c :: ts) := by
  intro rest hrest
  rw [List.cons_append, Sql.lex, Mode.step, hc, Option.bind_some, h rest hrest, Option.map_map]
  simp [Function.comp_def]

theorem begin_of_isIdent {c : Char} (h : isIdent c = true) : begin_ c = some ([], .name false [c]) := by
  have h1 : c ≠ ' ' := by rintro rfl; exact absurd h (by decide)
  have h2 : c ≠ '`' := by rintro rfl; exact absurd h (by decide)
  have h3 : c ≠ ':' := by rintro rfl; exact absurd h (by decide)
  rw [begin_, if_neg h1, if_neg h2, if_neg h3, if_pos h]

theorem lex_name_append (colon : Bool) {rest : List Char} (hrest : Delimited rest) : ∀ (name acc : List Char),
    (∀ c ∈ name, isIdent c = true) →
    lex (.name colon acc) (name ++ rest) = (lex .start rest).map (nameToken colon (ofList (acc ++ name)) :: ·)
  | [], acc, _ => by
    cases rest with
    | nil => simp [lex, Mode.close]
    | cons c rest =>
      have hc : ¬ isIdent c = true := by rw [show isIdent c = false from hrest]; exact Bool.false_ne_true
      rw [List.nil_append, lex, Mode.step, if_neg hc, lex, Mode.step]
      cases begin_ c <;> simp [Function.comp_def]
  | c :: name, acc, h => by
    rw [List.cons_append, lex, Mode.step, if_pos (h c (.head _))]
    simp [lex_name_append colon hrest name (acc ++ [c]) fun c hc => h c (.tail _ hc), Function.comp_def]

theorem lex_quoted_append (rest : List Char) : ∀ (name acc : List Char), (∀ c ∈ name, isIdent c = true) →
    lex (.quoted acc) (name ++ '`' :: rest) = (lex .start rest).map (.quoted (ofList (acc ++ name)) :: ·)
  | [], acc, _ => by
    rw [List.nil_append, lex, Mode.step, if_pos rfl]
    simp
  | c :: name, acc, h => by
    have hc : c ≠ '`' := by rintro rfl; exact absurd (h _ (.head _)) (by decide)
    rw [List.cons_append, lex, Mode.step, if_neg hc]
    simp [lex_quoted_append rest name (acc ++ [c]) fun c hc => h c (.tail _ hc), Function.comp_def]

/-- A name: letters, digits and underscores. -/
def IsName (s : String) : Prop := s.toList ≠ [] ∧ ∀ c ∈ s.toList, isIdent c = true

instance (s : String) : Decidable (IsName s) :=
  decidable_of_iff ((!s.toList.isEmpty && s.toList.all isIdent) = true) (by simp [IsName])

theorem Lexes.word {s : String} (h : IsName s) : Lexes s.toList [.word s] := by
  intro rest hrest
  obtain ⟨c, name, hs⟩ := List.exists_cons_of_ne_nil h.1
  have hall := h.2
  rw [hs] at hall
  rw [hs, List.cons_append, Sql.lex, Mode.step, begin_of_isIdent (hall c (.head _)), Option.bind_some,
    lex_name_append false hrest name [c] fun c hc => hall c (.tail _ hc), Option.map_map]
  rw [List.singleton_append, ← hs, String.ofList_toList]
  rfl

theorem Lexes.param {s : String} (h : IsName s) : Lexes (':' :: s.toList) [.param s] := by
  intro rest hrest
  have hb : begin_ ':' = some ([], .name true []) := rfl
  rw [List.cons_append, Sql.lex, Mode.step, hb, Option.bind_some, lex_name_append true hrest s.toList [] h.2,
    Option.map_map]
  rw [List.nil_append, String.ofList_toList]
  rfl

theorem Lexes.quoted {s : String} (h : IsName s) : Lexes ('`' :: (s.toList ++ ['`'])) [.quoted s] := by
  intro rest _
  have hb : begin_ '`' = some ([], .quoted []) := rfl
  rw [List.cons_append, List.append_assoc, List.singleton_append, Sql.lex, Mode.step, hb, Option.bind_some,
    lex_quoted_append rest s.toList [] h.2, Option.map_map]
  rw [List.nil_append, String.ofList_toList]
  rfl

end Wig.Lib.Sql
