/-
What the parts of the datastore share: the errors their functions return, instants, and the JSON
documents they exchange. A document stands for its text, whose layer is the one of `encoding/json`.
-/
import Mathlib.Tactic

namespace Wig

/-- The errors of the program and of the libraries below it, one for each place that makes one. -/
inductive Error where
  -- crud
  | unknownType
  | readonly
  -- crudlog
  | invalidOpType
  | horizon
  | outOfSequence
  -- database/sql and SQLite
  | highBit
  | uniqueConstraint
  | foreignKey
  | syntaxError
  | commit
  | ioError
  | noRows
  -- encoding
  | json
  | parseCIDR
  | parseKey
  -- gateway
  | interfaceExists
  | interfaceMissing
  | noIPs
  -- registration
  | poolExhausted
  -- wgctrl and netlink
  | notExist
  | invalidAllowedIP
  | linkNameEmpty
  | netlink
  deriving DecidableEq, Repr

/-- `time.Time`: an instant in nanoseconds from the Unix epoch, and the offset from UTC, in seconds,
of the zone it is written in. -/
structure Time where
  unixNano : Int
  offset : Int
  deriving DecidableEq, Repr

/-- The zero `time.Time`: the first instant of year 1. -/
def Time.zero : Time := ⟨-62135596800 * 10 ^ 9, 0⟩

/-- `Time.Before` compares the instants. -/
def Time.before (t u : Time) : Bool := decide (t.unixNano < u.unixNano)

/-- `Time.Add`, of a duration in nanoseconds. -/
def Time.add (t : Time) (d : Int) : Time := { t with unixNano := t.unixNano + d }

/-- A JSON document. `time` is a string with the RFC 3339 form of an instant, and `bytes` the
base64 string of a byte slice that itself holds a document. -/
inductive Json where
  | null
  | num (n : Int)
  | str (s : String)
  | time (t : Time)
  | bytes (doc : Json)
  | arr (items : List Json)
  | obj (fields : List (String × Json))

namespace Json

/-- A letter without its case; the long s and the Kelvin sign fold to letters as well. -/
def foldChar (c : Char) : Char :=
  if c = Char.ofNat 0x17F then 's' else if c = Char.ofNat 0x212A then 'k' else c.toLower

/-- A key names a field whatever its case. -/
def sameName (key name : String) : Bool := key.toList.map foldChar == name.toList.map foldChar

/-- The values of the keys that name a field, in the order of the document. -/
def field (name : String) : Json → List Json
  | .obj fields => (fields.filter fun f => sameName f.1 name).map Prod.snd
  | _ => []

@[simp] theorem field_nil (name : String) : (Json.obj []).field name = [] := rfl

theorem field_cons (name key : String) (x : Json) (fields : List (String × Json)) :
    (Json.obj ((key, x) :: fields)).field name =
    if sameName key name then x :: (Json.obj fields).field name else (Json.obj fields).field name := by
  simp only [field, List.filter_cons]
  split <;> rfl

/-- What a struct is decoded from: an object, or `null`, which sets no field. -/
def decodeStruct : Json → Except Error Json
  | .obj fields => .ok (.obj fields)
  | .null => .ok (.obj [])
  | _ => .error .json

@[simp] theorem decodeStruct_obj (fields : List (String × Json)) : (Json.obj fields).decodeStruct = .ok (.obj fields) :=
  rfl

/-- The values are decoded one after the other into a destination; `null` leaves a string, a number or a
time as it is, and makes a pointer or a slice nil. -/
def decodeInto {α : Type} (into : α → Json → Except Error α) (zero : α) (values : List Json) : Except Error α :=
  values.foldlM into zero

@[simp] theorem decodeInto_nil {α : Type} (into : α → Json → Except Error α) (zero : α) :
    decodeInto into zero [] = .ok zero := rfl

@[simp] theorem decodeInto_singleton {α : Type} (into : α → Json → Except Error α) (zero : α) (x : Json) :
    decodeInto into zero [x] = into zero x := by
  unfold decodeInto
  rw [List.foldlM_cons]
  cases into zero x <;> rfl

def stringInto (s : String) : Json → Except Error String
  | .null => .ok s
  | .str s' => .ok s'
  | _ => .error .json

def decodeString : List Json → Except Error String := decodeInto stringInto ""

/-- A Go `int`; a number outside its range is refused. -/
def intInto (n : Int64) : Json → Except Error Int64
  | .null => .ok n
  | .num m => if -2 ^ 63 ≤ m ∧ m < 2 ^ 63 then .ok (Int64.ofInt m) else .error .json
  | _ => .error .json

def decodeInt : List Json → Except Error Int64 := decodeInto intInto 0

def timeInto (t : Time) : Json → Except Error Time
  | .null => .ok t
  | .time t' => .ok t'
  | _ => .error .json

def decodeTime : List Json → Except Error Time := decodeInto timeInto Time.zero

def stringsInto (_ : Option (List String)) : Json → Except Error (Option (List String))
  | .null => .ok none
  | .arr items => (items.mapM fun x => decodeString [x]).map some
  | _ => .error .json

def decodeStrings : List Json → Except Error (Option (List String)) := decodeInto stringsInto none

@[simp] theorem decodeString_str (s : String) : decodeString [.str s] = .ok s := rfl

@[simp] theorem decodeTime_time (t : Time) : decodeTime [.time t] = .ok t := rfl

@[simp] theorem decodeInt_toInt (n : Int64) : decodeInt [.num n.toInt] = .ok n := by
  have hlo := Int64.le_toInt n
  have hhi := Int64.toInt_lt n
  rw [decodeInt, decodeInto_singleton, intInto, if_pos ⟨hlo, hhi⟩, Int64.ofInt_toInt]

theorem mapM_decodeString : ∀ l : List String,
    ((l.map Json.str).mapM fun x => decodeString [x]) = (.ok l : Except Error (List String))
  | [] => rfl
  | s :: l => by
    rw [List.map_cons, List.mapM_cons, mapM_decodeString l]
    rfl

end Json

end Wig
