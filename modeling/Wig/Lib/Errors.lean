/-
Go's errors. An error is the chain of the values that unwrapping it gives, each a pointer to a value of some
type; `errors.Is` compares pointers and asks the `Is` methods, `errors.As` looks for a type. Values are
allocated at addresses that nothing in hand points to.
-/
import Mathlib.Data.List.Basic
import Mathlib.Order.MinMax

namespace Wig.Lib

/-- A pointer to a value of a type. -/
structure Ref (τ : Type) where
  type : τ
  addr : Nat
  deriving DecidableEq

/-- For each type of errors, the types of which its `Is` method accepts every value. -/
class ErrorTypes (τ : Type) where
  acceptsAll : τ → τ → Bool

/-- A value in the chain of an error: its text, and the single values its `Is` method accepts. -/
structure Link (τ : Type) where
  ref : Ref τ
  text : String
  accepts : List (Ref τ)

/-- An error is what unwrapping gives, from the outermost value on; `nil` is the empty chain. -/
abbrev Chain (τ : Type) := List (Link τ)

/-- What a function that allocates does to the next free address. -/
abbrev Alloc := StateM Nat

namespace Chain

variable {τ : Type}

/-- `Error()`. -/
def text : Chain τ → String
  | [] => ""
  | l :: _ => l.text

/-- A new value of a type around an error. -/
def alloc (type : τ) (text : String) (inner : Chain τ) : Alloc (Chain τ) :=
  fun n => (⟨⟨type, n⟩, text, []⟩ :: inner, n + 1)

/-- An address above all those that a chain mentions. -/
def bound : Chain τ → Nat
  | [] => 0
  | l :: err => max (max (l.ref.addr + 1) (l.accepts.foldr (fun r n => max (r.addr + 1) n) 0)) (bound err)

/-- Every address that the chain mentions is below `n`. -/
def Known (n : Nat) (err : Chain τ) : Prop := ∀ l ∈ err, l.ref.addr < n ∧ ∀ r ∈ l.accepts, r.addr < n

theorem Known.mono {n m : Nat} {err : Chain τ} (h : Known n err) (hnm : n ≤ m) : Known m err :=
  fun l hl => ⟨(h l hl).1.trans_le hnm, fun r hr => ((h l hl).2 r hr).trans_le hnm⟩

theorem lt_foldr_bound {r : Ref τ} : ∀ {l : List (Ref τ)}, r ∈ l → r.addr < l.foldr (fun r n => max (r.addr + 1) n) 0
  | _ :: _, .head _ => lt_max_of_lt_left (Nat.lt_succ_self _)
  | _ :: _, .tail _ h => lt_max_of_lt_right (lt_foldr_bound h)

theorem known_bound : ∀ err : Chain τ, Known err.bound err
  | [] => by simp [Known]
  | l :: err => by
    intro l' hl'
    cases hl' with
    | head =>
      refine ⟨lt_max_of_lt_left (lt_max_of_lt_left (Nat.lt_succ_self _)), fun r hr => ?_⟩
      exact lt_max_of_lt_left (lt_max_of_lt_right (lt_foldr_bound hr))
    | tail _ h => exact (known_bound err).mono (le_max_right _ _) l' h

variable [DecidableEq τ]

/-- `errors.As` with a pointer type: what the first value of the type wraps. -/
def as (type : τ) : Chain τ → Option (Chain τ)
  | [] => none
  | l :: err => if l.ref.type = type then some err else as type err

@[simp] theorem as_alloc_self (type : τ) (text : String) (inner : Chain τ) (n : Nat) :
    ((alloc type text inner).run n).1.as type = some inner := if_pos rfl

variable [ErrorTypes τ]

/-- The value is the target, or its `Is` method accepts it. -/
def matchesLink (target : Ref τ) (l : Link τ) : Bool :=
  l.ref = target || target ∈ l.accepts || ErrorTypes.acceptsAll l.ref.type target.type

/-- `errors.Is`. -/
def is (err : Chain τ) : Chain τ → Bool
  | [] => err.isEmpty
  | target :: _ => err.any (matchesLink target.ref)

/-- A new value is found in no chain made before it, unless an `Is` method takes all values of its type. -/
theorem not_is_alloc {n : Nat} {err : Chain τ} (h : Known n err) {type : τ}
    (hall : ∀ l ∈ err, ErrorTypes.acceptsAll l.ref.type type = false) (text : String) (inner : Chain τ) :
    err.is ((alloc type text inner).run n).1 = false := by
  show err.any (matchesLink ⟨type, n⟩) = false
  rw [List.any_eq_false]
  intro l hl
  obtain ⟨href, haccepts⟩ := h l hl
  have hne : l.ref ≠ ⟨type, n⟩ := fun heq => by
    rw [heq] at href
    exact Nat.lt_irrefl n href
  have hnot : (⟨type, n⟩ : Ref τ) ∉ l.accepts := fun hmem => Nat.lt_irrefl n (haccepts _ hmem)
  simp [matchesLink, hne, hnot, hall l hl]

end Chain

end Wig.Lib
