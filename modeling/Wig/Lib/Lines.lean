/-
Reading a stream line by line, with room for a limited number of symbols. The reading ends at a line that
does not fit.
-/
import Mathlib.Tactic

namespace Wig.Lib

variable {α : Type} [DecidableEq α] (nl cr : α) (limit : Nat)

/-- A line without the carriage return at its end. -/
def dropCR (line : List α) : List α := if line.getLast? = some cr then line.dropLast else line

/-- The lines of a stream, of which `line` was read already. Nothing more is read once there are
`limit` symbols and no end of line; what is left at the end of the stream is a line. -/
def scanLines (line : List α) : List α → List (List α)
  | [] => if line = [] then [] else [dropCR cr line]
  | b :: bs =>
    if b = nl then dropCR cr line :: scanLines [] bs
    else if line.length + 1 < limit then scanLines (line ++ [b]) bs
    else []

theorem dropCR_of_not_mem {cr : α} {line : List α} (h : cr ∉ line) : dropCR cr line = line :=
  if_neg fun hlast => h (List.mem_of_getLast? hlast)

variable {nl cr limit}

/-- A line that fits is read, up to its end. -/
theorem scanLines_line : ∀ (xs : List α) {line rest : List α}, nl ∉ xs → line.length + xs.length < limit →
    scanLines nl cr limit line (xs ++ nl :: rest) = dropCR cr (line ++ xs) :: scanLines nl cr limit [] rest
  | [], line, rest, _, _ => by rw [List.nil_append, scanLines, if_pos rfl, List.append_nil]
  | x :: xs, line, rest, hnl, hfits => by
    rw [List.mem_cons, not_or] at hnl
    rw [List.length_cons] at hfits
    have hnext : (line ++ [x]).length + xs.length < limit := by
      rw [List.length_append, List.length_singleton]
      omega
    rw [List.cons_append, scanLines, if_neg (Ne.symm hnl.1), if_pos (by omega),
      scanLines_line xs hnl.2 hnext, List.append_assoc, List.singleton_append]

/-- A line that does not fit is the end of the reading. -/
theorem scanLines_long :
    ∀ (xs : List α) {line rest : List α}, nl ∉ xs → line.length < limit → limit ≤ line.length + xs.length →
    scanLines nl cr limit line (xs ++ rest) = []
  | [], line, rest, _, hroom, hlong => by
    rw [List.length_nil] at hlong
    omega
  | x :: xs, line, rest, hnl, hroom, hlong => by
    rw [List.mem_cons, not_or] at hnl
    rw [List.length_cons] at hlong
    rw [List.cons_append, scanLines, if_neg (Ne.symm hnl.1)]
    by_cases hnext : line.length + 1 < limit
    · rw [if_pos hnext]
      refine scanLines_long xs hnl.2 ?_ ?_ <;> rw [List.length_append, List.length_singleton] <;> omega
    · rw [if_neg hnext]

end Wig.Lib
