/-
Splitting a text at a character and joining the parts.
-/
import Mathlib.Tactic
import Mathlib.Data.String.Basic

namespace Wig.Lib

open String

/-- The scan of `splitOn` for a separator of one character: `l` is split off already, `m` is the part
being read, and `r` is still to come. -/
theorem splitOnAux_char (c : Char) (l m r : List Char) (acc : List String) :
    splitOnAux (ofList (l ++ m ++ r)) (ofList [c]) ⟨utf8Len l⟩ ⟨utf8Len l + utf8Len m⟩ 0 acc =
      acc.reverse ++ (List.splitOnPPrepend (· == c) r m.reverse).map ofList := by
  rw [splitOnAux.eq_def]
  have hget : Pos.Raw.get (ofList [c]) 0 = c := by simpa using get_of_valid [] [c]
  have hnext : Pos.Raw.next (ofList [c]) 0 = ⟨utf8Len [c]⟩ := by simpa using next_of_valid [] c []
  have hend : Pos.Raw.atEnd (ofList [c]) ⟨utf8Len [c]⟩ = true := by simpa using atEnd_of_valid [c] []
  cases r with
  | nil =>
    have hstop : Pos.Raw.atEnd (ofList (l ++ m ++ [])) ⟨utf8Len l + utf8Len m⟩ = true := by
      rw [← utf8Len_append]
      exact (atEnd_of_valid (l ++ m) []).2 rfl
    have hpart := extract_of_valid l m []
    rw [if_pos hstop, hpart]
    simp
  | cons d r =>
    have hstop : Pos.Raw.atEnd (ofList (l ++ m ++ d :: r)) ⟨utf8Len l + utf8Len m⟩ = false := by
      rw [Bool.eq_false_iff]
      intro h
      have hnil := (atEnd_of_valid (l ++ m) (d :: r)).1 (by rw [utf8Len_append]; exact h)
      cases hnil
    have hchar : Pos.Raw.get (ofList (l ++ m ++ d :: r)) ⟨utf8Len l + utf8Len m⟩ = d := by
      simpa [-ofList_append] using get_of_valid (l ++ m) (d :: r)
    have hmove : Pos.Raw.next (ofList (l ++ m ++ d :: r)) ⟨utf8Len l + utf8Len m⟩ =
        ⟨utf8Len l + utf8Len m + d.utf8Size⟩ := by
      simpa [-ofList_append] using next_of_valid (l ++ m) d r
    have hpart := extract_of_valid l m (d :: r)
    rw [hstop, if_neg Bool.false_ne_true, hchar, hget]
    by_cases hd : d = c
    · subst hd
      have ih := splitOnAux_char d (l ++ m ++ [d]) [] r (ofList m :: acc)
      have hback : (⟨utf8Len l + utf8Len m + d.utf8Size⟩ : Pos.Raw).unoffsetBy ⟨utf8Len [d]⟩ =
          ⟨utf8Len l + utf8Len m⟩ := by
        simp [Pos.Raw.unoffsetBy]
      rw [if_pos (beq_self_eq_true d)]
      simp only [hmove, hnext, hend, if_true, hback, hpart]
      simpa [-ofList_append, Nat.add_assoc, List.splitOnPPrepend_cons_eq_if] using ih
    · have ih := splitOnAux_char c l (m ++ [d]) r acc
      rw [if_neg (by simpa using hd)]
      have hsame : (⟨utf8Len l + utf8Len m⟩ : Pos.Raw).unoffsetBy 0 = ⟨utf8Len l + utf8Len m⟩ := by
        simp [Pos.Raw.unoffsetBy]
      rw [hsame, hmove]
      simpa [-ofList_append, Nat.add_assoc, List.splitOnPPrepend_cons_eq_if, hd] using ih

theorem splitOn_char (c : Char) (s : String) : s.splitOn (ofList [c]) = (List.splitOn c s.toList).map ofList := by
  have h := splitOnAux_char c [] [] s.toList []
  have hne : (ofList [c] == "") = false := by simp
  unfold splitOn
  rw [hne, if_neg Bool.false_ne_true]
  rw [List.splitOn_eq_splitOnP, List.splitOnP_eq_splitOnPPrepend]
  simpa using h

/-- Splitting a text at a character and joining the parts gives the text back. -/
theorem intercalate_splitOn (c : Char) (s : String) : (ofList [c]).intercalate (s.splitOn (ofList [c])) = s := by
  rw [← String.toList_inj, toList_intercalate, splitOn_char]
  simp [Function.comp_def, List.intercalate_splitOn]

/-- Joining parts without the character and splitting the text gives the parts back. -/
theorem splitOn_intercalate {c : Char} {parts : List String} (hc : ∀ s ∈ parts, c ∉ s.toList) (hne : parts ≠ []) :
    ((ofList [c]).intercalate parts).splitOn (ofList [c]) = parts := by
  have hsplit : ([c].intercalate (parts.map String.toList)).splitOn c = parts.map String.toList :=
    List.splitOn_intercalate c (by simpa using hc) (by simpa using hne)
  rw [splitOn_char, toList_intercalate, toList_ofList, hsplit, List.map_map]
  simp [Function.comp_def]

theorem not_mem_of_mem_splitOn_list (c : Char) : ∀ (l : List Char), ∀ part ∈ l.splitOn c, c ∉ part
  | [], part, h => by
    rw [List.splitOn_nil, List.mem_singleton] at h
    exact h ▸ List.not_mem_nil
  | a :: l, part, h => by
    have ih := not_mem_of_mem_splitOn_list c l
    rw [List.splitOn_cons_eq_if_modifyHead] at h
    split at h
    · rcases List.mem_cons.1 h with rfl | h
      · exact List.not_mem_nil
      · exact ih part h
    · rename_i hac
      have hne : c ≠ a := fun he => hac (by simp [he])
      obtain ⟨head, parts, hparts⟩ := List.exists_cons_of_ne_nil (List.splitOn_ne_nil c l)
      rw [hparts, List.modifyHead_cons] at h
      rw [hparts] at ih
      rcases List.mem_cons.1 h with rfl | h
      · exact List.not_mem_cons_of_ne_of_not_mem hne (ih head List.mem_cons_self)
      · exact ih part (List.mem_cons_of_mem _ h)

/-- No part of a text split at a character has the character. -/
theorem not_mem_of_mem_splitOn {c : Char} {s part : String} (h : part ∈ s.splitOn (ofList [c])) : c ∉ part.toList := by
  rw [splitOn_char] at h
  obtain ⟨l, hl, rfl⟩ := List.mem_map.1 h
  rw [toList_ofList]
  exact not_mem_of_mem_splitOn_list c s.toList l hl

theorem splitOn_ne_nil (c : Char) (s : String) : s.splitOn (ofList [c]) ≠ [] := by
  rw [splitOn_char]
  simp

theorem intercalate_cons {α : Type} (sep x : List α) (l : List (List α)) :
    sep.intercalate (x :: l) = x ++ l.flatMap (sep ++ ·) := by
  induction l generalizing x with
  | nil => simp [List.intercalate]
  | cons y l ih => simp [ih]

/-- A character that no part has, and that is not the one between them, is not in the text. -/
theorem not_mem_intercalate {α : Type} {c d : α} (hne : c ≠ d) : ∀ {parts : List (List α)}, (∀ part ∈ parts, c ∉ part) →
    c ∉ [d].intercalate parts
  | [], _ => List.not_mem_nil
  | part :: parts, h => by
    rw [intercalate_cons]
    simp only [List.mem_append, List.mem_flatMap, List.mem_singleton, not_or, not_exists, not_and]
    exact ⟨h part List.mem_cons_self, fun later hl => ⟨hne, h later (List.mem_cons_of_mem _ hl)⟩⟩

end Wig.Lib
