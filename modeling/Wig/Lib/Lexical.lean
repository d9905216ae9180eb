/-
Texts compared character by character, against the numbers they are written for. Decimal digits of
one width compare as numbers, also when the zeros at the end are left out, provided that what comes
after them is below every digit. Numbers compare by the cells they lie in, and then within a cell.
-/
import Mathlib.Tactic
import Mathlib.Data.List.Lex
import Mathlib.Data.Char

namespace Wig.Lib

/-! ## Cells -/

/-- Two numbers in cells of which no two overlap compare as the cells do, and within one cell as they are. -/
theorem lex_iff_of_cells {ι β : Type} [LinearOrder ι] [LinearOrder β] {start next : ι → β}
    (hcells : ∀ {i j}, i < j → next i ≤ start j) {i j : ι} {n m : β} (hn : start i ≤ n ∧ n < next i)
    (hm : start j ≤ m ∧ m < next j) {P : Prop} : (n < m ∨ n = m ∧ P) ↔ i < j ∨ i = j ∧ (n < m ∨ n = m ∧ P) := by
  rcases lt_trichotomy i j with hlt | rfl | hgt
  · exact iff_of_true (.inl (hn.2.trans_le ((hcells hlt).trans hm.1))) (.inl hlt)
  · simp
  · have hmn : m < n := hm.2.trans_le ((hcells hgt).trans hn.1)
    refine iff_of_false ?_ ?_
    · rintro (h | ⟨h, -⟩)
      · exact h.not_gt hmn
      · exact hmn.ne' h
    · rintro (h | ⟨h, -⟩)
      · exact h.not_gt hgt
      · exact hgt.ne' h

/-- The number of starts, after the first, that a number has passed is the cell that it is in. -/
theorem cell_of_count {start : Nat → Nat} (hcells : ∀ {i j}, i < j → start (i + 1) ≤ start j) {y : Nat}
    (h0 : start 0 ≤ y) (n : Nat) :
    ((List.range n).filter fun k => start (k + 1) ≤ y).length ≤ n ∧
      start ((List.range n).filter fun k => start (k + 1) ≤ y).length ≤ y ∧
      (((List.range n).filter fun k => start (k + 1) ≤ y).length < n →
        y < start (((List.range n).filter fun k => start (k + 1) ≤ y).length + 1)) := by
  induction n with
  | zero => exact ⟨le_rfl, h0, fun h => absurd h (Nat.lt_irrefl _)⟩
  | succ n ih =>
    obtain ⟨hle, hstart, hnext⟩ := ih
    rw [List.range_succ, List.filter_append, List.length_append]
    generalize ((List.range n).filter fun k => start (k + 1) ≤ y).length = c at hle hstart hnext ⊢
    by_cases hn : start (n + 1) ≤ y
    · -- a number that has passed this start has passed all before it
      have hall : c = n := by
        by_contra hne
        have hlt : c < n := lt_of_le_of_ne hle hne
        have hbefore : start (c + 1) ≤ start (n + 1) := hcells (by omega)
        have hy := hnext hlt
        omega
      have hlast : ([n].filter fun k => start (k + 1) ≤ y).length = 1 := by simp [hn]
      rw [hlast, hall]
      exact ⟨le_rfl, hn, fun h => absurd h (Nat.lt_irrefl _)⟩
    · have hlast : ([n].filter fun k => start (k + 1) ≤ y).length = 0 := by simpa using hn
      rw [hlast, Nat.add_zero]
      refine ⟨by omega, hstart, fun _ => ?_⟩
      rcases hle.lt_or_eq with hlt | rfl
      · exact hnext hlt
      · exact not_le.1 hn

/-! ## Digits -/

/-- The last digits of a number, as many as the width. -/
def digits : Nat → Nat → List Char
  | 0, _ => []
  | w + 1, n => digits w (n / 10) ++ [Nat.digitChar (n % 10)]

theorem digitChar_lt_iff : ∀ a < 10, ∀ b < 10, Nat.digitChar a < Nat.digitChar b ↔ a < b := by decide

theorem digitChar_inj : ∀ a < 10, ∀ b < 10, Nat.digitChar a = Nat.digitChar b ↔ a = b := by decide

theorem zero_le_digitChar : ∀ a < 10, '0' ≤ Nat.digitChar a := by decide

@[simp] theorem digits_length : ∀ w n : Nat, (digits w n).length = w
  | 0, _ => rfl
  | w + 1, n => by rw [digits, List.length_append, digits_length w, List.length_singleton]

theorem zero_le_of_mem_digits {c : Char} : ∀ {w n : Nat}, c ∈ digits w n → '0' ≤ c
  | w + 1, n, h => by
    rw [digits, List.mem_append, List.mem_singleton] at h
    rcases h with h | rfl
    · exact zero_le_of_mem_digits h
    · exact zero_le_digitChar _ (Nat.mod_lt _ (by decide))

/-- Texts that start with numbers of one width compare as the numbers, and then as what follows. -/
theorem digits_append_lt : ∀ {w n m : Nat} {x y : List Char}, n < 10 ^ w → m < 10 ^ w →
    (digits w n ++ x < digits w m ++ y ↔ n < m ∨ n = m ∧ x < y)
  | 0, n, m, x, y, hn, hm => by
    have hn : n = 0 := by simpa using hn
    have hm : m = 0 := by simpa using hm
    subst hn hm
    simp [digits]
  | w + 1, n, m, x, y, hn, hm => by
    rw [Nat.pow_succ] at hn hm
    have hdigit : ∀ k, k % 10 < 10 := fun k => Nat.mod_lt k (by decide)
    rw [digits, digits, List.append_assoc, List.append_assoc, digits_append_lt (by omega) (by omega),
      List.singleton_append, List.singleton_append, List.cons_lt_cons_iff, digitChar_lt_iff _ (hdigit n) _ (hdigit m),
      digitChar_inj _ (hdigit n) _ (hdigit m)]
    constructor
    · rintro (h | ⟨h, h' | ⟨h', hxy⟩⟩)
      · exact .inl (by omega)
      · exact .inl (by omega)
      · exact .inr ⟨by omega, hxy⟩
    · rintro (h | ⟨rfl, hxy⟩)
      · by_cases hq : n / 10 = m / 10
        · exact .inr ⟨hq, .inl (by omega)⟩
        · exact .inl (by omega)
      · exact .inr ⟨rfl, .inr ⟨rfl, hxy⟩⟩

theorem digits_lt {w n m : Nat} (hn : n < 10 ^ w) (hm : m < 10 ^ w) : digits w n < digits w m ↔ n < m := by
  have h := digits_append_lt (x := []) (y := []) hn hm
  simpa using h

theorem digits_inj {w n m : Nat} (hn : n < 10 ^ w) (hm : m < 10 ^ w) : digits w n = digits w m ↔ n = m := by
  refine ⟨fun h => ?_, fun h => by rw [h]⟩
  have hnm := (digits_lt hn hm).not.1 (by rw [h]; exact List.lt_irrefl _)
  have hmn := (digits_lt hm hn).not.1 (by rw [h]; exact List.lt_irrefl _)
  omega

/-! ## Zeros at the end -/

section Trim

variable {α : Type} [LinearOrder α]

/-- A list without the `z` at its end. -/
def trimEnd (z : α) : List α → List α
  | [] => []
  | a :: l => if trimEnd z l = [] ∧ a = z then [] else a :: trimEnd z l

/-- A text whose first character is below `z`. -/
def HeadBelow (z : α) (l : List α) : Prop := ∃ a r, l = a :: r ∧ a < z

theorem HeadBelow.mono {z z' : α} {x : List α} (hx : HeadBelow z x) (h : z ≤ z') : HeadBelow z' x := by
  obtain ⟨a, r, rfl, ha⟩ := hx
  exact ⟨a, r, rfl, ha.trans_le h⟩

theorem HeadBelow.lt_cons {z a : α} {x l : List α} (hx : HeadBelow z x) (ha : z ≤ a) : x < a :: l := by
  obtain ⟨b, r, rfl, hb⟩ := hx
  exact List.cons_lt_cons_iff.2 (.inl (hb.trans_le ha))

theorem mem_of_mem_trimEnd {z a : α} : ∀ {l : List α}, a ∈ trimEnd z l → a ∈ l
  | b :: l, h => by
    rw [trimEnd] at h
    split at h
    · cases h
    · rcases List.mem_cons.1 h with rfl | h
      · exact .head _
      · exact .tail _ (mem_of_mem_trimEnd h)

theorem HeadBelow.lt_trimEnd {z : α} {x y l : List α} (hx : HeadBelow z x) (hl : ∀ a ∈ l, z ≤ a)
    (hne : trimEnd z l ≠ []) : x < trimEnd z l ++ y := by
  obtain ⟨a, r, har⟩ := List.exists_cons_of_ne_nil hne
  have ha : a ∈ l := mem_of_mem_trimEnd (har ▸ List.mem_cons_self)
  rw [har]
  exact hx.lt_cons (hl a ha)

/-- What is left out does not matter to the order, since what follows is below it. -/
theorem trimEnd_append_lt {z : α} {x y : List α} (hx : HeadBelow z x) (hy : HeadBelow z y) :
    ∀ {l l' : List α}, l.length = l'.length → (∀ a ∈ l, z ≤ a) → (∀ a ∈ l', z ≤ a) →
      (trimEnd z l ++ x < trimEnd z l' ++ y ↔ l < l' ∨ l = l' ∧ x < y)
  | [], [], _, _, _ => by simp [trimEnd]
  | a :: l, b :: l', hlen, hl, hl' => by
    have htail : ∀ c ∈ l, z ≤ c := fun c hc => hl c (.tail _ hc)
    have htail' : ∀ c ∈ l', z ≤ c := fun c hc => hl' c (.tail _ hc)
    have ha := hl a (.head _)
    have hb := hl' b (.head _)
    have hcons : (a :: l < b :: l' ∨ a :: l = b :: l' ∧ x < y) ↔ a < b ∨ a = b ∧ (l < l' ∨ l = l' ∧ x < y) := by
      rw [List.cons_lt_cons_iff, List.cons_eq_cons]
      tauto
    rw [hcons, ← trimEnd_append_lt hx hy (Nat.succ.inj hlen) htail htail', trimEnd, trimEnd]
    by_cases hleft : trimEnd z l = [] ∧ a = z <;> by_cases hright : trimEnd z l' = [] ∧ b = z
    · rw [if_pos hleft, if_pos hright, hleft.1, hright.1, hleft.2, hright.2]
      simp
    · -- the left text is over, and goes on below `z`
      rw [if_pos hleft, if_neg hright, hleft.1, hleft.2]
      refine iff_of_true (hx.lt_cons hb) ?_
      rcases hb.lt_or_eq with hlt | rfl
      · exact .inl hlt
      · exact .inr ⟨rfl, hx.lt_trimEnd htail' fun hnil => hright ⟨hnil, rfl⟩⟩
    · rw [if_neg hleft, if_pos hright, hright.1, hright.2]
      refine iff_of_false (List.lt_asymm (hy.lt_cons ha)) ?_
      rintro (hlt | ⟨rfl, hlt⟩)
      · exact hlt.not_ge ha
      · exact List.lt_asymm hlt (hy.lt_trimEnd htail fun hnil => hleft ⟨hnil, rfl⟩)
    · rw [if_neg hleft, if_neg hright]
      exact List.cons_lt_cons_iff

end Trim

end Wig.Lib
