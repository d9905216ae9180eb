/-
Aligned blocks of numbers: those that share all bits but the lowest ones. Two blocks are one inside the other or
apart, and the smallest block around two of them is found from the highest bit in which they differ.
-/
import Mathlib.Data.Nat.Bitwise
import Mathlib.Data.Nat.Size
import Mathlib.Tactic

namespace Wig.Lib

/-! ## Agreement on the high bits -/

/-- Two numbers differ in their lowest `k` bits at most. -/
def AgreeAbove (k x y : Nat) : Prop := x / 2 ^ k = y / 2 ^ k

instance (k x y : Nat) : Decidable (AgreeAbove k x y) := inferInstanceAs (Decidable (_ = _))

/-- How many of the lowest bits there are up to the highest in which two numbers differ. -/
def diverge (x y : Nat) : Nat := (x ^^^ y).size

section

variable {k l x y z : Nat}

theorem agree_iff : AgreeAbove k x y ↔ diverge x y ≤ k := by
  rw [diverge, Nat.size_le, ← Nat.div_eq_zero_iff_lt (Nat.two_pow_pos k), Nat.xor_div_two_pow, Nat.xor_eq_zero_iff]
  rfl

theorem AgreeAbove.refl (k x : Nat) : AgreeAbove k x x := rfl

theorem AgreeAbove.symm (h : AgreeAbove k x y) : AgreeAbove k y x := Eq.symm h

theorem AgreeAbove.trans (h : AgreeAbove k x y) (h' : AgreeAbove k y z) : AgreeAbove k x z := Eq.trans h h'

theorem AgreeAbove.mono (h : AgreeAbove k x y) (hle : k ≤ l) :
    AgreeAbove l x y := agree_iff.2 ((agree_iff.1 h).trans hle)

theorem div_two_pow_eq (k x : Nat) : x / 2 ^ k = 2 * (x / 2 ^ (k + 1)) + (x.testBit k).toNat := by
  rw [Nat.pow_succ, ← Nat.div_div_eq_div_mul, Nat.testBit_eq_decide_div_mod_eq]
  rcases Nat.mod_two_eq_zero_or_one (x / 2 ^ k) with h | h
  · rw [h]
    simp only [Nat.zero_ne_one, decide_false, Bool.toNat_false]
    omega
  · rw [h]
    simp only [decide_true, Bool.toNat_true]
    omega

/-- One bit more. -/
theorem agree_succ : AgreeAbove k x y ↔ AgreeAbove (k + 1) x y ∧ x.testBit k = y.testBit k := by
  constructor
  · intro h
    refine ⟨h.mono (Nat.le_succ k), ?_⟩
    rw [Nat.testBit_eq_decide_div_mod_eq, Nat.testBit_eq_decide_div_mod_eq, show x / 2 ^ k = y / 2 ^ k from h]
  · rintro ⟨h, hbit⟩
    unfold AgreeAbove
    rw [div_two_pow_eq k x, div_two_pow_eq k y, hbit, show x / 2 ^ (k + 1) = y / 2 ^ (k + 1) from h]

theorem AgreeAbove.testBit (h : AgreeAbove k x y) {i : Nat} (hi : k ≤ i) : x.testBit i = y.testBit i :=
  (agree_succ.1 (h.mono hi)).2

/-- The highest bit in which two numbers differ. -/
theorem testBit_ne_of_diverge (h : diverge x y = k + 1) : x.testBit k ≠ y.testBit k := by
  intro hbit
  have hagree : AgreeAbove k x y := agree_succ.2 ⟨agree_iff.2 h.le, hbit⟩
  have hle := agree_iff.1 hagree
  omega

theorem diverge_eq_zero : diverge x y = 0 ↔ x = y := by
  rw [← Nat.le_zero, ← agree_iff, AgreeAbove, Nat.pow_zero, Nat.div_one, Nat.div_one]

/-- Numbers that differ in their high parts. -/
theorem diverge_mul_add_of_ne {m a b : Nat} (ha : a < 2 ^ m) (hb : b < 2 ^ m) (hne : x ≠ y) :
    diverge (x * 2 ^ m + a) (y * 2 ^ m + b) = m + diverge x y := by
  have hhigh : ∀ j, AgreeAbove (m + j) (x * 2 ^ m + a) (y * 2 ^ m + b) ↔ AgreeAbove j x y := fun j => by
    unfold AgreeAbove
    rw [Nat.pow_add, ← Nat.div_div_eq_div_mul, ← Nat.div_div_eq_div_mul, Nat.mul_comm x, Nat.mul_comm y,
      Nat.mul_add_div (Nat.two_pow_pos m), Nat.mul_add_div (Nat.two_pow_pos m),
      Nat.div_eq_of_lt ha, Nat.div_eq_of_lt hb]
    rfl
  obtain ⟨j, hj⟩ := Nat.exists_eq_succ_of_ne_zero (mt diverge_eq_zero.1 hne)
  refine le_antisymm (agree_iff.1 ((hhigh _).2 (agree_iff.2 le_rfl))) ?_
  have hnot : ¬ AgreeAbove (m + j) (x * 2 ^ m + a) (y * 2 ^ m + b) := fun h => by
    have hle := agree_iff.1 ((hhigh j).1 h)
    omega
  rw [agree_iff] at hnot
  omega

/-- Numbers with the same high part. -/
theorem diverge_mul_add_self {m a b : Nat} (ha : a < 2 ^ m) (hb : b < 2 ^ m) (x : Nat) :
    diverge (x * 2 ^ m + a) (x * 2 ^ m + b) = diverge a b := by
  refine eq_of_forall_ge_iff fun k => ?_
  rw [← agree_iff, ← agree_iff]
  unfold AgreeAbove
  rcases le_total m k with hle | hle
  · obtain ⟨j, rfl⟩ := Nat.exists_eq_add_of_le hle
    rw [Nat.pow_add, ← Nat.div_div_eq_div_mul, ← Nat.div_div_eq_div_mul, ← Nat.div_div_eq_div_mul,
      ← Nat.div_div_eq_div_mul, Nat.mul_comm x, Nat.mul_add_div (Nat.two_pow_pos m),
      Nat.mul_add_div (Nat.two_pow_pos m), Nat.div_eq_of_lt ha, Nat.div_eq_of_lt hb]
    simp
  · have hdvd : 2 ^ k ∣ x * 2 ^ m := Dvd.dvd.mul_left (Nat.pow_dvd_pow 2 hle) x
    rw [Nat.add_div_of_dvd_right hdvd, Nat.add_div_of_dvd_right hdvd, Nat.add_right_inj]

theorem agree_clear (k x : Nat) : AgreeAbove k (x / 2 ^ k * 2 ^ k) x := Nat.mul_div_cancel _ (Nat.two_pow_pos k)

end

/-! ## Blocks -/

/-- A number whose lowest bits are zero, for all numbers that differ from it in those bits only. -/
@[ext] structure Block where
  low : Nat
  number : Nat
  aligned : 2 ^ low ∣ number
  deriving DecidableEq

namespace Block

/-- The number is in the block. -/
def Contains (b : Block) (x : Nat) : Prop := AgreeAbove b.low x b.number

instance (b : Block) (x : Nat) : Decidable (b.Contains x) := inferInstanceAs (Decidable (AgreeAbove _ _ _))

/-- The first block is the second or a part of it. -/
def Within (b c : Block) : Prop := b.low ≤ c.low ∧ AgreeAbove c.low b.number c.number

instance (b c : Block) : Decidable (b.Within c) := inferInstanceAs (Decidable (_ ∧ _))

/-- The block of a size around a number. -/
def around (k x : Nat) : Block := ⟨k, x / 2 ^ k * 2 ^ k, Dvd.intro_left _ rfl⟩

/-- The smallest block around two. -/
def join (b c : Block) : Block := around (max (max b.low c.low) (diverge b.number c.number)) b.number

variable {b c d : Block} {k x : Nat}

theorem eq_of_agree (hlow : b.low = c.low) (h : AgreeAbove b.low b.number c.number) : b = c := by
  refine Block.ext hlow ?_
  have hb := Nat.div_mul_cancel b.aligned
  have hc := Nat.div_mul_cancel c.aligned
  rw [← hb, ← hc, ← hlow, show b.number / 2 ^ b.low = c.number / 2 ^ b.low from h]

@[simp] theorem around_low (k x : Nat) : (around k x).low = k := rfl

theorem agree_around (k x : Nat) : AgreeAbove k (around k x).number x := agree_clear k x

/-- A number is in a block if it is the block's own without its low bits. -/
theorem clear_eq_iff : x / 2 ^ c.low * 2 ^ c.low = c.number ↔ c.Contains x := by
  constructor
  · intro h
    have hagree := (agree_clear c.low x).symm
    rw [h] at hagree
    exact hagree
  · intro h
    exact congrArg number (eq_of_agree (b := around c.low x) (c := c) rfl ((agree_around c.low x).trans h))

theorem Within.refl (b : Block) : b.Within b := ⟨le_rfl, .refl _ _⟩

theorem Within.trans (h : b.Within c) (h' : c.Within d) : b.Within d :=
  ⟨h.1.trans h'.1, (h.2.mono h'.1).trans h'.2⟩

theorem Within.contains (h : b.Within c) (hx : b.Contains x) : c.Contains x := (AgreeAbove.mono hx h.1).trans h.2

theorem Within.antisymm (h : b.Within c) (h' : c.Within b) : b = c := by
  have hlow : b.low = c.low := le_antisymm h.1 h'.1
  exact eq_of_agree hlow (hlow ▸ h.2)

theorem within_join_left (b c : Block) : b.Within (b.join c) :=
  ⟨(le_max_left _ _).trans (le_max_left _ _), (agree_around _ _).symm⟩

theorem within_join_right (b c : Block) : c.Within (b.join c) := by
  refine ⟨(le_max_right _ _).trans (le_max_left _ _), ?_⟩
  have hagree : AgreeAbove (b.join c).low b.number c.number := agree_iff.2 (le_max_right _ _)
  exact hagree.symm.trans (agree_around _ _).symm

/-- No smaller block has both inside. -/
theorem join_within (hb : b.Within d) (hc : c.Within d) : (b.join c).Within d := by
  refine ⟨max_le (max_le hb.1 hc.1) (agree_iff.1 (hb.2.trans hc.2.symm)), ?_⟩
  have hle : (b.join c).low ≤ d.low := max_le (max_le hb.1 hc.1) (agree_iff.1 (hb.2.trans hc.2.symm))
  exact ((agree_around _ _).mono hle).trans hb.2

/-- The join with a block that is not around is larger than the block. -/
theorem low_lt_join (h : ¬ b.Within c) : c.low < (b.join c).low := by
  refine lt_of_le_of_ne (within_join_right b c).1 fun hlow => h ?_
  have heq : c = b.join c := eq_of_agree hlow (hlow ▸ (within_join_right b c).2)
  rw [heq]
  exact within_join_left b c

/-- Around a number the join is found from the number itself. -/
theorem join_around (k x : Nat) (c : Block) :
    (around k x).join c = around (max (max k c.low) (diverge x c.number)) x := by
  have hiff : ∀ j, max (max k c.low) (diverge (around k x).number c.number) ≤ j ↔
      max (max k c.low) (diverge x c.number) ≤ j := fun j => by
    simp only [max_le_iff, ← agree_iff]
    refine and_congr_right fun hj => ?_
    have hx : AgreeAbove j (around k x).number x := (agree_around k x).mono hj.1
    exact ⟨hx.symm.trans, hx.trans⟩
  have hlow : max (max k c.low) (diverge (around k x).number c.number) = max (max k c.low) (diverge x c.number) :=
    eq_of_forall_ge_iff hiff
  refine eq_of_agree hlow ?_
  show AgreeAbove (max (max k c.low) (diverge (around k x).number c.number)) _ _
  rw [hlow]
  have hk : k ≤ max (max k c.low) (diverge x c.number) := le_trans (le_max_left _ _) (le_max_left _ _)
  unfold join
  rw [around_low, hlow]
  exact ((agree_around _ _).trans ((agree_around k x).mono hk)).trans (agree_around _ _).symm

theorem join_eq_right (h : b.Within c) : b.join c = c :=
  (join_within h (Within.refl c)).antisymm (within_join_right b c)

/-- Blocks that are apart are in different halves of the smallest block around them. -/
theorem testBit_join_ne (hb : b.join c ≠ b) (hc : b.join c ≠ c) :
    ∃ k, (b.join c).low = k + 1 ∧ b.number.testBit k ≠ c.number.testBit k := by
  have hlow : (b.join c).low = diverge b.number c.number := by
    refine max_eq_right ?_
    by_contra hlt
    have hlow : (b.join c).low = max b.low c.low := max_eq_left (by omega)
    rcases max_choice b.low c.low with hmax | hmax
    · exact hb (eq_of_agree (hlow.trans hmax) (agree_around _ _))
    · have hagree : AgreeAbove (b.join c).low (b.join c).number c.number := ((within_join_right b c).2).symm
      exact hc (eq_of_agree (hlow.trans hmax) hagree)
  have hpos : (b.join c).low ≠ 0 := by
    intro hzero
    have hle := (within_join_left b c).1
    exact hb (eq_of_agree (by omega) (agree_around _ _))
  obtain ⟨k, hk⟩ := Nat.exists_eq_succ_of_ne_zero hpos
  exact ⟨k, hk, testBit_ne_of_diverge (hlow.symm.trans hk)⟩

end Block

end Wig.Lib
