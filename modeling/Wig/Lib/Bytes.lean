/-
Byte strings as numbers, most significant byte first: the value of a string, the string of a given
length with a given value, and clearing or setting the low bits of a value byte by byte.
-/
import Mathlib.Data.Nat.Digits.Lemmas
import Mathlib.Tactic

namespace Wig.Lib

/-! ## Values -/

/-- The value of a byte string. -/
def ofBytes (bs : List UInt8) : Nat := Nat.ofDigits 256 (bs.reverse.map UInt8.toNat)

@[simp] theorem ofBytes_nil : ofBytes [] = 0 := rfl

theorem ofBytes_concat (bs : List UInt8) (b : UInt8) : ofBytes (bs ++ [b]) = 256 * ofBytes bs + b.toNat := by
  unfold ofBytes
  rw [List.reverse_append, List.reverse_singleton, List.singleton_append, List.map_cons, Nat.ofDigits_cons]
  omega

theorem ofBytes_append (as bs : List UInt8) : ofBytes (as ++ bs) = ofBytes as * 256 ^ bs.length + ofBytes bs := by
  unfold ofBytes
  rw [List.reverse_append, List.map_append, Nat.ofDigits_append, List.length_map, List.length_reverse,
    Nat.mul_comm, Nat.add_comm]

theorem ofBytes_cons (b : UInt8) (bs : List UInt8) : ofBytes (b :: bs) = b.toNat * 256 ^ bs.length + ofBytes bs := by
  rw [← List.singleton_append, ofBytes_append]
  rfl

theorem digit_lt (bs : List UInt8) : ∀ x ∈ bs.reverse.map UInt8.toNat, x < 256 := by
  intro x hx
  obtain ⟨b, -, rfl⟩ := List.mem_map.1 hx
  exact b.toNat_lt

theorem ofBytes_lt (bs : List UInt8) : ofBytes bs < 256 ^ bs.length := by
  have h := Nat.ofDigits_lt_base_pow_length (b := 256) (by decide) (digit_lt bs)
  rwa [List.length_map, List.length_reverse] at h

/-- Strings of one length have different values. -/
theorem ofBytes_inj {as bs : List UInt8} (hl : as.length = bs.length) (h : ofBytes as = ofBytes bs) : as = bs := by
  have hdigits := Nat.ofDigits_inj_of_len_eq (b := 256) (by decide) (by simpa using hl) (digit_lt as) (digit_lt bs) h
  exact List.reverse_injective (List.map_injective_iff.2 (fun _ _ => UInt8.toNat_inj.1) hdigits)

/-- A bitwise AND goes part by part. -/
theorem mul_two_pow_add_and {m a b c d : Nat} (hb : b < 2 ^ m) (hd : d < 2 ^ m) :
    (a * 2 ^ m + b) &&& (c * 2 ^ m + d) = (a &&& c) * 2 ^ m + (b &&& d) := by
  have hbd : b &&& d < 2 ^ m := Nat.and_lt_two_pow b hd
  refine Nat.eq_of_testBit_eq fun i => ?_
  rw [Nat.testBit_and, Nat.mul_comm a, Nat.mul_comm c, Nat.mul_comm (a &&& c), Nat.testBit_two_pow_mul_add a hb,
    Nat.testBit_two_pow_mul_add c hd, Nat.testBit_two_pow_mul_add (a &&& c) hbd]
  split <;> rw [Nat.testBit_and]

theorem ofBytes_and : ∀ {as bs : List UInt8}, as.length = bs.length →
    ofBytes (List.zipWith (· &&& ·) as bs) = ofBytes as &&& ofBytes bs
  | [], [], _ => rfl
  | a :: as, b :: bs, h => by
    have hlen : as.length = bs.length := Nat.succ.inj h
    have has := ofBytes_lt as
    have hbs := ofBytes_lt bs
    have hpow : (256 : Nat) ^ bs.length = 2 ^ (8 * bs.length) := by rw [Nat.pow_mul]
    rw [List.zipWith_cons_cons, ofBytes_cons, ofBytes_cons, ofBytes_cons, ofBytes_and hlen,
      List.length_zipWith, hlen, Nat.min_self, hpow,
      mul_two_pow_add_and (by rwa [hlen, hpow] at has) (by rwa [hpow] at hbs), UInt8.toNat_and]

/-! ## Strings of a value -/

/-- The string of a length, with the value modulo what fits into it. -/
def toBytes : Nat → Nat → List UInt8
  | 0, _ => []
  | len + 1, n => toBytes len (n / 256) ++ [n.toUInt8]

@[simp] theorem toBytes_length : ∀ len n : Nat, (toBytes len n).length = len
  | 0, _ => rfl
  | len + 1, n => by rw [toBytes, List.length_append, toBytes_length len]; rfl

theorem ofBytes_toBytes : ∀ len n : Nat, ofBytes (toBytes len n) = n % 256 ^ len
  | 0, n => (Nat.mod_one n).symm
  | len + 1, n => by
    have hbyte : n.toUInt8.toNat = n % 256 := rfl
    rw [toBytes, ofBytes_concat, ofBytes_toBytes len, hbyte, Nat.pow_succ', Nat.mod_mul, Nat.add_comm]

theorem ofBytes_toBytes_of_lt {len n : Nat} (h : n < 256 ^ len) : ofBytes (toBytes len n) = n := by
  rw [ofBytes_toBytes, Nat.mod_eq_of_lt h]

theorem eq_toBytes {bs : List UInt8} {len n : Nat} (hl : bs.length = len) (h : ofBytes bs = n % 256 ^ len) :
    bs = toBytes len n :=
  ofBytes_inj (hl.trans (toBytes_length len n).symm) (h.trans (ofBytes_toBytes len n).symm)

end Wig.Lib
