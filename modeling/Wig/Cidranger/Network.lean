/-
Addresses and networks of the `cidranger` library: an address is one word or four, and a network is its address and
its mask in words beside the network it was made of. Here they are compared with numbers and the aligned blocks of
numbers.
-/
import Wig.Lib.Block
import Wig.Lib.Proc
import Wig.Net.Subnet

namespace Wig.Cidranger

open Wig.Lib Wig.Net

/-! ## The code -/

inductive RangerError where
  | invalidBitPosition
  | versionMismatch
  | noGreatestCommonBit
  | invalidNetworkNumberInput
  deriving DecidableEq, Repr

abbrev NetworkNumber := List UInt32

/-- `binary.BigEndian.Uint32`, of four bytes after four bytes. -/
def words : List UInt8 → NetworkNumber
  | a :: b :: c :: d :: rest => UInt32.ofNat (ofBytes [a, b, c, d]) :: words rest
  | _ => []

/-- `NewNetworkNumber`; no words for what is not an address. -/
def newNetworkNumber (ip : IP) : NetworkNumber :=
  match ip.to4 with
  | some p => words p
  | none => if ip.length = 16 then words ip else []

/-- `NetworkNumber.Bit`, at a position that was a signed number before. -/
def NetworkNumber.bit (n : NetworkNumber) (position : Int) : Outcome RangerError Bool :=
  if 32 * n.length - 1 < position then .err .invalidBitPosition
  else if position < 0 then .crash
  else
    match n[n.length - 1 - position.toNat / 32]? with
    | some w => .ok ((w >>> UInt32.ofNat (position.toNat % 32)) &&& 1 = 1)
    | none => .crash

/-- The inner loop of `LeastCommonBitPosition`: the highest of the lowest bits in which two words differ. -/
def divergingBit (w w' : UInt32) : Nat → Option Nat
  | 0 => none
  | pos + 1 => if w &&& (1 <<< UInt32.ofNat pos) ≠ w' &&& (1 <<< UInt32.ofNat pos) then
    some pos else divergingBit w w' pos

/-- The outer loop, which starts at the first word. -/
def leastCommonBitLoop (first : Bool) : NetworkNumber → NetworkNumber → Except RangerError Nat
  | w :: ws, w' :: ws' =>
    match divergingBit w w' 32 with
    | some pos => if first ∧ pos = 31 then .error .noGreatestCommonBit else .ok (pos + 1 + 32 * ws.length)
    | none => leastCommonBitLoop false ws ws'
  | _, _ => .ok 0

def NetworkNumber.leastCommonBitPosition (n n1 : NetworkNumber) : Except RangerError Nat :=
  if n.length ≠ n1.length then .error .versionMismatch else leastCommonBitLoop true n n1

structure Network where
  ipnet : IPNet
  number : NetworkNumber
  mask : NetworkNumber

def newNetwork (n : IPNet) : Network := ⟨n, newNetworkNumber n.ip, newNetworkNumber n.mask⟩

/-- The ones of `IPMask.Size`. -/
def maskOnes (m : IPMask) : Nat := (simpleMaskLength m).getD 0

def Network.masked (n : Network) (ones : Nat) : Network :=
  let mask := cidrMask ones (32 * n.number.length)
  newNetwork ⟨n.ipnet.ip.mask mask, mask⟩

/-- `Network.Contains`; the words of the address under the mask, compared one by one. -/
def Network.contains (n : Network) (nn : NetworkNumber) : Bool :=
  n.mask.length = nn.length ∧ List.zipWith (· &&& ·) nn n.mask = n.number.take nn.length

def Network.leastCommonBitPosition (n n1 : Network) : Except RangerError Nat :=
  let maskSize := min (maskOnes n.ipnet.mask) (maskOnes n1.ipnet.mask)
  let maskPosition : Int := 32 * n1.number.length - maskSize
  (n.number.leastCommonBitPosition n1.number).map fun lcb => (max maskPosition lcb).toNat

/-- `Network.Equal` compares the texts. -/
def Network.equal (n n1 : Network) : Bool := n.ipnet.chars = n1.ipnet.chars

/-! ## Words as numbers -/

namespace NetworkNumber

def value : NetworkNumber → Nat
  | [] => 0
  | w :: ws => w.toNat * 2 ^ (32 * ws.length) + value ws

theorem value_lt : ∀ n : NetworkNumber, value n < 2 ^ (32 * n.length)
  | [] => by simp [value]
  | w :: ws => by
    have hw := w.toNat_lt
    have hws := value_lt ws
    rw [value, List.length_cons, Nat.mul_succ, Nat.add_comm (32 * ws.length), Nat.pow_add]
    calc w.toNat * 2 ^ (32 * ws.length) + value ws < w.toNat * 2 ^ (32 * ws.length) + 2 ^ (32 * ws.length) := by omega
      _ = (w.toNat + 1) * 2 ^ (32 * ws.length) := by ring
      _ ≤ 2 ^ 32 * 2 ^ (32 * ws.length) := Nat.mul_le_mul_right _ hw

theorem value_and : ∀ {n m : NetworkNumber}, n.length = m.length →
    value (List.zipWith (· &&& ·) n m) = value n &&& value m
  | [], [], _ => rfl
  | w :: ws, v :: vs, h => by
    have hlen : ws.length = vs.length := Nat.succ.inj h
    have hws := value_lt ws
    rw [List.zipWith_cons_cons, value, value, value, value_and hlen, List.length_zipWith, hlen, Nat.min_self,
      mul_two_pow_add_and (by rwa [hlen] at hws) (value_lt vs), UInt32.toNat_and]

theorem value_inj : ∀ {n m : NetworkNumber}, n.length = m.length → value n = value m → n = m
  | [], [], _, _ => rfl
  | w :: ws, v :: vs, h, heq => by
    have hlen : ws.length = vs.length := Nat.succ.inj h
    have hws := value_lt ws
    have hvs := value_lt vs
    rw [value, value, hlen] at heq
    rw [hlen] at hws
    have hdiv := congrArg (· / 2 ^ (32 * vs.length)) heq
    have hmod := congrArg (· % 2 ^ (32 * vs.length)) heq
    simp only [Nat.mul_comm _ (2 ^ (32 * vs.length)), Nat.mul_add_div (Nat.two_pow_pos _),
      Nat.mul_add_mod, Nat.div_eq_of_lt hws, Nat.div_eq_of_lt hvs, Nat.mod_eq_of_lt hws, Nat.mod_eq_of_lt hvs,
      Nat.add_zero] at hdiv hmod
    rw [UInt32.toNat_inj.1 hdiv, value_inj hlen hmod]

/-- The words of an address have its value. -/
theorem value_words : ∀ {k : Nat} {bs : List UInt8}, bs.length = 4 * k → (words bs).length = k ∧
    value (words bs) = ofBytes bs
  | 0, [], _ => ⟨rfl, rfl⟩
  | k + 1, a :: b :: c :: d :: rest, h => by
    have hrest : rest.length = 4 * k := by simp only [List.length_cons] at h; omega
    obtain ⟨hlen, hvalue⟩ := value_words hrest
    have hlt : ofBytes [a, b, c, d] < 2 ^ 32 := (ofBytes_lt [a, b, c, d]).trans_eq (by norm_num)
    refine ⟨by rw [words, List.length_cons, hlen], ?_⟩
    have hpow : (256 : Nat) ^ (4 * k) = 2 ^ (32 * k) := by rw [Nat.pow_mul, Nat.pow_mul]
    rw [words, value, hvalue, hlen, UInt32.toNat_ofNat_of_lt' hlt, ← hpow, ← hrest, ← ofBytes_append]
    rfl

theorem testBit_value :
    ∀ {n : NetworkNumber} {i : Nat}, i < 32 * n.length → ∀ w :
    UInt32, n[n.length - 1 - i / 32]? = some w → (value n).testBit i = w.toNat.testBit (i % 32)
  | v :: vs, i, hi, w, hw => by
    rw [value, Nat.mul_comm, Nat.testBit_two_pow_mul_add _ (value_lt vs)]
    rw [List.length_cons] at hi hw
    split
    · rename_i hlow
      have hidx : vs.length + 1 - 1 - i / 32 = vs.length - 1 - i / 32 + 1 := by omega
      rw [hidx, List.getElem?_cons_succ] at hw
      exact testBit_value hlow w hw
    · rename_i hhigh
      have hidx : vs.length + 1 - 1 - i / 32 = 0 := by omega
      rw [hidx, List.getElem?_cons_zero] at hw
      cases hw
      congr 1
      omega

theorem shiftRight_and_one {w : UInt32} {r : Nat} (hr : r < 32) :
    (w >>> UInt32.ofNat r) &&& 1 = 1 ↔ w.toNat.testBit r = true := by
  have hsize : r < UInt32.size := hr.trans (by decide)
  rw [← UInt32.toNat_inj, UInt32.toNat_and, UInt32.toNat_shiftRight, UInt32.toNat_ofNat_of_lt' hsize,
    Nat.mod_eq_of_lt hr, UInt32.toNat_one, Nat.and_one_is_mod, Nat.shiftRight_eq_div_pow,
    Nat.testBit_eq_decide_div_mod_eq, decide_eq_true_iff]

theorem toNat_one_shiftLeft {pos : Nat} (h : pos < 32) : ((1 : UInt32) <<< UInt32.ofNat pos).toNat = 2 ^ pos := by
  have hlt : 2 ^ pos < 2 ^ 32 := Nat.pow_lt_pow_right (by decide) h
  have hsize : pos < UInt32.size := h.trans (by decide)
  rw [UInt32.toNat_shiftLeft, UInt32.toNat_ofNat_of_lt' hsize, Nat.mod_eq_of_lt h, UInt32.toNat_one, Nat.one_shiftLeft,
    Nat.mod_eq_of_lt hlt]

theorem and_one_shiftLeft_inj {w w' : UInt32} {pos : Nat} (h : pos < 32) :
    w &&& (1 <<< UInt32.ofNat pos) = w' &&& (1 <<< UInt32.ofNat pos) ↔ w.toNat.testBit pos = w'.toNat.testBit pos := by
  rw [← UInt32.toNat_inj, UInt32.toNat_and, UInt32.toNat_and, toNat_one_shiftLeft h, Nat.and_two_pow, Nat.and_two_pow,
    Nat.mul_left_inj (Nat.two_pow_pos pos).ne']
  cases w.toNat.testBit pos <;> cases w'.toNat.testBit pos <;> simp

/-- A bit of an address, at a position that it has. -/
theorem bit_eq {n : NetworkNumber} {i : Nat} (hi : i < 32 * n.length) : bit n i = .ok ((value n).testBit i) := by
  have hidx : n.length - 1 - i / 32 < n.length := by omega
  have hw : n[n.length - 1 - i / 32]? = some n[n.length - 1 - i / 32] := List.getElem?_eq_getElem hidx
  unfold bit
  rw [if_neg (by omega), if_neg (by omega), Int.toNat_natCast, hw, testBit_value hi _ hw]
  simp only [shiftRight_and_one (Nat.mod_lt i (by decide)), Bool.decide_eq_true]

/-- The bits of a word below a position. -/
theorem divergingBit_eq {w w' : UInt32} : ∀ {pos : Nat}, pos ≤ 32 → AgreeAbove pos w.toNat w'.toNat →
    divergingBit w w' pos = if diverge w.toNat w'.toNat = 0 then none else some (diverge w.toNat w'.toNat - 1)
  | 0, _, h => by
    have hzero : diverge w.toNat w'.toNat = 0 := Nat.le_zero.1 (agree_iff.1 h)
    rw [divergingBit, if_pos hzero]
  | pos + 1, hpos, h => by
    rw [divergingBit]
    by_cases hbit : w.toNat.testBit pos = w'.toNat.testBit pos
    · rw [if_neg (not_not.2 ((and_one_shiftLeft_inj (by omega)).2 hbit))]
      exact divergingBit_eq (by omega) (agree_succ.2 ⟨h, hbit⟩)
    · have hdiverge : diverge w.toNat w'.toNat = pos + 1 := by
        have hnot : ¬ AgreeAbove pos w.toNat w'.toNat := fun hagree => hbit (agree_succ.1 hagree).2
        rw [agree_iff] at h hnot
        omega
      rw [if_pos (mt (and_one_shiftLeft_inj (by omega)).1 hbit), hdiverge,
        if_neg (Nat.succ_ne_zero pos), Nat.add_sub_cancel]

/-- What two numbers of one length have in common, if they share the first bit. -/
theorem leastCommonBitLoop_eq : ∀ {first : Bool} {n m : NetworkNumber}, n.length = m.length →
    (first = true → diverge (value n) (value m) < 32 * n.length ∨ n = m) →
      leastCommonBitLoop first n m = .ok (diverge (value n) (value m))
  | first, [], [], _, _ => by simp [leastCommonBitLoop, value, diverge]
  | first, w :: ws, v :: vs, h, hfirst => by
    have hlen : ws.length = vs.length := Nat.succ.inj h
    have hws : value ws < 2 ^ (32 * vs.length) := hlen ▸ value_lt ws
    have hvs : value vs < 2 ^ (32 * vs.length) := value_lt vs
    have hagree : AgreeAbove 32 w.toNat v.toNat := by
      unfold AgreeAbove
      rw [Nat.div_eq_of_lt w.toNat_lt, Nat.div_eq_of_lt v.toNat_lt]
    rw [leastCommonBitLoop, divergingBit_eq le_rfl hagree, value, value, hlen]
    by_cases hwv : w = v
    · subst hwv
      rw [if_pos (diverge_eq_zero.2 rfl), diverge_mul_add_self hws hvs]
      exact leastCommonBitLoop_eq hlen (by simp)
    · have hne : w.toNat ≠ v.toNat := mt UInt32.toNat_inj.1 hwv
      have hpos : diverge w.toNat v.toNat ≠ 0 := mt diverge_eq_zero.1 hne
      rw [if_neg hpos, diverge_mul_add_of_ne hws hvs hne]
      have hnot : ¬ (first = true ∧ diverge w.toNat v.toNat - 1 = 31) := by
        rintro ⟨hf, h31⟩
        rcases hfirst hf with hlt | heq
        · rw [value, value, hlen, diverge_mul_add_of_ne hws hvs hne, List.length_cons, hlen] at hlt
          omega
        · exact hwv (List.cons.inj heq).1
      simp only [if_neg hnot]
      congr 1
      omega

end NetworkNumber

open NetworkNumber

/-! ## Networks as blocks -/

/-- The words of an address: one for an IPv4 address in either form, four for any other. -/
inductive Family : Nat → IP → IP → Prop where
  | v4 {ip bs : IP} (form : ip.to4 = some bs) : Family 1 ip bs
  | v6 {ip : IP} (form : ip.to4 = none) (length : ip.length = 16) : Family 4 ip ip

/-- A network whose mask is a prefix mask of as many words as its address has. -/
structure Shaped (w : Nat) (n : IPNet) (bs : IP) (l : Nat) : Prop where
  family : Family w n.ip bs
  bits : l ≤ 32 * w
  mask : n.mask = maskBytes (4 * w) l

theorem Family.to4 {ip bs : IP} (h : Family 1 ip bs) : ip.to4 = some bs := by
  cases h with
  | v4 form => exact form

theorem Family.length {w : Nat} {ip bs : IP} (h : Family w ip bs) : bs.length = 4 * w := by
  cases h with
  | v4 form => exact to4_length form
  | v6 form length => exact length

theorem Family.number {w : Nat} {ip bs : IP} (h : Family w ip bs) : newNetworkNumber ip = words bs := by
  unfold newNetworkNumber
  cases h with
  | v4 form => rw [form]
  | v6 form length => rw [form]; exact if_pos length

theorem Family.words_length {w : Nat} {ip bs : IP} (h : Family w ip bs) : (words bs).length = w :=
  (value_words h.length).1

theorem Family.value_words {w : Nat} {ip bs : IP} (h : Family w ip bs) : value (words bs) = ofBytes bs :=
  (NetworkNumber.value_words h.length).2

theorem Family.lt {w : Nat} {ip bs : IP} (h : Family w ip bs) : ofBytes bs < 2 ^ (32 * w) := by
  have hlt := value_lt (words bs)
  rwa [h.value_words, h.words_length] at hlt

/-- An address of sixteen bytes is an IPv4 address by its first twelve. -/
theorem to4_eq_none_iff {ip : IP} (h : ip.length = 16) : ip.to4 = none ↔ ofBytes ip / 2 ^ 32 ≠ 65535 := by
  have hsplit : ofBytes ip = ofBytes (ip.take 12) * 2 ^ 32 + ofBytes (ip.drop 12) := by
    have happend := ofBytes_append (ip.take 12) (ip.drop 12)
    rw [List.take_append_drop, List.length_drop, h] at happend
    exact happend
  have hlow : ofBytes (ip.drop 12) < 2 ^ 32 := by
    have hlt := ofBytes_lt (ip.drop 12)
    rw [List.length_drop, h] at hlt
    exact hlt
  have hhigh : ofBytes ip / 2 ^ 32 = ofBytes (ip.take 12) := by rw [hsplit]; omega
  have hform : ip.take 12 = v4InV6Prefix ↔ ofBytes (ip.take 12) = 65535 := by
    constructor
    · intro heq
      rw [heq]
      rfl
    · intro heq
      refine ofBytes_inj ?_ (heq.trans rfl)
      rw [List.length_take, h]
      rfl
  unfold IP.to4
  rw [if_neg (by omega), hhigh, Ne, ← hform]
  by_cases hp : ip.take 12 = v4InV6Prefix
  · rw [if_pos ⟨h, hp⟩]
    simp [hp]
  · rw [if_neg fun hc => hp hc.2]
    simp [hp]

theorem to4_maskBytes : ∀ l ≤ 128, IP.to4 (maskBytes 16 l) = none := by decide +kernel

theorem family_mask {w l : Nat} {ip bs : IP} (h : Family w ip bs) (hl : l ≤ 32 * w) :
    Family w (maskBytes (4 * w) l) (maskBytes (4 * w) l) := by
  cases h with
  | v4 form => exact .v4 (to4_self (maskBytes_length 4 l))
  | v6 form length => exact .v6 (to4_maskBytes l hl) (maskBytes_length 16 l)

theorem cidrMask_words {w l : Nat} {ip bs : IP} (h : Family w ip bs) (hl : l ≤ 32 * w) :
    cidrMask l (32 * w) = maskBytes (4 * w) l := by
  cases h with
  | v4 form => exact cidrMask_32 hl
  | v6 form length => exact cidrMask_128 hl

/-- The text of a network is read back as its address and its mask. -/
theorem Shaped.parse {w l : Nat} {n : IPNet} {bs : IP} (h : Shaped w n bs l) :
    parseCIDR n.chars = some (bs.to16, n.mask) := by
  obtain ⟨ip, mask⟩ := n
  obtain ⟨family, bits, rfl⟩ := h
  cases family with
  | v4 form =>
    have hlen := to4_length form
    rw [← cidrMask_words (.v4 form) bits, chars_v4 form bits, parseCIDR_v4 hlen bits, to16_of_length_four hlen]
  | v6 form length =>
    rw [← cidrMask_words (.v6 form length) bits, chars_v6 form length bits, parseCIDR_v6 length bits,
      to16_of_length length]

/-- And depends on nothing else. -/
theorem Shaped.chars_eq {w l : Nat} {n m : IPNet} {bs : IP} (h : Shaped w n bs l) (h' : Shaped w m bs l) :
    n.chars = m.chars := by
  obtain ⟨ip, mask⟩ := n
  obtain ⟨ip', mask'⟩ := m
  obtain ⟨family, bits, rfl⟩ := h
  obtain ⟨family', -, rfl⟩ := h'
  cases family with
  | v4 form =>
    cases family' with
    | v4 form' => rw [← cidrMask_words (.v4 form) bits, chars_v4 form bits, chars_v4 form' bits]
  | v6 form length =>
    cases family' with
    | v6 form' length' => rfl

theorem Shaped.ones {w l : Nat} {n : IPNet} {bs : IP} (h : Shaped w n bs l) : maskOnes n.mask = l := by
  rw [maskOnes, h.mask, simpleMaskLength_maskBytes (by have := h.bits; omega), Option.getD_some]

/-- Two networks have the same text if they have the same address and the same prefix. -/
theorem Shaped.equal_iff {w l l' : Nat} {n m : IPNet} {bs cs : IP} (h : Shaped w n bs l) (h' : Shaped w m cs l') :
    (newNetwork n).equal (newNetwork m) = true ↔ l = l' ∧ ofBytes bs = ofBytes cs := by
  have hlen := h.family.length.trans h'.family.length.symm
  unfold Network.equal
  rw [decide_eq_true_iff]
  show n.chars = m.chars ↔ _
  constructor
  · intro heq
    have hparse := h.parse.symm.trans ((congrArg parseCIDR heq).trans h'.parse)
    rw [Option.some.injEq, Prod.mk.injEq] at hparse
    refine ⟨?_, congrArg ofBytes (to16_inj hlen hparse.1)⟩
    rw [← h.ones, ← h'.ones, hparse.2]
  · rintro ⟨rfl, hbytes⟩
    obtain rfl := ofBytes_inj hlen hbytes
    exact h.chars_eq h'

theorem Shaped.number_eq {w l : Nat} {n : IPNet} {bs : IP} (h : Shaped w n bs l) : (newNetwork n).number = words bs :=
  h.family.number

theorem Shaped.mask_eq {w l : Nat} {n : IPNet} {bs : IP} (h : Shaped w n bs l) :
    (newNetwork n).mask = words (maskBytes (4 * w) l) := by
  show newNetworkNumber n.mask = _
  rw [h.mask, (family_mask h.family h.bits).number]

/-- Masking keeps an address in its family. -/
theorem Family.masked {w k : Nat} {ip bs : IP} (h : Family w ip bs) (hk : k ≤ 32 * w) :
    ∃ cs, Family w (ip.mask (maskBytes (4 * w) k)) cs ∧
      ofBytes cs = ofBytes bs / 2 ^ (32 * w - k) * 2 ^ (32 * w - k) := by
  have hlen := h.length
  have hand := ofBytes_and_mask bs (l := k) (by omega)
  rw [hlen, show 8 * (4 * w) = 32 * w by ring] at hand
  refine ⟨List.zipWith (· &&& ·) bs (maskBytes (4 * w) k), ?_, hand⟩
  have hzip : (List.zipWith (· &&& ·) bs (maskBytes (4 * w) k)).length = 4 * w := by simp [hlen]
  cases h with
  | v4 form =>
    have hmask : ip.mask (maskBytes 4 k) = List.zipWith (· &&& ·) bs (maskBytes 4 k) := by
      unfold IP.to4 at form
      unfold IP.mask
      split at form
      · rename_i h4
        cases form
        simp [h4]
      · split at form
        · rename_i h16
          cases form
          simp [h16.1, h16.2]
        · cases form
    rw [show 4 * 1 = 4 from rfl, hmask]
    exact .v4 (to4_self hzip)
  | v6 form length =>
    have hmask : ip.mask (maskBytes 16 k) = List.zipWith (· &&& ·) ip (maskBytes 16 k) := by
      unfold IP.mask
      simp [length]
    rw [show 4 * 4 = 16 from rfl, hmask]
    refine .v6 ((to4_eq_none_iff hzip).2 ?_) hzip
    rw [show 4 * 4 = 16 from rfl] at hand
    rw [hand]
    have hnone := (to4_eq_none_iff length).1 form
    intro heq
    rcases Nat.lt_or_ge 32 (32 * 4 - k) with hlt | hle
    · -- the mask ends before the last bit that tells the forms apart, so that bit is zero
      obtain ⟨j, hj⟩ := Nat.exists_eq_add_of_lt hlt
      rw [hj, show 2 ^ (32 + j + 1) = 2 ^ (j + 1) * 2 ^ 32 by rw [← Nat.pow_add]; congr 1; omega, ← Nat.mul_assoc,
        Nat.mul_div_cancel _ (Nat.two_pow_pos 32), Nat.pow_succ, ← Nat.mul_assoc] at heq
      omega
    · have hagree : AgreeAbove 32 (ofBytes ip / 2 ^ (32 * 4 - k) * 2 ^ (32 * 4 - k)) (ofBytes ip) :=
        (agree_clear _ _).mono hle
      exact hnone (Eq.trans hagree.symm heq)

/-- What a node's network stands for. -/
def Stands (w : Nat) (n : Network) (c : Block) : Prop :=
  c.low ≤ 32 * w ∧ ∃ m bs, n = newNetwork m ∧ Shaped w m bs (32 * w - c.low) ∧ c.number = ofBytes bs

theorem Shaped.masked {w l k : Nat} {n : IPNet} {bs : IP} (h : Shaped w n bs l) (hk : k ≤ 32 * w) :
    Stands w ((newNetwork n).masked k) (Block.around (32 * w - k) (ofBytes bs)) := by
  refine ⟨Nat.sub_le _ _, ?_⟩
  obtain ⟨cs, hfamily, hbytes⟩ := h.family.masked hk
  unfold Network.masked
  rw [h.number_eq, h.family.words_length, cidrMask_words h.family hk]
  refine ⟨_, cs, rfl, ⟨hfamily, Nat.sub_le _ _, ?_⟩, hbytes.symm⟩
  rw [Block.around_low, Nat.sub_sub_self hk]

namespace Stands

variable {w l : Nat} {n : Network} {c : Block} {m : IPNet} {bs : IP}

theorem number (h : Stands w n c) : n.number.length = w ∧ value n.number = c.number := by
  obtain ⟨-, m, cs, rfl, hshape, hnumber⟩ := h
  rw [hshape.number_eq, hshape.family.words_length, hshape.family.value_words, hnumber]
  exact ⟨rfl, rfl⟩

theorem equal_iff (h : Stands w n c) (hm : Shaped w m bs l) :
    n.equal (newNetwork m) = true ↔ c.low = 32 * w - l ∧ c.number = ofBytes bs := by
  obtain ⟨hlow, m', cs, rfl, hshape, hnumber⟩ := h
  have hbits := hm.bits
  rw [hshape.equal_iff hm, hnumber]
  refine and_congr_left' ?_
  omega

theorem contains_iff {ip : IP} (h : Stands w n c) (hip : Family w ip bs) :
    n.contains (words bs) = true ↔ c.Contains (ofBytes bs) := by
  obtain ⟨hlow, m', cs, rfl, hshape, hnumber⟩ := h
  have hmask := family_mask hshape.family hshape.bits
  have hand := ofBytes_and_mask bs (l := 32 * w - c.low) (by rw [hip.length]; omega)
  have hlow' : 8 * (4 * w) - (32 * w - c.low) = c.low := by omega
  rw [hip.length, hlow'] at hand
  have hwords : (words bs).length = (words (maskBytes (4 * w) (32 * w - c.low))).length := by
    rw [hip.words_length, hmask.words_length]
  have hvalue : value (List.zipWith (· &&& ·) (words bs) (words (maskBytes (4 * w) (32 * w - c.low)))) =
      ofBytes bs / 2 ^ c.low * 2 ^ c.low := by
    rw [value_and hwords, hip.value_words, hmask.value_words,
      ← ofBytes_and (by rw [hip.length, maskBytes_length]), hand]
  have hzip : (List.zipWith (· &&& ·) (words bs) (words (maskBytes (4 * w) (32 * w - c.low)))).length =
      (words cs).length := by
    rw [List.length_zipWith, hip.words_length, hmask.words_length, Nat.min_self, hshape.family.words_length]
  have htake : (words cs).take (words bs).length = words cs := by
    rw [hip.words_length, ← hshape.family.words_length, List.take_length]
  unfold Network.contains
  rw [decide_eq_true_iff, hshape.mask_eq, hshape.number_eq, and_iff_right hwords.symm, htake,
    ← Block.clear_eq_iff, hnumber, ← hshape.family.value_words, ← hvalue]
  exact ⟨congrArg value, value_inj hzip⟩

theorem leastCommonBitPosition (h : Stands w n c) (hm : Shaped w m bs l)
    (hfirst : diverge (ofBytes bs) c.number < 32 * w) :
    (newNetwork m).leastCommonBitPosition n = .ok (max (max (32 * w - l) c.low) (diverge (ofBytes bs) c.number)) := by
  obtain ⟨hlow, m', cs, rfl, hshape, hnumber⟩ := h
  have hbits := hm.bits
  have hcs := hshape.bits
  have hlen : (words bs).length = (words cs).length := by rw [hm.family.words_length, hshape.family.words_length]
  unfold Network.leastCommonBitPosition NetworkNumber.leastCommonBitPosition
  rw [hm.number_eq, hshape.number_eq, if_neg (not_not.2 hlen), leastCommonBitLoop_eq hlen, hm.family.value_words,
    hshape.family.value_words, ← hnumber]
  · show Except.ok _ = _
    rw [hshape.family.words_length, show (newNetwork m).ipnet.mask = m.mask from rfl, hm.ones,
      show (newNetwork m').ipnet.mask = m'.mask from rfl, hshape.ones]
    congr 1
    beta_reduce
    omega
  · rw [hm.family.value_words, hshape.family.value_words, ← hnumber, hm.family.words_length]
    exact fun _ => .inl hfirst

end Stands

end Wig.Cidranger
