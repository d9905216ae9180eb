/-
The first and the last address of a network, and addresses as numbers. The four-byte and the
sixteen-byte form of an IPv4 address are one address, and `IPNet.String` and `IPNet.Contains` see
the network by its four-byte form.
-/
import Wig.Lib.Bytes
import Wig.Net.Range

namespace Wig.Net

open Wig.Lib

/-! ## Forms of an address -/

/-- `IP.To16`, for the lengths that occur. -/
def IP.to16 (ip : IP) : IP := if ip.length = 4 then v4InV6Prefix ++ ip else ip

/-- `IP.Equal`. -/
def IP.equal (a b : IP) : Bool :=
  if a.length = b.length then decide (a = b)
  else if a.length = 4 ∧ b.length = 16 then decide (b.take 12 = v4InV6Prefix ∧ a = b.drop 12)
  else if a.length = 16 ∧ b.length = 4 then decide (a.take 12 = v4InV6Prefix ∧ a.drop 12 = b)
  else false

theorem eq_prefix_append_iff {a b : IP} : b = v4InV6Prefix ++ a ↔ b.take 12 = v4InV6Prefix ∧ a = b.drop 12 := by
  constructor
  · rintro rfl
    exact ⟨List.take_left' (show v4InV6Prefix.length = 12 from rfl),
      (List.drop_left' (show v4InV6Prefix.length = 12 from rfl)).symm⟩
  · rintro ⟨htake, rfl⟩
    rw [← htake, List.take_append_drop]

theorem to16_of_length {ip : IP} (h : ip.length = 16) : ip.to16 = ip := by
  unfold IP.to16
  rw [if_neg (by omega)]

theorem to16_of_length_four {ip : IP} (h : ip.length = 4) : ip.to16 = v4InV6Prefix ++ ip := by
  unfold IP.to16
  rw [if_pos h]

theorem to16_length {ip : IP} (h : ip.length = 4 ∨ ip.length = 16) : ip.to16.length = 16 := by
  rcases h with h | h
  · rw [to16_of_length_four h, List.length_append, h]; rfl
  · rw [to16_of_length h, h]

theorem to16_inj {a b : IP} (hl : a.length = b.length) (h : a.to16 = b.to16) : a = b := by
  unfold IP.to16 at h
  rw [hl] at h
  split at h
  · exact List.append_cancel_left h
  · exact h

theorem to4_eq_some_iff {ip p : IP} (h : ip.length = 16) : ip.to4 = some p ↔ ip = v4InV6Prefix ++ p := by
  unfold IP.to4
  rw [if_neg (by omega), eq_prefix_append_iff]
  by_cases hp : ip.take 12 = v4InV6Prefix
  · rw [if_pos ⟨h, hp⟩, Option.some_inj, eq_comm (b := p)]
    exact ⟨fun hd => ⟨hp, hd⟩, And.right⟩
  · rw [if_neg fun hc => hp hc.2]
    exact ⟨fun hc => (by cases hc), fun hc => absurd hc.1 hp⟩

/-- Two addresses are equal if their sixteen-byte forms are. -/
theorem IP.equal_iff (a b : IP) : a.equal b = true ↔ a.to16 = b.to16 := by
  unfold IP.equal IP.to16
  by_cases hl : a.length = b.length
  · rw [if_pos hl, decide_eq_true_iff, hl]
    split
    · exact (List.append_right_inj _).symm
    · exact Iff.rfl
  · rw [if_neg hl]
    by_cases h4 : a.length = 4 ∧ b.length = 16
    · rw [if_pos h4, if_pos h4.1, if_neg (by omega), decide_eq_true_iff, ← eq_prefix_append_iff]
      exact eq_comm
    · rw [if_neg h4]
      by_cases h16 : a.length = 16 ∧ b.length = 4
      · rw [if_pos h16, if_neg (by omega), if_pos h16.2, decide_eq_true_iff, eq_prefix_append_iff, eq_comm (a := b)]
      · rw [if_neg h16]
        refine iff_of_false Bool.false_ne_true fun heq => ?_
        have hlen := congrArg List.length heq
        have hp : v4InV6Prefix.length = 12 := rfl
        by_cases ha : a.length = 4 <;> by_cases hb : b.length = 4 <;>
          simp only [ha, hb, if_true, if_false, List.length_append, hp] at hlen <;> omega

/-- An address has four bytes, or sixteen. -/
theorem IPNet.WellFormed.length {n : IPNet} (h : n.WellFormed) : n.ip.length = 4 ∨ n.ip.length = 16 := by
  rcases h with ⟨p, hp, -⟩ | ⟨hip, -⟩
  · unfold IP.to4 at hp
    split at hp
    · exact .inl ‹_›
    · split at hp
      · rename_i h16
        exact .inr h16.1
      · cases hp
  · exact .inr hip

theorem to16_short {ip : IP} (h : ip.length = 4 ∨ ip.length = 16) : ip.short.to16 = ip.to16 := by
  unfold IP.short
  cases hp : ip.to4 with
  | none => rfl
  | some p =>
    rcases h with h | h
    · rw [to4_self h] at hp
      cases hp
      rfl
    · rw [Option.getD_some, to16_of_length_four (to4_length hp), to16_of_length h, ← (to4_eq_some_iff h).1 hp]

/-- Addresses with the same short form are equal. -/
theorem equal_of_short {a b : IP} (ha : a.length = 4 ∨ a.length = 16) (hb : b.length = 4 ∨ b.length = 16)
    (h : a.short = b.short) : a.equal b = true := by
  rw [IP.equal_iff, ← to16_short ha, ← to16_short hb, h]

/-! ## Masks on numbers -/

/-- A bytewise operation with a prefix mask keeps the bits under the mask, and makes the others those of `r`. -/
theorem ofBytes_zipWith_mask {f : UInt8 → UInt8 → UInt8} {r : Nat → Nat} (hfull : ∀ b, f b 0xff = b)
    (hpart : ∀ l < 8, ∀ b : UInt8,
      (f b (~~~ ((0xff : UInt8) >>> l.toUInt8))).toNat = b.toNat / 2 ^ (8 - l) * 2 ^ (8 - l) + r (8 - l))
    (hzero : r 0 = 0) (hadd : ∀ len k, r (8 * len + k) = r k * 256 ^ len + r (8 * len)) :
    ∀ (bs : List UInt8) (l : Nat), l ≤ 8 * bs.length → ofBytes (List.zipWith f bs (maskBytes bs.length l)) =
      ofBytes bs / 2 ^ (8 * bs.length - l) * 2 ^ (8 * bs.length - l) + r (8 * bs.length - l)
  | [], l, hl => by
    have hl : l = 0 := Nat.le_zero.1 hl
    subst hl
    simp [maskBytes, hzero]
  | b :: bs, l, hl => by
    have hpow : (256 : Nat) ^ bs.length = 2 ^ (8 * bs.length) := by rw [Nat.pow_mul]
    have hlen : (List.zipWith f bs (maskBytes bs.length (l - 8))).length = bs.length ∧
        (List.zipWith f bs (maskBytes bs.length 0)).length = bs.length := by
      simp [maskBytes_length]
    rw [List.length_cons, maskBytes]
    split
    · rename_i h8
      have hh : 8 * (bs.length + 1) - l = 8 * bs.length - (l - 8) := by omega
      rw [List.zipWith_cons_cons, hfull, ofBytes_cons, ofBytes_cons, hlen.1,
        ofBytes_zipWith_mask hfull hpart hzero hadd bs (l - 8) (by rw [List.length_cons] at hl; omega), hh]
      have hdvd : 2 ^ (8 * bs.length - (l - 8)) ∣ b.toNat * 256 ^ bs.length := by
        rw [hpow]
        exact Dvd.dvd.mul_left (Nat.pow_dvd_pow 2 (Nat.sub_le _ _)) _
      rw [Nat.add_div_of_dvd_right hdvd, Nat.add_mul, Nat.div_mul_cancel hdvd, Nat.add_assoc]
    · rename_i h8
      have hh : 8 * (bs.length + 1) - l = 8 * bs.length + (8 - l) := by omega
      have hx := ofBytes_lt bs
      have hrest := ofBytes_zipWith_mask hfull hpart hzero hadd bs 0 (Nat.zero_le _)
      rw [Nat.sub_zero, ← hpow, Nat.div_eq_of_lt hx, Nat.zero_mul, Nat.zero_add] at hrest
      rw [List.zipWith_cons_cons, ofBytes_cons, ofBytes_cons, hlen.2, hpart l (by omega), hrest, hh,
        hadd, Nat.pow_add, ← hpow, ← Nat.div_div_eq_div_mul, Nat.mul_comm b.toNat,
        Nat.mul_add_div (Nat.pow_pos (by decide)), Nat.div_eq_of_lt hx, Nat.add_zero]
      ring

theorem and_partial :
    ∀ l < 8, ∀ n < 256, (UInt8.ofNat n &&& ~~~ ((0xff : UInt8) >>> l.toUInt8)).toNat =
      n / 2 ^ (8 - l) * 2 ^ (8 - l) := by
  decide +kernel

theorem or_partial : ∀ l < 8, ∀ n < 256, (UInt8.ofNat n ||| ~~~ ~~~ ((0xff : UInt8) >>> l.toUInt8)).toNat =
    n / 2 ^ (8 - l) * 2 ^ (8 - l) + (2 ^ (8 - l) - 1) := by decide +kernel

theorem and_full : ∀ n < 256, UInt8.ofNat n &&& 0xff = UInt8.ofNat n := by decide +kernel

theorem or_full : ∀ n < 256, UInt8.ofNat n ||| ~~~ 0xff = UInt8.ofNat n := by decide +kernel

theorem ofBytes_and_mask (bs : List UInt8) {l : Nat} (hl : l ≤ 8 * bs.length) :
    ofBytes (List.zipWith (· &&& ·) bs (maskBytes bs.length l)) =
      ofBytes bs / 2 ^ (8 * bs.length - l) * 2 ^ (8 * bs.length - l) := by
  refine ofBytes_zipWith_mask (r := fun _ => 0) (fun b => ?_) (fun l hl b => ?_) rfl (fun _ _ => by simp) bs l hl
  · have h := and_full b.toNat b.toNat_lt
    rwa [UInt8.ofNat_toNat] at h
  · have h := and_partial l hl b.toNat b.toNat_lt
    rwa [UInt8.ofNat_toNat] at h

theorem ofBytes_or_mask (bs : List UInt8) {l : Nat} (hl : l ≤ 8 * bs.length) :
    ofBytes (List.zipWith (fun b m => b ||| ~~~ m) bs (maskBytes bs.length l)) =
      ofBytes bs / 2 ^ (8 * bs.length - l) * 2 ^ (8 * bs.length - l) + (2 ^ (8 * bs.length - l) - 1) := by
  refine ofBytes_zipWith_mask (r := fun h => 2 ^ h - 1) (fun b => ?_) (fun l hl b => ?_) rfl (fun len k => ?_) bs l hl
  · have h := or_full b.toNat b.toNat_lt
    rwa [UInt8.ofNat_toNat] at h
  · have h := or_partial l hl b.toNat b.toNat_lt
    rwa [UInt8.ofNat_toNat] at h
  · have hk : 0 < 2 ^ k := Nat.pow_pos (by decide)
    have hlen : 0 < 2 ^ (8 * len) := Nat.pow_pos (by decide)
    have hpow : (256 : Nat) ^ len = 2 ^ (8 * len) := by rw [Nat.pow_mul]
    rw [hpow, Nat.sub_mul, Nat.one_mul, Nat.pow_add, Nat.mul_comm (2 ^ (8 * len))]
    have hle : 2 ^ (8 * len) ≤ 2 ^ k * 2 ^ (8 * len) := Nat.le_mul_of_pos_left _ hk
    omega

/-! ## Networks -/

/-- `IP.Mask`: the address without its host bits, nil if the mask is not one for it. -/
def IP.mask (ip : IP) (m : IPMask) : IP :=
  let m := if m.length = 16 ∧ ip.length = 4 ∧ (m.take 12).all (· = 0xff) then m.drop 12 else m
  let ip := if m.length = 4 ∧ ip.length = 16 ∧ ip.take 12 = v4InV6Prefix then ip.drop 12 else ip
  if ip.length = m.length then List.zipWith (· &&& ·) ip m else []

/-- The bits after the prefix. -/
def IPNet.hostBits (n : IPNet) : Nat := 8 * n.mask.length - (simpleMaskLength n.mask).getD 0

/-- The network address of a network as it is printed. -/
def IPNet.first (n : IPNet) : IP :=
  match networkNumberAndMask n with
  | none => []
  | some (nn, m) => List.zipWith (· &&& ·) nn m

/-- Its broadcast address. -/
def IPNet.last (n : IPNet) : IP :=
  match networkNumberAndMask n with
  | none => []
  | some (nn, m) => List.zipWith (fun b m => b ||| ~~~ m) nn m

/-- The address is the network's base address. -/
structure IPNet.Aligned (n : IPNet) : Prop where
  ip : n.ip.length = 4 ∨ n.ip.length = 16
  mask : ∃ l, (l ≤ 32 ∧ n.mask = cidrMask l 32) ∨ (l ≤ 128 ∧ n.mask = cidrMask l 128)
  base : (n.ip.mask n.mask).equal n.ip = true

/-- The network prints with this address and this many leading bits. -/
structure IPNet.Printed (n : IPNet) (nn : IP) (l : Nat) : Prop where
  shown : networkNumberAndMask n = some (nn, maskBytes nn.length l)
  length : nn.length = 4 ∨ nn.length = 16
  same : nn.to16 = n.ip.to16
  bits : l ≤ 8 * nn.length

theorem hostBits_32 (ip : IP) {l : Nat} (hl : l ≤ 32) : IPNet.hostBits ⟨ip, cidrMask l 32⟩ = 32 - l := by
  unfold IPNet.hostBits
  rw [simpleMaskLength_32 l hl, cidrMask_length_32 l hl]
  rfl

theorem hostBits_128 (ip : IP) {l : Nat} (hl : l ≤ 128) : IPNet.hostBits ⟨ip, cidrMask l 128⟩ = 128 - l := by
  unfold IPNet.hostBits
  rw [simpleMaskLength_128 l hl, cidrMask_length_128 l hl]
  rfl

theorem allOnes_take (l : Nat) (hl : l ≤ 128) : ((cidrMask l 128).take 12).all (· = 0xff) = decide (96 ≤ l) := by
  rw [cidrMask_128 hl]
  exact maskBytes_take_all 12 4 l

/-- The address agrees with itself under the mask. -/
theorem dvd_of_and_mask (bs : List UInt8) {l : Nat} (hl : l ≤ 8 * bs.length)
    (h : List.zipWith (· &&& ·) bs (maskBytes bs.length l) = bs) : 2 ^ (8 * bs.length - l) ∣ ofBytes bs := by
  have hval := ofBytes_and_mask bs hl
  rw [h] at hval
  exact ⟨_, hval.trans (Nat.mul_comm _ _)⟩

theorem ofBytes_mapped {p : IP} (h : p.length = 4) : ofBytes (v4InV6Prefix ++ p) = 65535 * 2 ^ 32 + ofBytes p := by
  rw [ofBytes_append, h]
  rfl

/-- The prefix of an IPv4 address ends in a one, so that no more than the last four bytes can be zero. -/
theorem dvd_mapped_iff {p : IP} (h4 : p.length = 4) {h : Nat} :
    2 ^ h ∣ ofBytes (v4InV6Prefix ++ p) ↔ h ≤ 32 ∧ 2 ^ h ∣ ofBytes p := by
  have hlow := ofBytes_lt p
  rw [h4] at hlow
  rw [ofBytes_mapped h4]
  have hmapped : h ≤ 32 → 2 ^ h ∣ 65535 * 2 ^ 32 := fun hh => Dvd.dvd.mul_left (Nat.pow_dvd_pow 2 hh) _
  constructor
  · intro hd
    have hh : h ≤ 32 := by
      by_contra hlt
      have hpow : 2 ^ 33 ∣ 65535 * 2 ^ 32 + ofBytes p := (Nat.pow_dvd_pow 2 (by omega)).trans hd
      omega
    exact ⟨hh, (Nat.dvd_add_right (hmapped hh)).1 hd⟩
  · rintro ⟨hh, hd⟩
    exact (Nat.dvd_add_right (hmapped hh)).2 hd

theorem ofBytes_to16_add {a b : IP} (hb : b.length = 4 ∨ b.length = 16) (hl : a.length = b.length) {k : Nat}
    (h : ofBytes a = ofBytes b + k) : ofBytes a.to16 = ofBytes b.to16 + k := by
  rcases hb with hb | hb
  · have ha := hl.trans hb
    rw [to16_of_length_four ha, to16_of_length_four hb, ofBytes_mapped ha, ofBytes_mapped hb, h]
    omega
  · rw [to16_of_length (hl.trans hb), to16_of_length hb, h]

namespace IPNet

/-- What alignment says of the address as it is printed. -/
def PrintsAligned (n : IPNet) : Prop :=
  ∃ nn l, n.Printed nn l ∧ n.hostBits = 8 * nn.length - l ∧ 2 ^ n.hostBits ∣ ofBytes nn

namespace Aligned

variable {ip : IP} {l : Nat}

/-- The four bytes of an IPv4 address, under the four bytes of a mask. -/
theorem dvd_v4 {p : IP} (h4 : p.length = 4) (hl : l ≤ 32)
    (h : IP.to16 (List.zipWith (· &&& ·) p (cidrMask l 32)) = p.to16) : 2 ^ (32 - l) ∣ ofBytes p := by
  rw [cidrMask_32 hl] at h
  have hself := to16_inj (by simp [h4]) h
  have hdvd := dvd_of_and_mask p (l := l) (by omega) (by rw [h4]; exact hself)
  rwa [h4] at hdvd

/-- An address with an IPv4 form prints in it, under a mask for that form. -/
theorem printsAligned_32 {p : IP} (hto4 : ip.to4 = some p) (same : p.to16 = ip.to16) (hl : l ≤ 32)
    (hdvd : 2 ^ (32 - l) ∣ ofBytes p) : PrintsAligned ⟨ip, cidrMask l 32⟩ := by
  have h4 := to4_length hto4
  refine ⟨p, l, ⟨?_, .inl h4, same, by omega⟩, ?_, ?_⟩
  · rw [h4, ← cidrMask_32 hl, networkNumberAndMask]
    simp only [hto4, cidrMask_length_32 l hl, if_true]
  · rw [hostBits_32 ip hl, h4]
  · rwa [hostBits_32 ip hl]

/-- So it does under a long mask, whose first 96 bits are dropped. -/
theorem printsAligned_128 {p : IP} (hto4 : ip.to4 = some p) (same : p.to16 = ip.to16) (hl : l ≤ 128) (h96 : 96 ≤ l)
    (hdvd : 2 ^ (128 - l) ∣ ofBytes p) : PrintsAligned ⟨ip, cidrMask l 128⟩ := by
  have h4 := to4_length hto4
  have hl' : l - 96 ≤ 32 := by omega
  refine ⟨p, l - 96, ⟨?_, .inl h4, same, by omega⟩, ?_, ?_⟩
  · rw [h4, ← cidrMask_32 hl', ← cidrMask_drop l hl, networkNumberAndMask]
    simp only [hto4, cidrMask_length_128 l hl, show ¬ (16 : Nat) = 4 by decide, if_true, if_false]
  · rw [hostBits_128 ip hl, h4]; omega
  · rwa [hostBits_128 ip hl]

theorem printed_4_32 (h4 : ip.length = 4) (hl : l ≤ 32) (h : Aligned ⟨ip, cidrMask l 32⟩) :
    PrintsAligned ⟨ip, cidrMask l 32⟩ := by
  have hmask := cidrMask_length_32 l hl
  have hbase := (IP.equal_iff _ _).1 h.base
  simp only [IP.mask, hmask, h4, show ¬ (4 : Nat) = 16 by decide, false_and, and_false, if_false, if_true] at hbase
  exact printsAligned_32 (to4_self h4) rfl hl (dvd_v4 h4 hl hbase)

theorem printed_4_128 (h4 : ip.length = 4) (hl : l ≤ 128) (h : Aligned ⟨ip, cidrMask l 128⟩) :
    PrintsAligned ⟨ip, cidrMask l 128⟩ := by
  have hmask := cidrMask_length_128 l hl
  have hbase := (IP.equal_iff _ _).1 h.base
  simp only [IP.mask, hmask, h4, allOnes_take l hl, decide_eq_true_eq, true_and] at hbase
  by_cases h96 : 96 ≤ l
  · have hl' : l - 96 ≤ 32 := by omega
    rw [if_pos h96, cidrMask_drop l hl] at hbase
    simp only [cidrMask_length_32 _ hl',
      show ¬ (4 : Nat) = 16 by decide, h4, false_and, and_false, if_false, if_true] at hbase
    have hdvd := dvd_v4 h4 hl' hbase
    rw [show 32 - (l - 96) = 128 - l by omega] at hdvd
    exact printsAligned_128 (to4_self h4) rfl hl h96 hdvd
  -- a mask with fewer ones is none for four bytes
  · rw [if_neg h96] at hbase
    simp only [hmask,
      show ¬ (16 : Nat) = 4 by decide, false_and, if_false, h4, show ¬ (4 : Nat) = 16 by decide] at hbase
    have hlen := congrArg List.length hbase
    rw [to16_length (.inl h4)] at hlen
    cases hlen

theorem printed_16_32 (h16 : ip.length = 16) (hl : l ≤ 32) (h : Aligned ⟨ip, cidrMask l 32⟩) :
    PrintsAligned ⟨ip, cidrMask l 32⟩ := by
  have hmask := cidrMask_length_32 l hl
  have hbase := (IP.equal_iff _ _).1 h.base
  simp only [IP.mask, hmask, h16, show ¬ (4 : Nat) = 16 by decide, false_and, if_false, true_and] at hbase
  cases hto4 : ip.to4 with
  | some p =>
    obtain rfl := (to4_eq_some_iff h16).1 hto4
    have h4 := to4_length hto4
    have hp : v4InV6Prefix.length = 12 := rfl
    rw [if_pos (List.take_left' hp), List.drop_left' hp, if_pos h4, to16_of_length h16,
      ← to16_of_length_four h4] at hbase
    refine printsAligned_32 hto4 ?_ hl (dvd_v4 h4 hl hbase)
    rw [to16_of_length_four h4, to16_of_length h16]
  -- four bytes of mask are none for an address that is not an IPv4 one
  | none =>
    have hne : ip.take 12 ≠ v4InV6Prefix := by
      intro htake
      rw [(to4_eq_some_iff h16).2 (eq_prefix_append_iff.2 ⟨htake, rfl⟩)] at hto4
      cases hto4
    rw [if_neg hne, if_neg (by omega)] at hbase
    have hlen := congrArg List.length hbase
    rw [to16_length (.inr h16)] at hlen
    cases hlen

theorem printed_16_128 (h16 : ip.length = 16) (hl : l ≤ 128) (h : Aligned ⟨ip, cidrMask l 128⟩) :
    PrintsAligned ⟨ip, cidrMask l 128⟩ := by
  have hmask := cidrMask_length_128 l hl
  have hbase := (IP.equal_iff _ _).1 h.base
  simp only [IP.mask, hmask, h16, show ¬ (16 : Nat) = 4 by decide, false_and, and_false, if_false, if_true] at hbase
  rw [cidrMask_128 hl] at hbase
  have hdvd := dvd_of_and_mask ip (l := l) (by omega) (by rw [h16]; exact to16_inj (by simp [h16]) hbase)
  rw [h16] at hdvd
  cases hto4 : ip.to4 with
  | none =>
    refine ⟨ip, l, ⟨?_, .inr h16, rfl, by omega⟩, ?_, ?_⟩
    · rw [h16, ← cidrMask_128 hl, networkNumberAndMask]
      simp only [hto4, h16, hmask, and_self, if_true]
    · rw [hostBits_128 _ hl, h16]
    · rwa [hostBits_128 _ hl]
  | some p =>
    obtain rfl := (to4_eq_some_iff h16).1 hto4
    have h4 := to4_length hto4
    obtain ⟨h96, hdvd⟩ := (dvd_mapped_iff h4).1 hdvd
    refine printsAligned_128 hto4 ?_ hl (by omega) hdvd
    rw [to16_of_length_four h4, to16_of_length h16]

theorem printed {n : IPNet} (h : n.Aligned) : n.PrintsAligned := by
  obtain ⟨ip, mask⟩ := n
  obtain ⟨l, ⟨hl, rfl⟩ | ⟨hl, rfl⟩⟩ := h.mask
  · exact h.ip.elim (fun h4 => printed_4_32 h4 hl h) fun h16 => printed_16_32 h16 hl h
  · exact h.ip.elim (fun h4 => printed_4_128 h4 hl h) fun h16 => printed_16_128 h16 hl h

/-- In the bytes of an aligned address the host bits are zero. -/
theorem hostBits_le_dvd {n : IPNet} (h : n.Aligned) : n.hostBits ≤ 8 * n.ip.length ∧ 2 ^ n.hostBits ∣ ofBytes n.ip := by
  obtain ⟨nn, l, hp, hbits, hdvd⟩ := h.printed
  have hdvd16 : 2 ^ n.hostBits ∣ ofBytes n.ip.to16 := by
    rw [← hp.same]
    rcases hp.length with h4 | h16
    · rw [to16_of_length_four h4]
      exact (dvd_mapped_iff h4).2 ⟨by omega, hdvd⟩
    · rwa [to16_of_length h16]
  rcases h.ip with h4 | h16
  · rw [to16_of_length_four h4] at hdvd16
    obtain ⟨hle, hdvd⟩ := (dvd_mapped_iff h4).1 hdvd16
    exact ⟨by omega, hdvd⟩
  · rw [to16_of_length h16] at hdvd16
    have hlen := hp.length
    exact ⟨by omega, hdvd16⟩

theorem first_to16 {n : IPNet} (h : n.Aligned) : n.first.to16 = n.ip.to16 := by
  obtain ⟨nn, l, hp, hbits, hdvd⟩ := h.printed
  have hfirst : n.first = nn := by
    unfold first
    rw [hp.shown]
    refine ofBytes_inj (by simp) ?_
    rw [ofBytes_and_mask nn hp.bits, ← hbits, Nat.div_mul_cancel hdvd]
  rw [hfirst, hp.same]

theorem last_to16 {n : IPNet} (h : n.Aligned) : ofBytes n.last.to16 = ofBytes n.ip.to16 + (2 ^ n.hostBits - 1) := by
  obtain ⟨nn, l, hp, hbits, hdvd⟩ := h.printed
  have hlast : n.last = List.zipWith (fun b m => b ||| ~~~ m) nn (maskBytes nn.length l) := by
    unfold last
    rw [hp.shown]
  rw [hlast, ← hp.same]
  refine ofBytes_to16_add hp.length (by simp) ?_
  rw [ofBytes_or_mask nn hp.bits, ← hbits, Nat.div_mul_cancel hdvd]

end Aligned

end IPNet

end Wig.Net
