/-
A network as an interval of numbers. By their sixteen bytes the addresses are numbers below 2^128,
and `IPNet.Contains` is membership in the interval from the network address to the broadcast
address, but for the IPv4 addresses in an IPv6 network: `Contains` compares by the four bytes there.
-/
import Wig.Net.Subnet

namespace Wig.Net

open Wig.Lib

/-- An address as a number, by its sixteen bytes. -/
def IP.number (ip : IP) : Nat := ofBytes ip.to16

/-- An IPv4 address where the network is an IPv6 one. -/
def IPNet.Foreign (n : IPNet) (ip : IP) : Prop := ip.to4.isSome = true ∧ n.ip.to4.isSome = false

instance (n : IPNet) (ip : IP) : Decidable (n.Foreign ip) := inferInstanceAs (Decidable (_ ∧ _))

/-! ## Addresses -/

theorem number_lt {ip : IP} (h : ip.length = 4 ∨ ip.length = 16) : ip.number < 2 ^ 128 := by
  have hlt := ofBytes_lt ip.to16
  rw [to16_length h] at hlt
  exact hlt

theorem number_of_length {ip : IP} (h : ip.length = 16) : ip.number = ofBytes ip := congrArg ofBytes (to16_of_length h)

theorem number_short {ip : IP} (h : ip.length = 4 ∨ ip.length = 16) : ip.short.number = ip.number :=
  congrArg ofBytes (to16_short h)

theorem to4_to16 {ip : IP} (h : ip.length = 4 ∨ ip.length = 16) : ip.to16.to4 = ip.to4 := by
  rcases h with h4 | h16
  · rw [to16_of_length_four h4, to4_v4InV6 h4, to4_self h4]
  · rw [to16_of_length h16]

theorem short_to16 {ip : IP} (h : ip.length = 4 ∨ ip.length = 16) : ip.to16.short = ip.short := by
  unfold IP.short
  rw [to4_to16 h]
  rcases h with h4 | h16
  · rw [to4_self h4, Option.getD_some, Option.getD_some]
  · rw [to16_of_length h16]

theorem equal_iff_number {a b : IP} (ha : a.length = 4 ∨ a.length = 16) (hb : b.length = 4 ∨ b.length = 16) :
    a.equal b = true ↔ a.number = b.number := by
  rw [IP.equal_iff]
  exact ⟨congrArg ofBytes, ofBytes_inj ((to16_length ha).trans (to16_length hb).symm)⟩

theorem number_le_iff {a b : IP} (hb : b.length = 4 ∨ b.length = 16) (hl : a.length = b.length) :
    a.number ≤ b.number ↔ ofBytes a ≤ ofBytes b := by
  rcases Nat.le_total (ofBytes a) (ofBytes b) with hle | hle
  · have hadd := ofBytes_to16_add (hl ▸ hb) hl.symm (k := ofBytes b - ofBytes a) (by omega)
    exact iff_of_true (by unfold IP.number; omega) hle
  · have hadd := ofBytes_to16_add hb hl (k := ofBytes a - ofBytes b) (by omega)
    unfold IP.number
    omega

theorem short_length_iff {ip : IP} (h : ip.length = 4 ∨ ip.length = 16) :
    (ip.short.length = 4 ↔ ip.to4.isSome = true) ∧ (ip.short.length = 16 ↔ ip.to4.isSome = false) := by
  unfold IP.short
  cases hp : ip.to4 with
  | some p => simp [to4_length hp]
  | none =>
    have h16 : ip.length = 16 := h.resolve_left fun h4 => by rw [to4_self h4] at hp; cases hp
    simp [h16]

/-- The IPv4 addresses are those with the prefix of a mapped address. -/
theorem isSome_to4_iff {ip : IP} (h : ip.length = 4 ∨ ip.length = 16) :
    ip.to4.isSome = true ↔ ip.number / 2 ^ 32 = 65535 := by
  rcases h with h4 | h16
  · have hlt := ofBytes_lt ip
    rw [h4] at hlt
    refine iff_of_true (by rw [to4_self h4]; rfl) ?_
    rw [IP.number, to16_of_length_four h4, ofBytes_mapped h4]
    omega
  · have hdrop : (ip.drop 12).length = 4 := by simp [h16]
    have hlow := ofBytes_lt (ip.drop 12)
    rw [hdrop] at hlow
    have happ := ofBytes_append (ip.take 12) (ip.drop 12)
    rw [List.take_append_drop, hdrop] at happ
    have hnum : ip.number / 2 ^ 32 = ofBytes (ip.take 12) := by
      rw [number_of_length h16, happ]
      omega
    have hprefix : ofBytes v4InV6Prefix = 65535 := by decide
    have hlen : (ip.take 12).length = v4InV6Prefix.length := by simp [h16, v4InV6Prefix]
    rw [hnum, ← hprefix, IP.to4, if_neg (by omega)]
    constructor
    · intro hsome
      split at hsome
      · rename_i hp
        rw [hp.2]
      · cases hsome
    · intro heq
      rw [if_pos ⟨h16, ofBytes_inj hlen heq⟩]
      rfl

/-! ## Networks -/

/-- A network prints with its address in the short form. Of a long mask over an IPv4 address the
first 96 bits do not count, so that the host bits can be more than those printed. -/
theorem IPNet.WellFormed.printed {n : IPNet} (h : n.WellFormed) :
    ∃ l, n.Printed n.ip.short l ∧ 8 * n.ip.short.length - l ≤ n.hostBits := by
  have hlen := h.length
  obtain ⟨ip, mask⟩ := n
  rcases h with ⟨p, hp, h4, l, hl, rfl⟩ | ⟨hip, l, hl, rfl⟩
  · simp only at hp
    have hshort : ip.short = p := by rw [IP.short, hp, Option.getD_some]
    refine ⟨l, ⟨?_, .inl (hshort ▸ h4), to16_short hlen, by rw [hshort, h4]; omega⟩, ?_⟩
    · rw [hshort, h4, ← cidrMask_32 hl, networkNumberAndMask]
      simp only [hp, cidrMask_length_32 l hl, if_true]
    · rw [hshort, h4, hostBits_32 ip hl]
  · simp only at hip
    have hmask := cidrMask_length_128 l hl
    rw [hostBits_128 ip hl]
    cases hp : ip.to4 with
    | none =>
      have hshort : ip.short = ip := by rw [IP.short, hp, Option.getD_none]
      refine ⟨l, ⟨?_, .inr (by rw [hshort, hip]), to16_short hlen, by rw [hshort, hip]; omega⟩, by rw [hshort, hip]⟩
      rw [hshort, hip, ← cidrMask_128 hl, networkNumberAndMask]
      simp only [hp, hip, hmask, and_self, if_true]
    | some p =>
      have h4 := to4_length hp
      have hshort : ip.short = p := by rw [IP.short, hp, Option.getD_some]
      refine ⟨l - 96, ⟨?_, .inl (hshort ▸ h4), to16_short hlen, by rw [hshort, h4]; omega⟩, by rw [hshort, h4]; omega⟩
      rw [hshort, h4, ← cidrMask_32 (by omega), ← cidrMask_drop l hl, networkNumberAndMask]
      simp only [hp, hmask, show ¬ (16 : Nat) = 4 by decide, if_true, if_false]

namespace IPNet.Printed

variable {n : IPNet} {nn : IP} {l : Nat}

theorem first_eq (h : n.Printed nn l) : n.first = List.zipWith (· &&& ·) nn (maskBytes nn.length l) := by
  unfold first
  rw [h.shown]

theorem first_length (h : n.Printed nn l) : n.first.length = nn.length := by simp [h.first_eq]

theorem ofBytes_first (h : n.Printed nn l) :
    ofBytes n.first = ofBytes nn / 2 ^ (8 * nn.length - l) * 2 ^ (8 * nn.length - l) := by
  rw [h.first_eq, ofBytes_and_mask nn h.bits]

theorem last_eq (h : n.Printed nn l) : n.last = List.zipWith (fun b m => b ||| ~~~ m) nn (maskBytes nn.length l) := by
  unfold last
  rw [h.shown]

theorem last_length (h : n.Printed nn l) : n.last.length = nn.length := by simp [h.last_eq]

theorem last_number (h : n.Printed nn l) : n.last.number = n.first.number + (2 ^ (8 * nn.length - l) - 1) := by
  refine ofBytes_to16_add (h.first_length ▸ h.length) (h.last_length.trans h.first_length.symm) ?_
  rw [h.ofBytes_first, h.last_eq, ofBytes_or_mask nn h.bits]

/-- Within the family of the network, `Contains` is the comparison with the first and the last address. -/
theorem agrees_iff (h : n.Printed nn l) {ip : IP} (hlen : ip.length = nn.length) :
    agrees nn (maskBytes nn.length l) ip = true ↔ n.first.number ≤ ip.number ∧ ip.number ≤ n.last.number := by
  have hmask := maskBytes_length nn.length l
  have hfirst := h.ofBytes_first
  have hip := hlen.trans h.first_length.symm
  have hform : n.first.length = 4 ∨ n.first.length = 16 := h.first_length ▸ h.length
  have hval := ofBytes_and_mask ip (l := l) (hlen ▸ h.bits)
  rw [hlen] at hval
  have hpos := Nat.two_pow_pos (8 * nn.length - l)
  rw [Net.agrees_iff hmask.symm, hmask, ← h.first_eq, h.last_number]
  constructor
  · rintro ⟨-, heq⟩
    rw [← heq] at hval
    have hsum := Nat.div_add_mod' (ofBytes ip) (2 ^ (8 * nn.length - l))
    have hmod := Nat.mod_lt (ofBytes ip) hpos
    have hadd : ip.number = n.first.number + _ := ofBytes_to16_add hform hip (hval ▸ hsum.symm)
    omega
  · rintro ⟨hlow, hhigh⟩
    have hle := (number_le_iff (hip ▸ hform) hip.symm).1 hlow
    have hadd : ip.number = n.first.number + _ := ofBytes_to16_add hform hip (Nat.add_sub_cancel' hle).symm
    refine ⟨hlen, ofBytes_inj (by simp [h.first_length, hlen]) ?_⟩
    rw [hval, hfirst]
    congr 1
    rw [hfirst] at hle hadd
    exact ((Nat.div_eq_iff hpos).2 ⟨hle, by omega⟩).symm

end IPNet.Printed

namespace IPNet.WellFormed

variable {n : IPNet}

theorem mask (h : n.WellFormed) : ∃ l, (l ≤ 32 ∧ n.mask = cidrMask l 32) ∨ (l ≤ 128 ∧ n.mask = cidrMask l 128) := by
  rcases h with ⟨p, -, -, l, hl, hm⟩ | ⟨-, l, hl, hm⟩
  · exact ⟨l, .inl ⟨hl, hm⟩⟩
  · exact ⟨l, .inr ⟨hl, hm⟩⟩

theorem hostBits_le (h : n.WellFormed) : n.hostBits ≤ 128 := by
  obtain ⟨ip, m⟩ := n
  obtain ⟨l, ⟨hl, rfl⟩ | ⟨hl, rfl⟩⟩ := h.mask
  · rw [hostBits_32 ip hl]; omega
  · rw [hostBits_128 ip hl]; omega

/-- The network's own address is between the first and the last one, which are no more than the mask allows apart. -/
theorem interval (h : n.WellFormed) : n.first.number ≤ n.ip.number ∧ n.ip.number ≤ n.last.number ∧
    n.last.number < n.first.number + 2 ^ n.hostBits := by
  obtain ⟨l, hp, hbits⟩ := h.printed
  have hpow := Nat.pow_le_pow_right (n := 2) (by decide) hbits
  have hpos := Nat.two_pow_pos (8 * n.ip.short.length - l)
  obtain ⟨hlow, hhigh⟩ := (hp.agrees_iff rfl).1 (agrees_self (maskBytes_length _ l).symm)
  rw [number_short h.length] at hlow hhigh
  exact ⟨hlow, hhigh, by rw [hp.last_number]; omega⟩

/-- Between the ends of an IPv4 network there are only IPv4 addresses. -/
theorem isSome_to4 (h : n.WellFormed) (hn : n.ip.to4.isSome = true) {ip : IP} (hip : ip.length = 4 ∨ ip.length = 16)
    (hlow : n.first.number ≤ ip.number) (hhigh : ip.number ≤ n.last.number) : ip.to4.isSome = true := by
  obtain ⟨l, hp, -⟩ := h.printed
  have h4 := (short_length_iff h.length).1.2 hn
  have hends : ∀ {e : IP}, e.length = n.ip.short.length → e.number / 2 ^ 32 = 65535 := fun he =>
    (isSome_to4_iff (.inl (he.trans h4))).1 (by rw [to4_self (he.trans h4)]; rfl)
  have hfirst := hends hp.first_length
  have hlast := hends hp.last_length
  exact (isSome_to4_iff hip).2 (by omega)

/-- `Contains` is membership in the interval, foreign addresses apart. -/
theorem contains_iff (h : n.WellFormed) (ip : IP) : n.contains ip = true ↔ (ip.length = 4 ∨ ip.length = 16) ∧
    n.first.number ≤ ip.number ∧ ip.number ≤ n.last.number ∧ ¬ n.Foreign ip := by
  obtain ⟨l, hp, -⟩ := h.printed
  have hcontains : n.contains ip = agrees n.ip.short (maskBytes n.ip.short.length l) ip.short := by
    unfold contains
    rw [hp.shown]
  rw [hcontains]
  by_cases hip : ip.length = 4 ∨ ip.length = 16
  · have hforms := short_length_iff hip
    have hown := short_length_iff h.length
    by_cases hfam : ip.short.length = n.ip.short.length
    · rw [hp.agrees_iff hfam, number_short hip]
      have hnot : ¬ n.Foreign ip := by
        rintro ⟨hv4, hv6⟩
        rw [hforms.1.2 hv4, hown.2.2 hv6] at hfam
        cases hfam
      simp only [hip, hnot, not_false_eq_true, and_true, true_and]
    -- an address of the other family: four bytes against sixteen
    · have hno : agrees n.ip.short (maskBytes n.ip.short.length l) ip.short = false := by
        rw [← Bool.not_eq_true, Net.agrees_iff (maskBytes_length _ l).symm, maskBytes_length]
        exact fun hc => hfam hc.1
      refine iff_of_false (by rw [hno]; decide) ?_
      rintro ⟨-, hlow, hhigh, hforeign⟩
      cases hn : n.ip.to4.isSome with
      | true => exact hfam ((hforms.1.2 (h.isSome_to4 hn hip hlow hhigh)).trans (hown.1.2 hn).symm)
      | false =>
        cases hv : ip.to4.isSome with
        | true => exact hforeign ⟨hv, hn⟩
        | false => exact hfam ((hforms.2.2 hv).trans (hown.2.2 hn).symm)
  · refine iff_of_false ?_ fun hc => hip hc.1
    have hshort : ip.short = ip := by
      rw [IP.short, IP.to4, if_neg fun h4 => hip (.inl h4), if_neg fun h16 => hip (.inr h16.1), Option.getD_none]
    rw [hshort, Net.agrees_iff (maskBytes_length _ l).symm, maskBytes_length]
    exact fun hc => hip (hc.1 ▸ hp.length)

end IPNet.WellFormed

end Wig.Net
