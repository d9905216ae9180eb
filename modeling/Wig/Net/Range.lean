/-
Networks as sets of addresses: `IPNet.Contains`, and what printing a network and parsing the text
leaves of it.
-/
import Wig.Net.RoundTrip

namespace Wig.Net

/-- The four-byte form of an IPv4 address, and any other address as it is. -/
def IP.short (ip : IP) : IP := ip.to4.getD ip

/-- Two addresses agree under a mask. -/
def agrees : IP → IPMask → IP → Bool
  | a :: as, m :: ms, b :: bs => (a &&& m == b &&& m) && agrees as ms bs
  | [], [], [] => true
  | _, _, _ => false

/-- `IPNet.Contains`. -/
def IPNet.contains (n : IPNet) (ip : IP) : Bool :=
  match networkNumberAndMask n with
  | none => false
  | some (nn, m) => agrees nn m ip.short

/-- No address is in both. -/
def IPNet.Apart (n m : IPNet) : Prop := ∀ ip : IP, ¬ (n.contains ip = true ∧ m.contains ip = true)

theorem agrees_self : ∀ {a : IP} {m : IPMask}, a.length = m.length → agrees a m a = true
  | [], [], _ => rfl
  | a :: as, m :: ms, h => by
    rw [agrees, agrees_self (Nat.succ.inj h), beq_self_eq_true]
    rfl

theorem agrees_iff : ∀ {a b : IP} {m : IPMask}, a.length = m.length →
    (agrees a m b = true ↔ b.length = m.length ∧ List.zipWith (· &&& ·) a m = List.zipWith (· &&& ·) b m)
  | [], [], [], _ => by simp [agrees]
  | [], _ :: _, [], _ => by simp [agrees]
  | a :: as, [], m :: ms, _ => by simp [agrees]
  | a :: as, b :: bs, m :: ms, h => by
    have hlen : as.length = ms.length := Nat.succ.inj h
    rw [agrees, Bool.and_eq_true, agrees_iff hlen, beq_iff_eq]
    simp only [List.length_cons, Nat.add_right_cancel_iff, List.zipWith_cons_cons, List.cons.injEq]
    tauto

/-- The network that is printed has the address in its short form, and a mask of that length. -/
theorem networkNumberAndMask_wellFormed {n : IPNet} (h : n.WellFormed) :
    ∃ m, networkNumberAndMask n = some (n.ip.short, m) ∧ n.ip.short.length = m.length := by
  obtain ⟨ip, mask⟩ := n
  unfold networkNumberAndMask IP.short
  rcases h with ⟨p, hp, h4, l, hl, rfl⟩ | ⟨hip, l, hl, rfl⟩
  · simp only at hp
    simp only [hp, cidrMask_length_32 l hl, if_true, Option.getD_some]
    exact ⟨_, rfl, h4.trans (cidrMask_length_32 l hl).symm⟩
  · have hmask := cidrMask_length_128 l hl
    simp only at hip
    cases hp : ip.to4 with
    | none =>
      simp only [hip, hmask, and_self, if_true, Option.getD_none]
      exact ⟨_, rfl, hmask.symm⟩
    | some p =>
      simp only [hmask, show ¬ (16 : Nat) = 4 by decide, if_false, if_true, Option.getD_some]
      exact ⟨_, rfl, by rw [to4_length hp, List.length_drop, hmask]⟩

/-- A network contains its address. -/
theorem IPNet.WellFormed.contains_ip {n : IPNet} (h : n.WellFormed) : n.contains n.ip = true := by
  obtain ⟨m, hnn, hlen⟩ := networkNumberAndMask_wellFormed h
  unfold IPNet.contains
  rw [hnn]
  exact agrees_self hlen

/-- The network parsed from a text prints as the one the text is of. -/
theorem parseCIDR_chars_network {n : IPNet} (h : n.WellFormed) {ip : IP} {m : IPMask}
    (hp : parseCIDR n.chars = some (ip, m)) : networkNumberAndMask ⟨ip, m⟩ = networkNumberAndMask n := by
  obtain ⟨nip, mask⟩ := n
  rcases h with ⟨p, hp4, h4, l, hl, rfl⟩ | ⟨hip, l, hl, rfl⟩
  · rw [chars_v4 hp4 hl, parseCIDR_v4 h4 hl] at hp
    cases hp
    unfold networkNumberAndMask
    simp only at hp4
    simp only [hp4, to4_v4InV6 h4]
  · simp only at hip
    cases hp4 : nip.to4 with
    | none =>
      rw [chars_v6 hp4 hip hl, parseCIDR_v6 hip hl] at hp
      cases hp
      rfl
    | some p =>
      have h4 := to4_length hp4
      have hl' : l - 96 ≤ 32 := by omega
      rw [chars_v4_mask16 hp4 hl, parseCIDR_v4 h4 hl'] at hp
      cases hp
      unfold networkNumberAndMask
      simp only [hp4, to4_v4InV6 h4, cidrMask_length_32 _ hl', cidrMask_length_128 l hl,
        show ¬ (16 : Nat) = 4 by decide, if_true, if_false, cidrMask_drop l hl]

/-- `ParseCIDR` gives addresses of sixteen bytes. -/
theorem parseCIDR_length {s : List Char} {ip : IP} {m : IPMask} (h : parseCIDR s = some (ip, m)) : ip.length = 16 := by
  unfold parseCIDR at h
  obtain ⟨⟨addr, mask⟩, -, h⟩ := Option.bind_eq_some_iff.1 h
  simp only at h
  split at h
  · split at h
    · rename_i ip' hip
      split at h
      · cases h
        obtain ⟨p, hp, rfl⟩ := parseIPv4_shape hip
        rw [List.length_append, hp]
        rfl
      · cases h
    · split at h
      · rename_i ip' hip
        split at h
        · cases h; exact parseIPv6_length hip
        · cases h
      · cases h
  · cases h

end Wig.Net
