/-
Which addresses the generator gives, and which of them `nextFreeIP` returns: the first addresses
after the interface's own that no allocated range has. Counting is by the prefix length, from
whatever address the interface has.
-/
import Wig.Net.Subnet
import Wig.Registration.Allocate

namespace Wig.Registration

open Wig.Lib Wig.Net Wig.Model CIDR

/-! ## The addresses as numbers -/

/-- The `k`-th address after the network's own. -/
def host (n : IPNet) (k : Nat) : IP := toBytes n.ip.length (ofBytes n.ip + k)

/-- How many addresses the generator gives. -/
def span (n : IPNet) : Nat := 2 ^ ((maskSize n.mask).2 - (maskSize n.mask).1) - 2

theorem ofBytes_incrementBytes : ∀ l : List UInt8,
    ofBytes (incrementBytes l).reverse = (ofBytes l.reverse + 1) % 256 ^ l.length
  | [] => rfl
  | b :: bs => by
    have hlt := ofBytes_lt bs.reverse
    have hb := b.toNat_lt
    have hadd : (b + 1).toNat = (b.toNat + 1) % 256 := UInt8.toNat_add b 1
    rw [List.length_reverse] at hlt
    rw [incrementBytes, List.length_cons, List.reverse_cons, ofBytes_concat]
    split
    · rename_i hne
      have hne : (b + 1).toNat ≠ 0 := fun h => hne (UInt8.toNat_inj.1 h)
      have hnext : (b + 1).toNat = b.toNat + 1 := by omega
      rw [List.reverse_cons, ofBytes_concat, hnext, Nat.pow_succ, Nat.mod_eq_of_lt (by omega), Nat.add_assoc]
    -- the byte overflows to zero, and the carry goes on
    · rename_i heq
      have hzero : (b + 1).toNat = 0 := by rw [not_not.1 heq]; rfl
      have hlast : b.toNat + 1 = 256 := by omega
      rw [List.reverse_cons, ofBytes_concat, hzero, ofBytes_incrementBytes bs, Nat.add_zero,
        Nat.pow_succ', ← Nat.mul_mod_mul_left, Nat.add_assoc, hlast, Nat.mul_add]

theorem iterate_incrementIP (ip : IP) (k : Nat) : incrementIP^[k] ip = toBytes ip.length (ofBytes ip + k) := by
  induction k with
  | zero => exact eq_toBytes rfl (Nat.mod_eq_of_lt (ofBytes_lt ip)).symm
  | succ k ih =>
    rw [Function.iterate_succ_apply', ih]
    refine eq_toBytes (by simp) ?_
    have hinc := ofBytes_incrementBytes (toBytes ip.length (ofBytes ip + k)).reverse
    rw [List.reverse_reverse, List.length_reverse, toBytes_length, ofBytes_toBytes, Nat.mod_add_mod] at hinc
    exact hinc

/-! ## The calls of `Next` -/

/-- What call number `k` of `Next` returns, counted from zero. -/
def IPNetGenerator.value (g : IPNetGenerator) (k : Nat) : Option IP :=
  ((fun g : IPNetGenerator => g.next.2)^[k] g).next.1

theorem IPNetGenerator.value_eq (k : Nat) : ∀ g : IPNetGenerator,
    g.value k = if g.idx + k < g.count then some (incrementIP^[k] g.current) else none := by
  induction k with
  | zero =>
    intro g
    by_cases hlt : g.idx < g.count
    · rw [if_pos (by omega)]
      exact congrArg Prod.fst (next_of_lt hlt)
    · rw [if_neg (by omega)]
      exact congrArg Prod.fst (next_of_ge (Nat.le_of_not_lt hlt))
  | succ k ih =>
    intro g
    have hstep : g.value (k + 1) = g.next.2.value k := rfl
    rw [hstep, ih]
    by_cases hlt : g.idx < g.count
    · rw [next_of_lt hlt, Function.iterate_succ_apply]
      exact if_congr (by simp only; omega) rfl rfl
    · rw [next_of_ge (Nat.le_of_not_lt hlt), if_neg (by simp only; omega), if_neg (by omega)]

theorem host_succ (n : IPNet) (k : Nat) : incrementIP^[k] (incrementIP n.ip) = host n (k + 1) := by
  rw [← Function.iterate_succ_apply, iterate_incrementIP]
  rfl

theorem value_new (n : IPNet) (k : Nat) :
    (newGeneratorFromIPNet n).value k = if k < span n then some (host n (k + 1)) else none := by
  have hcurrent : (newGeneratorFromIPNet n).current = incrementIP n.ip := rfl
  rw [IPNetGenerator.value_eq, hcurrent, host_succ]
  refine if_congr ?_ rfl rfl
  show 1 + k < 2 ^ _ - 1 ↔ k < 2 ^ _ - 2
  omega

theorem addresses_eq (n : IPNet) : addresses n = (List.range (span n)).map fun k => host n (k + 1) := by
  have hcount : (newGeneratorFromIPNet n).count - (newGeneratorFromIPNet n).idx = span n := by
    show 2 ^ _ - 1 - 1 = 2 ^ _ - 2
    omega
  unfold addresses IPNetGenerator.rest
  rw [hcount, ← List.range_map_iterate]
  exact List.map_congr_left fun k _ => host_succ n k

/-! ## The search -/

/-- The loop of `nextFreeIP` for a number of rounds; `none` if it has not returned by then. -/
def searchRounds (taken : IP → Bool) : Nat → IPNetGenerator → Option (Except Error IP)
  | 0, _ => none
  | rounds + 1, g =>
    match g.next with
    | (none, _) => some (.error .poolExhausted)
    | (some ip, g') => if taken ip then searchRounds taken rounds g' else some (.ok ip)

theorem searchRounds_eq (taken : IP → Bool) : ∀ (rounds : Nat) (g : IPNetGenerator), g.count - g.idx < rounds →
    searchRounds taken rounds g = some (searchFree taken rounds g)
  | 0, _, h => absurd h (Nat.not_lt_zero _)
  | rounds + 1, g, h => by
    unfold searchRounds searchFree
    by_cases hlt : g.idx < g.count
    · rw [IPNetGenerator.next_of_lt hlt]
      have ih := searchRounds_eq taken rounds { g with idx := g.idx + 1, current := incrementIP g.current } (by
        show g.count - (g.idx + 1) < rounds
        omega)
      cases htaken : taken g.current with
      | true => simpa only [htaken, if_true] using ih
      | false => simp [htaken]
    · rw [IPNetGenerator.next_of_ge (Nat.le_of_not_lt hlt)]

section Search

variable {contains : List IPNet → IP → Bool} {n : IPNet} {allocated : List IPNet}

/-- The search returns the first address after the network's own that is not taken. -/
theorem nextFreeIP_ok_iff {ip : IP} : nextFreeIP contains n allocated = .ok ip ↔ ∃ k < span n, ip = host n (k + 1) ∧
    contains allocated ip = false ∧ ∀ j < k, contains allocated (host n (j + 1)) = true := by
  rw [nextFreeIP_eq, addresses_eq, List.find?_map]
  cases hfind : (List.range (span n)).find? ((fun ip => !contains allocated ip) ∘ fun k => host n (k + 1)) with
  | none =>
    rw [List.find?_range_eq_none] at hfind
    refine iff_of_false (fun h => by cases h) ?_
    rintro ⟨k, hk, rfl, hfree, -⟩
    have htaken := hfind k hk
    simp [hfree] at htaken
  | some k =>
    obtain ⟨hfree, hk, hbefore⟩ := List.find?_range_eq_some.1 hfind
    rw [List.mem_range] at hk
    have hfree : contains allocated (host n (k + 1)) = false := by simpa using hfree
    have hbefore : ∀ j < k, contains allocated (host n (j + 1)) = true := fun j hj => by simpa using hbefore j hj
    constructor
    · intro h
      cases h
      exact ⟨k, hk, rfl, hfree, hbefore⟩
    · rintro ⟨j, hj, rfl, hfree', hbefore'⟩
      rcases Nat.lt_trichotomy j k with hlt | rfl | hlt
      · rw [hbefore j hlt] at hfree'; cases hfree'
      · rfl
      · rw [hbefore' k hlt] at hfree; cases hfree

theorem nextFreeIP_error_iff {e : Error} : nextFreeIP contains n allocated = .error e ↔
    e = .poolExhausted ∧ ∀ k < span n, contains allocated (host n (k + 1)) = true := by
  rw [nextFreeIP_eq, addresses_eq, List.find?_map]
  cases hfind : (List.range (span n)).find? ((fun ip => !contains allocated ip) ∘ fun k => host n (k + 1)) with
  | none =>
    rw [List.find?_range_eq_none] at hfind
    have htaken : ∀ k < span n, contains allocated (host n (k + 1)) = true := fun k hk => by simpa using hfind k hk
    exact ⟨fun h => by cases h; exact ⟨rfl, htaken⟩, fun h => by rw [h.1]; rfl⟩
  | some k =>
    obtain ⟨hfree, hk, -⟩ := List.find?_range_eq_some.1 hfind
    rw [List.mem_range] at hk
    refine iff_of_false (fun h => by cases h) ?_
    rintro ⟨-, htaken⟩
    simp [htaken k hk] at hfree

end Search

/-! ## Networks with their base address -/

/-- The ranger reports membership in the networks that were inserted. -/
def Reports (contains : List IPNet → IP → Bool) : Prop :=
  ∀ nets ip, contains nets ip = true ↔ ∃ m ∈ nets, m.contains ip = true

theorem bruteContains_reports : Reports bruteContains := fun _ _ => List.any_eq_true

/-- No allocated range has the address. -/
def Free (allocated : List IPNet) (ip : IP) : Prop := ∀ m ∈ allocated, m.contains ip = false

theorem Reports.free_iff {contains : List IPNet → IP → Bool} (h : Reports contains) {allocated : List IPNet} {ip : IP} :
    contains allocated ip = false ↔ Free allocated ip := by
  rw [← Bool.not_eq_true, h]
  simp [Free]

theorem Reports.taken_iff {contains : List IPNet → IP → Bool} (h : Reports contains)
    {allocated : List IPNet} {ip : IP} : contains allocated ip = true ↔ ¬ Free allocated ip := by
  rw [← h.free_iff, Bool.not_eq_false]

/-- The search over the allocated ranges. -/
theorem Reports.nextFreeIP_ok_iff {contains : List IPNet → IP → Bool} (h : Reports contains) {n : IPNet}
    {allocated : List IPNet} {ip : IP} :
    nextFreeIP contains n allocated = .ok ip ↔ ∃ k < span n, ip = host n (k + 1) ∧
      Free allocated ip ∧ ∀ j < k, ¬ Free allocated (host n (j + 1)) := by
  simp only [Registration.nextFreeIP_ok_iff, h.free_iff, h.taken_iff]

theorem Reports.nextFreeIP_error_iff {contains : List IPNet → IP → Bool} (h : Reports contains) {n : IPNet}
    {allocated : List IPNet} {e : Error} :
    nextFreeIP contains n allocated = .error e ↔ e = .poolExhausted ∧ ∀ k < span n,
      ¬ Free allocated (host n (k + 1)) := by
  simp only [Registration.nextFreeIP_error_iff, h.taken_iff]

/-- The search stops at a free address, or before it. -/
theorem Reports.nextFreeIP_found {contains : List IPNet → IP → Bool} (h : Reports contains) {n : IPNet}
    {allocated : List IPNet} {k : Nat} (hk : k < span n) (hfree : Free allocated (host n (k + 1))) :
    ∃ j ≤ k, nextFreeIP contains n allocated = .ok (host n (j + 1)) ∧ Free allocated (host n (j + 1)) := by
  cases hres : nextFreeIP contains n allocated with
  | ok ip =>
    obtain ⟨j, -, rfl, hfree', htaken⟩ := h.nextFreeIP_ok_iff.1 hres
    exact ⟨j, Nat.le_of_not_lt fun hlt => htaken k hlt hfree, rfl, hfree'⟩
  | error e => exact absurd hfree ((h.nextFreeIP_error_iff.1 hres).2 k hk)

/-- The addresses of a network between its base and its last one. -/
def pool (n : IPNet) : Set IP :=
  {ip | ip.length = n.ip.length ∧ ofBytes n.ip < ofBytes ip ∧ ofBytes ip + 1 < ofBytes n.ip + 2 ^ n.hostBits}

/-- `Next` counts through the pool, and `nextFreeIP` finds its smallest free address. -/
structure Exact (contains : List IPNet → IP → Bool) (n : IPNet) (allocated : List IPNet) : Prop where
  counts : ∀ k, k + 2 < 2 ^ n.hostBits → ∃ ip, (newGeneratorFromIPNet n).value k = some ip ∧ ip.length = n.ip.length ∧
    ofBytes ip = ofBytes n.ip + (k + 1)
  ends : ∀ k, 2 ^ n.hostBits ≤ k + 2 → (newGeneratorFromIPNet n).value k = none
  inner : ∀ k ip, (newGeneratorFromIPNet n).value k = some ip → ip.equal n.first = false ∧ ip.equal n.last = false
  returns : ∃ rounds, searchRounds (contains allocated) rounds (newGeneratorFromIPNet n) =
    some (nextFreeIP contains n allocated)
  smallest : ∀ ip, nextFreeIP contains n allocated = .ok ip ↔
    ip ∈ pool n ∧ Free allocated ip ∧ ∀ x ∈ pool n, Free allocated x → ofBytes ip ≤ ofBytes x
  exhausted : nextFreeIP contains n allocated = .error .poolExhausted ↔ ∀ x ∈ pool n, ¬ Free allocated x

section Aligned

variable {n : IPNet}

theorem span_of_mask {n : IPNet} (h : ∃ l, (l ≤ 32 ∧ n.mask = cidrMask l 32) ∨ (l ≤ 128 ∧ n.mask = cidrMask l 128)) :
    span n = 2 ^ n.hostBits - 2 := by
  obtain ⟨ip, mask⟩ := n
  obtain ⟨l, ⟨hl, rfl⟩ | ⟨hl, rfl⟩⟩ := h
  · rw [hostBits_32 ip hl, span, maskSize, simpleMaskLength_32 l hl, cidrMask_length_32 l hl]
  · rw [hostBits_128 ip hl, span, maskSize, simpleMaskLength_128 l hl, cidrMask_length_128 l hl]

theorem span_of_aligned (h : n.Aligned) : span n = 2 ^ n.hostBits - 2 := span_of_mask h.mask

/-- Counting up from the base does not leave the bytes. -/
theorem ofBytes_host (h : n.Aligned) {k : Nat} (hk : k < 2 ^ n.hostBits) : ofBytes (host n k) = ofBytes n.ip + k := by
  obtain ⟨hle, q, hq⟩ := h.hostBits_le_dvd
  refine ofBytes_toBytes_of_lt ?_
  have hlt := ofBytes_lt n.ip
  have hpow : (256 : Nat) ^ n.ip.length = 2 ^ n.hostBits * 2 ^ (8 * n.ip.length - n.hostBits) := by
    rw [← Nat.pow_add, Nat.add_sub_cancel' hle, Nat.pow_mul]
  rw [hpow, hq] at hlt
  rw [hpow, hq]
  have hq' : q + 1 ≤ 2 ^ (8 * n.ip.length - n.hostBits) := Nat.lt_of_mul_lt_mul_left hlt
  calc 2 ^ n.hostBits * q + k < 2 ^ n.hostBits * (q + 1) := by rw [Nat.mul_add]; omega
    _ ≤ _ := Nat.mul_le_mul_left _ hq'

theorem mem_pool_iff (h : n.Aligned) {ip : IP} : ip ∈ pool n ↔ ∃ k < span n, ip = host n (k + 1) := by
  rw [span_of_aligned h]
  constructor
  · rintro ⟨hlen, hlow, hhigh⟩
    refine ⟨ofBytes ip - ofBytes n.ip - 1, by omega, ofBytes_inj (hlen.trans (toBytes_length _ _).symm) ?_⟩
    rw [ofBytes_host h (by omega)]
    omega
  · rintro ⟨k, hk, rfl⟩
    have hval := ofBytes_host h (k := k + 1) (by omega)
    exact ⟨toBytes_length _ _, by omega, by omega⟩

/-- The addresses of the pool are neither the network address nor the broadcast address. -/
theorem pool_inner (h : n.Aligned) {ip : IP} (hip : ip ∈ pool n) :
    ip.equal n.first = false ∧ ip.equal n.last = false := by
  obtain ⟨hlen, hlow, hhigh⟩ := hip
  have hval := ofBytes_to16_add h.ip hlen (k := ofBytes ip - ofBytes n.ip) (by omega)
  rw [← Bool.not_eq_true, ← Bool.not_eq_true, IP.equal_iff, IP.equal_iff, h.first_to16]
  constructor
  · intro heq
    rw [heq] at hval
    omega
  · intro heq
    rw [heq, h.last_to16] at hval
    omega

/-- On a network whose address is its base address, allocation is exact. -/
theorem nextFreeIP_exact {contains : List IPNet → IP → Bool} (hc : Reports contains) (h : n.Aligned)
    (allocated : List IPNet) :
    Exact contains n allocated where
  counts k hk := by
    refine ⟨host n (k + 1), ?_, toBytes_length _ _, ofBytes_host h (by omega)⟩
    rw [value_new, span_of_aligned h, if_pos (by omega)]
  ends k hk := by rw [value_new, span_of_aligned h, if_neg (by omega)]
  inner k ip hip := by
    rw [value_new] at hip
    split at hip
    · rename_i hk
      cases hip
      exact pool_inner h ((mem_pool_iff h).2 ⟨k, hk, rfl⟩)
    · cases hip
  returns := ⟨_, searchRounds_eq _ _ _ (Nat.lt_succ_of_le (Nat.sub_le _ _))⟩
  smallest ip := by
    rw [hc.nextFreeIP_ok_iff]
    constructor
    · rintro ⟨k, hk, rfl, hfree, hbefore⟩
      refine ⟨(mem_pool_iff h).2 ⟨k, hk, rfl⟩, hfree, fun x hx hxfree => ?_⟩
      obtain ⟨j, hj, rfl⟩ := (mem_pool_iff h).1 hx
      rw [span_of_aligned h] at hk hj
      rw [ofBytes_host h (by omega), ofBytes_host h (by omega)]
      by_contra hlt
      exact hbefore j (by omega) hxfree
    · rintro ⟨hip, hfree, hleast⟩
      obtain ⟨k, hk, rfl⟩ := (mem_pool_iff h).1 hip
      refine ⟨k, hk, rfl, hfree, fun j hj hfree' => ?_⟩
      have hle := hleast _ ((mem_pool_iff h).2 ⟨j, hj.trans hk, rfl⟩) hfree'
      rw [span_of_aligned h] at hk
      rw [ofBytes_host h (by omega), ofBytes_host h (by omega)] at hle
      omega
  exhausted := by
    rw [hc.nextFreeIP_error_iff]
    constructor
    · rintro ⟨-, htaken⟩ x hx
      obtain ⟨k, hk, rfl⟩ := (mem_pool_iff h).1 hx
      exact htaken k hk
    · exact fun htaken => ⟨rfl, fun k hk => htaken _ ((mem_pool_iff h).2 ⟨k, hk, rfl⟩)⟩

end Aligned

/-- 10.0.0.0/24 in four bytes, with one address allocated. -/
theorem nextFreeIP_exact_tenNet :
    Exact bruteContains ⟨[10, 0, 0, 0], cidrMask 24 32⟩ [⟨[10, 0, 0, 1], cidrMask 32 32⟩] :=
  nextFreeIP_exact bruteContains_reports ⟨.inl rfl, ⟨24, .inl ⟨by decide, rfl⟩⟩, by decide⟩ _

end Wig.Registration
