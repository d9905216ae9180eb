/-
Interfaces with an address of their own, which is the usual case. The generator counts as many
addresses as the prefix leaves, but from the interface's own address: its window is moved up by the
host part, past the broadcast address, and the addresses below the interface's own come into it only
where the count goes all the way round.
-/
import Wig.Net.Interval
import Wig.Registration.Pool

namespace Wig.Registration

open Wig.Lib Wig.Net Wig.Model CIDR

/-- An address that a peer of the interface can have. -/
structure Usable (n : IPNet) (ip : IP) : Prop where
  inside : n.contains ip = true
  notFirst : ip.equal n.first = false
  notLast : ip.equal n.last = false
  notOwn : ip.equal n.ip = false

/-- An address that is returned is usable and free, and the pool is exhausted only if no such address is left. -/
def UsableResult (n : IPNet) (allocated : List IPNet) : Except Error IP → Prop
  | .ok ip => Usable n ip ∧ Free allocated ip
  | .error _ => ∀ ip, Usable n ip → ¬ Free allocated ip

/-- The addresses strictly between two numbers. -/
def between (lo hi : Nat) : Set IP := {x | x.length = 16 ∧ lo < x.number ∧ x.number < hi}

/-- What the interface's address, its prefix and the allocated ranges have to be like for the search to
give a usable address. In an IPv6 network over the IPv4 addresses those are not usable, so that the
search must not meet a free one. -/
inductive UsableFirst (n : IPNet) (allocated : List IPNet) : Prop where
  /-- An address between the interface's own and the last one is free. -/
  | above (x : IP) (inside : x ∈ between n.ip.number n.last.number) (free : Free allocated x)
      (foreign : ∀ y ∈ between n.ip.number (x.number + 1), n.Foreign y → ¬ Free allocated y)
  /-- All the addresses counted are taken, and all those between the first one and the interface's own. -/
  | full (counted : ∀ k < span n, ¬ Free allocated (host n (k + 1)))
      (below : ∀ x ∈ between n.first.number n.ip.number, ¬ n.Foreign x → ¬ Free allocated x)
  /-- A prefix of no bits in sixteen bytes: the count goes on from the lowest address, and stops two
  below the interface's own. -/
  | around (all : n.hostBits = 128) (x : IP) (inside : x ∈ between n.first.number (n.ip.number - 1))
      (free : Free allocated x) (taken : ∀ y : IP, y.length = 16 → y.number ≤ n.first.number ∨
        n.ip.number < y.number → ¬ Free allocated y)
      (foreign : ∀ y ∈ between n.first.number (x.number + 1), n.Foreign y → ¬ Free allocated y)

/-! ## The window -/

section Window

variable {n : IPNet} {allocated : List IPNet}

theorem usable_iff (h : n.WellFormed) {ip : IP} (hip : ip.length = 4 ∨ ip.length = 16) : Usable n ip ↔
    n.first.number < ip.number ∧ ip.number < n.last.number ∧ ip.number ≠ n.ip.number ∧ ¬ n.Foreign ip := by
  obtain ⟨l, hp, -⟩ := h.printed
  have hfirst := equal_iff_number hip (hp.first_length ▸ hp.length)
  have hlast := equal_iff_number hip (hp.last_length ▸ hp.length)
  have hown := equal_iff_number hip h.length
  constructor
  · rintro ⟨hin, hne, hne', hne''⟩
    obtain ⟨-, hlow, hhigh, hforeign⟩ := (h.contains_iff ip).1 hin
    rw [← Bool.not_eq_true, hfirst] at hne
    rw [← Bool.not_eq_true, hlast] at hne'
    rw [← Bool.not_eq_true, hown] at hne''
    exact ⟨by omega, by omega, hne'', hforeign⟩
  · rintro ⟨hlow, hhigh, hne, hforeign⟩
    refine ⟨(h.contains_iff ip).2 ⟨hip, by omega, by omega, hforeign⟩, ?_, ?_, ?_⟩
    · rw [← Bool.not_eq_true, hfirst]; omega
    · rw [← Bool.not_eq_true, hlast]; omega
    · rw [← Bool.not_eq_true, hown]; exact hne

/-- A usable address in sixteen bytes, which no range tells from the address as it is given. -/
theorem Usable.to16 (h : n.WellFormed) {ip : IP} (hu : Usable n ip) : ∃ x : IP, x.length = 16 ∧ Usable n x ∧
    (Free allocated x ↔ Free allocated ip) := by
  have hip := ((h.contains_iff ip).1 hu.inside).1
  have hlen := to16_length hip
  have hnum : ip.to16.number = ip.number := number_of_length hlen
  refine ⟨ip.to16, hlen, ?_, ?_⟩
  · have hu := (usable_iff h hip).1 hu
    rw [usable_iff h (.inr hlen), hnum, IPNet.Foreign, to4_to16 hip]
    exact hu
  · unfold Free IPNet.contains
    rw [short_to16 hip]

variable (h16 : n.ip.length = 16)
include h16

theorem host_length (k : Nat) : (host n k).length = 16 := (toBytes_length _ _).trans h16

theorem host_number (k : Nat) : (host n k).number = (n.ip.number + k) % 2 ^ 128 := by
  rw [number_of_length (host_length h16 k), number_of_length h16, host, ofBytes_toBytes, h16]
  rfl

theorem eq_host {x : IP} (hx : x.length = 16) {k : Nat} (hk : x.number = (n.ip.number + k) % 2 ^ 128) :
    x = host n k := by
  refine ofBytes_inj (hx.trans (host_length h16 k).symm) ?_
  rw [← number_of_length hx, ← number_of_length (host_length h16 k), host_number h16, hk]

/-- An address further up is so many calls away. -/
theorem eq_host_above {x : IP} (hx : x.length = 16) (h : n.ip.number < x.number) :
    x = host n (x.number - n.ip.number - 1 + 1) := by
  have hlt := number_lt (.inr hx)
  exact eq_host h16 hx (by rw [Nat.mod_eq_of_lt (by omega)]; omega)

/-- An address below is met after the count has gone round. -/
theorem eq_host_around {x : IP} (hx : x.length = 16) (h : x.number < n.ip.number) :
    x = host n (2 ^ 128 + x.number - n.ip.number - 1 + 1) := by
  have hlt := number_lt (.inr h16)
  refine eq_host h16 hx ?_
  rw [show n.ip.number + (2 ^ 128 + x.number - n.ip.number - 1 + 1) = x.number + 2 ^ 128 by omega, Nat.add_mod_right,
    Nat.mod_eq_of_lt (by omega)]

/-- The count crosses the highest address at most once. -/
theorem host_number_cases {k : Nat} (hk : k < 2 ^ 128) : (host n k).number = n.ip.number + k ∨
    (2 ^ 128 ≤ n.ip.number + k ∧ (host n k).number = n.ip.number + k - 2 ^ 128) := by
  have hlt := number_lt (.inr h16)
  rw [host_number h16]
  rcases Nat.lt_or_ge (n.ip.number + k) (2 ^ 128) with hlow | hhigh
  · exact .inl (Nat.mod_eq_of_lt hlow)
  · exact .inr ⟨hhigh, by rw [Nat.mod_eq_sub_mod hhigh, Nat.mod_eq_of_lt (by omega)]⟩

variable (h : n.WellFormed)
include h

/-- Only the longest count comes back into the network. -/
theorem hostBits_of_wrap {k : Nat} (hk : k < span n) (hlow : 2 ^ 128 + n.first.number < n.ip.number + (k + 1)) :
    n.hostBits = 128 := by
  have hspan := span_of_mask h.mask
  have hown := number_lt (.inr h16)
  obtain ⟨-, hlast, hbits⟩ := h.interval
  by_contra hne
  have hle := h.hostBits_le
  have hhalf := Nat.pow_le_pow_right (n := 2) (by decide) (show n.hostBits ≤ 127 by omega)
  omega

variable {contains : List IPNet → IP → Bool} (hc : Reports contains)
include hc

theorem UsableFirst.usable (hu : UsableFirst n allocated) :
    UsableResult n allocated (nextFreeIP contains n allocated) := by
  have hspan := span_of_mask h.mask
  obtain ⟨hfirst, hlast, hbits⟩ := h.interval
  cases hu with
  | above x inside free foreign =>
    obtain ⟨hx, hlow, hhigh⟩ := inside
    obtain ⟨k, hk, hres, hfree⟩ := hc.nextFreeIP_found (n := n) (by omega) (eq_host_above h16 hx hlow ▸ free)
    have hlt := number_lt (.inr hx)
    have hnum := host_number h16 (k + 1)
    rw [Nat.mod_eq_of_lt (by omega)] at hnum
    have hlen := host_length h16 (k + 1)
    rw [hres]
    refine ⟨(usable_iff h (.inr hlen)).2 ⟨by omega, by omega, by omega, fun hf => ?_⟩, hfree⟩
    exact foreign _ ⟨hlen, by omega, by omega⟩ hf hfree
  | full counted below =>
    rw [hc.nextFreeIP_error_iff.2 ⟨rfl, counted⟩]
    intro ip hip
    obtain ⟨x, hx, hux, hiff⟩ := hip.to16 h
    obtain ⟨hlow, hhigh, hne, hforeign⟩ := (usable_iff h (.inr hx)).1 hux
    rw [← hiff]
    rcases Nat.lt_or_gt_of_ne hne with hlt | hgt
    · exact below x ⟨hx, hlow, hlt⟩ hforeign
    · rw [eq_host_above h16 hx hgt]
      exact counted _ (by omega)
  | around all x inside free taken foreign =>
    obtain ⟨hx, hlow, hhigh⟩ := inside
    rw [all] at hspan
    have hown := number_lt (.inr h16)
    obtain ⟨k, hk, hres, hfree⟩ := hc.nextFreeIP_found (n := n) (by omega) (eq_host_around h16 hx (by omega) ▸ free)
    have hlen := host_length h16 (k + 1)
    have hnum := host_number_cases h16 (k := k + 1) (by omega)
    -- what is counted before the wrap is above the interface's own address, so it is taken
    have hin : ¬ ((host n (k + 1)).number ≤ n.first.number ∨ n.ip.number < (host n (k + 1)).number) :=
      fun hout => taken _ hlen hout hfree
    rw [hres]
    refine ⟨(usable_iff h (.inr hlen)).2 ⟨by omega, by omega, by omega, fun hf => ?_⟩, hfree⟩
    exact foreign _ ⟨hlen, by omega, by omega⟩ hf hfree

theorem usableFirst_of_usable (hu : UsableResult n allocated (nextFreeIP contains n allocated)) :
    UsableFirst n allocated := by
  have hspan := span_of_mask h.mask
  have hall := Nat.pow_le_pow_right (n := 2) (by decide) h.hostBits_le
  have hown := number_lt (.inr h16)
  obtain ⟨hfirst, hlast, hbits⟩ := h.interval
  cases hres : nextFreeIP contains n allocated with
  | error e =>
    rw [hres] at hu
    refine .full (hc.nextFreeIP_error_iff.1 hres).2 fun x hx hforeign => hu x ?_
    obtain ⟨hlen, hlow, hhigh⟩ := hx
    exact (usable_iff h (.inr hlen)).2 ⟨hlow, by omega, by omega, hforeign⟩
  | ok ip =>
    rw [hres] at hu
    obtain ⟨husable, hfree⟩ := hu
    obtain ⟨k, hk, rfl, -, htaken⟩ := hc.nextFreeIP_ok_iff.1 hres
    have hlen := host_length h16 (k + 1)
    obtain ⟨hlow, hhigh, hne, hforeign⟩ := (usable_iff h (.inr hlen)).1 husable
    have hmet : ∀ j ≤ k, n.Foreign (host n (j + 1)) → ¬ Free allocated (host n (j + 1)) := by
      intro j hj hf
      rcases Nat.lt_or_eq_of_le hj with hlt | rfl
      · exact htaken j hlt
      · exact absurd hf hforeign
    rcases host_number_cases h16 (k := k + 1) (by omega) with hnum | ⟨hwrap, hnum⟩
    · refine .above _ ⟨hlen, by omega, hhigh⟩ hfree fun y hy hf hfree' => ?_
      obtain ⟨hleny, hlowy, hhighy⟩ := hy
      rw [eq_host_above h16 hleny hlowy] at hfree' hf
      exact hmet _ (by omega) hf hfree'
    · have hround := hostBits_of_wrap h16 h hk (by omega)
      rw [hround] at hspan
      refine .around hround _ ⟨hlen, hlow, by omega⟩ hfree (fun y hleny hout hfree' => ?_) fun y hy hf hfree' => ?_
      · rcases hout with hout | hout
        · rw [eq_host_around h16 hleny (by omega)] at hfree'
          exact htaken _ (by omega) hfree'
        · have hlt := number_lt (.inr hleny)
          rw [eq_host_above h16 hleny hout] at hfree'
          exact htaken _ (by omega) hfree'
      · obtain ⟨hleny, hlowy, hhighy⟩ := hy
        rw [eq_host_around h16 hleny (by omega)] at hfree' hf
        exact hmet _ (by omega) hf hfree'

end Window

/-- The generator counts from the interface's own address, so what the search gives is usable just where it
meets a free address before the end of the network, or where there is none to be found. -/
theorem nextFreeIP_usable_iff {contains : List IPNet → IP → Bool} (hc : Reports contains) {s : List Char} {n : IPNet}
    (hs : parseCIDR s = some (n.ip, n.mask)) (allocated : List IPNet) :
    UsableResult n allocated (nextFreeIP contains n allocated) ↔ UsableFirst n allocated :=
  ⟨usableFirst_of_usable (parseCIDR_length hs) (parseCIDR_wellFormed hs) hc,
    UsableFirst.usable (parseCIDR_length hs) (parseCIDR_wellFormed hs) hc⟩

/-- An IPv4 interface has no foreign addresses, and its count does not go round. -/
theorem usableFirst_v4_iff {n : IPNet} {allocated : List IPNet} (h4 : n.ip.to4.isSome = true)
    (hbits : n.hostBits ≤ 32) :
    UsableFirst n allocated ↔ (∃ x ∈ between n.ip.number n.last.number, Free allocated x) ∨
      ((∀ k < span n, ¬ Free allocated (host n (k + 1))) ∧ ∀ x ∈ between n.first.number n.ip.number,
        ¬ Free allocated x) := by
  have hforeign : ∀ x, ¬ n.Foreign x := fun x hf => by rw [IPNet.Foreign, h4] at hf; cases hf.2
  constructor
  · rintro (⟨x, inside, free, -⟩ | ⟨counted, below⟩ | ⟨all, -⟩)
    · exact .inl ⟨x, inside, free⟩
    · exact .inr ⟨counted, fun x hx => below x hx (hforeign x)⟩
    · omega
  · rintro (⟨x, inside, free⟩ | ⟨counted, below⟩)
    · exact .above x inside free fun y _ hf => absurd hf (hforeign y)
    · exact .full counted fun x hx _ => below x hx

/-- 10.0.0.1/30, an interface address as it is usual. -/
def smallNet : IPNet := ⟨v4InV6Prefix ++ [10, 0, 0, 1], cidrMask 30 32⟩

theorem parseCIDR_smallNet : parseCIDR "10.0.0.1/30".toList = some (smallNet.ip, smallNet.mask) := by decide +kernel

theorem nextFreeIP_usable_smallNet :
    UsableFirst smallNet [] ∧ UsableResult smallNet [] (nextFreeIP bruteContains smallNet []) := by
  have hfirst : UsableFirst smallNet [] := by
    refine .above (v4InV6Prefix ++ [10, 0, 0, 2]) ⟨rfl, by decide, by decide⟩
      (fun m hm => (List.not_mem_nil hm).elim) ?_
    exact fun y _ hf => absurd hf.2 (by decide)
  exact ⟨hfirst, (nextFreeIP_usable_iff bruteContains_reports parseCIDR_smallNet []).2 hfirst⟩

/-- With its one other address taken, the broadcast address is handed out. -/
theorem broadcast_handed_out : ¬ ∀ contains, Reports contains → ∀ (s : String) (c : CIDR) (allocated : List IPNet),
    CIDR.parse s = .ok c → UsableResult c.ipnet allocated (nextFreeIP contains c.ipnet allocated) := by
  intro h
  obtain ⟨wf, hs⟩ := CIDR.parse_ok_of_parseCIDR (s := "10.0.0.1/30") (by decide) parseCIDR_smallNet
  have hres : UsableResult smallNet _ (nextFreeIP bruteContains smallNet _) :=
    h bruteContains bruteContains_reports _ _ [⟨[10, 0, 0, 2], cidrMask 32 32⟩] hs
  have hnext : nextFreeIP bruteContains smallNet [⟨[10, 0, 0, 2], cidrMask 32 32⟩] =
      .ok (v4InV6Prefix ++ [10, 0, 0, 3]) := by
    decide +kernel
  have hlast : IP.equal (v4InV6Prefix ++ [10, 0, 0, 3]) smallNet.last = true := by decide
  rw [hnext] at hres
  rw [hres.1.notLast] at hlast
  cases hlast

end Wig.Registration
