/-
What `RegisterNewPeer` is documented to return: one host address for each family of the interface.
The mask of an address is made for its sixteen bytes, and both addresses go to one field, so only a
peer without addresses is as it should be.
-/
import Wig.Net.Subnet
import Wig.Registration.Register

namespace Wig.Registration

open Wig.Lib Wig.Net Wig.Model CIDR

/-! ## A peer with its addresses -/

/-- A range of one host: it prints as an address of the interface's range with all its bits, and has no other. -/
def HostOf (range : IPNet) (bits : Nat) (n : IPNet) : Prop :=
  ∃ ip : IP, n.chars = ip.chars ++ '/' :: utoa bits ∧ range.contains ip = true ∧ ∀ x : IP,
  n.contains x = true → x.equal ip = true

/-- The peer has an address in a field just if the interface has a range in it, and then a host of that range. -/
structure OneAddressEach (i : Interface) (p : Peer) : Prop where
  ip : networks p.ip ≠ [] ↔ networks i.ip ≠ []
  ip6 : networks p.ip6 ≠ [] ↔ networks i.ip6 ≠ []
  host : ∀ range ∈ networks i.ip, ∀ n ∈ networks p.ip, HostOf range 32 n
  host6 : ∀ range ∈ networks i.ip6, ∀ n ∈ networks p.ip6, HostOf range 128 n

/-- The peers that a call returns without an error are such. -/
def RegistersOneEach (contains : List IPNet → IP → Bool) (c : Call) (t : Tables) : Prop :=
  ∀ peer, registerNewPeer contains c t = (peer, none) → ∀ i, selectInterface t c.intfName = .ok i →
    OneAddressEach i peer

/-! ## What is assigned -/

/-- An address of IPv6 with 32 bits of mask has company. -/
theorem contains_v6 {ip : IP} (hlen : ip.length = 16) (hip : ip.to4 = none) {b : UInt8} (hb : b ≠ 0xff) :
    (newCIDR ip 32).ipnet.contains (ip.take 4 ++ List.replicate 12 b) = true := by
  have hmask : cidrMask 32 128 = [255, 255, 255, 255] ++ List.replicate 12 0 := by decide
  rw [newCIDR_ipnet hlen (by decide)]
  unfold IPNet.contains networkNumberAndMask IP.short
  simp only [hip, hlen, cidrMask_length_128 32 (by decide), and_self, if_true]
  match ip, hlen with
  | [_, _, _, _, _, _, _, _, _, _, _, _, _, _, _, _], _ =>
    rw [hmask]
    simp [IP.to4, v4InV6Prefix, List.replicate, agrees, hb]

/-- Whatever the address, its range is not one of a single host. -/
theorem not_hostOf_newCIDR {ip : IP} (hlen : ip.length = 16) (range : IPNet) :
    ¬ HostOf range 32 (newCIDR ip 32).ipnet := by
  rintro ⟨a, -, -, hsingle⟩
  cases hip : ip.to4 with
  | some p =>
    have h0 := (IP.equal_iff _ _).1 (hsingle [0, 0, 0, 0] (newCIDR_contains_v4 hlen hip rfl))
    have h1 := (IP.equal_iff _ _).1 (hsingle [0, 0, 0, 1] (newCIDR_contains_v4 hlen hip rfl))
    exact absurd (h0.trans h1.symm) (by decide)
  | none =>
    have h0 := (IP.equal_iff _ _).1 (hsingle _ (contains_v6 hlen hip (b := 0) (by decide)))
    have h1 := (IP.equal_iff _ _).1 (hsingle _ (contains_v6 hlen hip (b := 1) (by decide)))
    have heq := to16_inj (by simp) (h0.trans h1.symm)
    exact absurd (List.append_cancel_left heq) (by decide)

section Cases

variable {contains : List IPNet → IP → Bool} {allocated : List IPNet} {t : Tables} {c : Call}
  {i : Interface} {peer : Peer}

/-- Of an interface without a range in the second field, the address is one of the first, with 32 bits of mask. -/
theorem assignBoth_ip {before : Peer} (hlen : ∀ n ∈ networks i.ip, n.ip.length = 16) (hne : networks i.ip ≠ [])
    (hnil6 : networks i.ip6 = [])
    (h : (do assignIP contains allocated i.ip 32; assignIP contains allocated i.ip6 128 : Proc Peer Error Unit)
      before = (.ok (), peer)) :
    ∃ ip : IP, ip.length = 16 ∧ peer.ip = some (newCIDR ip 32) := by
  obtain ⟨_, mid, hfirst, hsecond⟩ := Proc.bind_ok h
  have hlen6 : ∀ n ∈ networks i.ip6, n.ip.length = 16 := by simp [hnil6]
  have hcases : Assigned contains allocated i.ip 32 before (assignIP contains allocated i.ip 32 before) :=
    assignIP_cases hlen 32 before
  have hcases6 : Assigned contains allocated i.ip6 128 mid (assignIP contains allocated i.ip6 128 mid) :=
    assignIP_cases hlen6 128 mid
  rw [hfirst] at hcases
  rw [hsecond] at hcases6
  cases hcases6 with
  | address ip hip hne6 => exact absurd hnil6 hne6
  | none =>
    cases hcases with
    | none hnil => exact absurd hnil hne
    | address ip hip => exact ⟨ip, hip, rfl⟩

theorem registerNewPeer_ip (hi : selectInterface t c.intfName = .ok i) (hne : networks i.ip ≠ [])
    (hnil6 : networks i.ip6 = []) (h : registerNewPeer contains c t = (peer, none)) :
    ∃ ip : IP, ip.length = 16 ∧ peer.ip = some (newCIDR ip 32) := by
  obtain ⟨allocated, hassign⟩ := registerNewPeer_assigned hi h
  exact assignBoth_ip (networks_length hi).1 hne hnil6 hassign

/-- A peer with an address is not as it should be: the second field is never set, and the first is no host. -/
theorem not_oneAddressEach (hi : selectInterface t c.intfName = .ok i) (hbare : ¬ Bare t c)
    (h : registerNewPeer contains c t = (peer, none)) (hip6 : peer.ip6 = none) (hset : networks peer.ip ≠ []) :
    ¬ OneAddressEach i peer := by
  intro hone
  have hnil6 : networks i.ip6 = [] := by
    by_contra hne6
    exact hone.ip6.2 hne6 (by rw [hip6]; rfl)
  have hne : networks i.ip ≠ [] := fun hnil => hbare ⟨i, hi, hnil, hnil6⟩
  obtain ⟨ip, hip, hpeer⟩ := registerNewPeer_ip hi hne hnil6 h
  obtain ⟨range, hrange⟩ := List.exists_mem_of_ne_nil _ hne
  obtain ⟨n, hn⟩ := List.exists_mem_of_ne_nil _ hset
  obtain ⟨c', hc', -, rfl⟩ := mem_networks hn
  have hhost := hone.host range hrange _ hn
  rw [hpeer] at hc'
  cases hc'
  exact not_hostOf_newCIDR hip range hhost

/-- A call that returns a peer returns it as it should just if the interface has no range at all. -/
theorem registersOneEach_iff (contains : List IPNet → IP → Bool) (c : Call) (t : Tables) :
    RegistersOneEach contains c t ↔ Refused contains c t ∨ Bare t c := by
  have hcase := registerNewPeer_cases contains c t
  rcases hres : registerNewPeer contains c t with ⟨peer, err⟩
  rw [hres] at hcase
  cases hcase with
  | refused _ e href => exact iff_of_true (fun p hp => by rw [hres] at hp; cases hp) (.inl href)
  | bare hnot hbare =>
    refine iff_of_true (fun p hp i hi => ?_) (.inr hbare)
    rw [hres] at hp
    cases hp
    obtain ⟨i', hi', hnil, hnil6⟩ := hbare
    rw [hi] at hi'
    cases hi'
    constructor
    · exact iff_of_false (fun h => h rfl) (fun h => h hnil)
    · exact iff_of_false (fun h => h rfl) (fun h => h hnil6)
    · simp [hnil]
    · simp [hnil6]
  | ranged n hn hnot hbare =>
    refine iff_of_false (fun h => ?_) (fun h => h.elim hnot hbare)
    cases hsel : selectInterface t c.intfName with
    | error e => exact hnot (refused_of_error hsel)
    | ok i =>
      refine not_oneAddressEach hsel hbare hres rfl ?_ (h _ hres i hsel)
      simp [networks, CIDR.isNil_eq_false hn]

end Cases

/-! ## A peer with the whole of IPv4 -/

/-- The interface 10.0.0.0/24, and no peer. -/
def oneInterface : Tables := ((start Store.fresh.db).after bruteContains 8 createInterface).store.db.tables

/-- The address of the peer is printed as 10.0.0.1/0. -/
theorem registered_whole_internet :
    ∃ peer : Peer, registerNewPeer bruteContains (registerKey "a") oneInterface = (peer, none) ∧
    peer.ip.map CIDR.string = some "10.0.0.1/0" ∧ ¬ RegistersOneEach bruteContains (registerKey "a") oneInterface := by
  have hnone : (registerNewPeer bruteContains (registerKey "a") oneInterface).2 = none := by decide +kernel
  have hstring : (registerNewPeer bruteContains (registerKey "a") oneInterface).1.ip.map CIDR.string =
      some "10.0.0.1/0" := by
    decide +kernel
  rcases hres : registerNewPeer bruteContains (registerKey "a") oneInterface with ⟨peer, err⟩
  rw [hres] at hnone hstring
  cases hnone
  refine ⟨peer, rfl, hstring, fun h => ?_⟩
  have hrange : (selectInterface oneInterface "wg0").toOption.map (fun i => networks i.ip) =
      some [tenNet.reread.ipnet] := by
    decide +kernel
  cases hsel : selectInterface oneInterface "wg0" with
  | error e => rw [hsel] at hrange; cases hrange
  | ok i =>
    rw [hsel] at hrange
    replace hrange : networks i.ip = [tenNet.reread.ipnet] := by simpa [Except.toOption] using hrange
    have hone := h peer hres i hsel
    obtain ⟨n, hn⟩ := List.exists_mem_of_ne_nil _ (hone.ip.2 (by simp [hrange]))
    obtain ⟨ip, hchars, -⟩ := hone.host _ (by rw [hrange]; exact List.mem_singleton_self _) n hn
    obtain ⟨c, hc, hnil, rfl⟩ := mem_networks hn
    rw [hc, Option.map_some, CIDR.string, hnil, if_neg Bool.false_ne_true, hchars] at hstring
    -- the last character is a '0', not the '2' of "32"
    have hlast := congrArg (fun s => s.map fun s => s.toList.getLast?) hstring
    have hbits : utoa 32 = ['3', '2'] := by decide
    simp [hbits] at hlast

end Wig.Registration
