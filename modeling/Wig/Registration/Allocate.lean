/-
Address allocation for new peers: the generator of the addresses of a network, the search for one
that no stored peer of the interface has, and `RegisterNewPeer` around them. Whether a set of
networks contains an address is a parameter here; `Wig.Registration.Ranger` has the call with the
trie of the `cidranger` library, which answers as the networks do where they have no host bits.
-/
import Wig.Lib.Proc
import Wig.Model.Tables
import Wig.Net.Range

namespace Wig.Registration

open Wig.Lib Wig.Net Wig.Model CIDR

/-! ## The generator -/

/-- The loop of `incrementIP`, from the last byte on. -/
def incrementBytes : List UInt8 → List UInt8
  | [] => []
  | b :: bs => if b + 1 ≠ 0 then (b + 1) :: bs else (b + 1) :: incrementBytes bs

def incrementIP (ip : IP) : IP := (incrementBytes ip.reverse).reverse

structure IPNetGenerator where
  count : Nat
  idx : Nat
  current : IP

/-- `IPMask.Size`. -/
def maskSize (m : IPMask) : Nat × Nat :=
  match simpleMaskLength m with
  | some ones => (ones, 8 * m.length)
  | none => (0, 0)

def newGeneratorFromIPNet (n : IPNet) : IPNetGenerator :=
  { count := 2 ^ ((maskSize n.mask).2 - (maskSize n.mask).1) - 1, idx := 1, current := incrementIP n.ip }

/-- `Next`; the address is nil past the end. -/
def IPNetGenerator.next (g : IPNetGenerator) : Option IP × IPNetGenerator :=
  if g.count < g.idx + 1 then (none, { g with idx := g.idx + 1 })
  else (some g.current, { g with idx := g.idx + 1, current := incrementIP g.current })

/-- The addresses that are still to come. -/
def IPNetGenerator.rest (g : IPNetGenerator) : List IP := List.iterate incrementIP g.current (g.count - g.idx)

/-- The loop of `nextFreeIP`, as far as the fuel goes. -/
def searchFree (taken : IP → Bool) : Nat → IPNetGenerator → Except Error IP
  | 0, _ => .error .poolExhausted
  | fuel + 1, g =>
    match g.next with
    | (none, _) => .error .poolExhausted
    | (some ip, g') => if taken ip then searchFree taken fuel g' else .ok ip

/-- The generator counts, so that many rounds are enough. -/
def nextFreeIP (contains : List IPNet → IP → Bool) (n : IPNet) (allocated : List IPNet) : Except Error IP :=
  let g := newGeneratorFromIPNet n
  searchFree (contains allocated) (g.count + 1) g

/-- The networks one after another, as the simplest ranger does. -/
def bruteContains (nets : List IPNet) (ip : IP) : Bool := nets.any (·.contains ip)

theorem incrementBytes_length : ∀ bs : List UInt8, (incrementBytes bs).length = bs.length
  | [] => rfl
  | b :: bs => by
    unfold incrementBytes
    split
    · rfl
    · rw [List.length_cons, incrementBytes_length bs]; rfl

@[simp] theorem incrementIP_length (ip : IP) : (incrementIP ip).length = ip.length := by
  rw [incrementIP, List.length_reverse, incrementBytes_length, List.length_reverse]

theorem IPNetGenerator.next_of_lt {g : IPNetGenerator} (h : g.idx < g.count) :
    g.next = (some g.current, { g with idx := g.idx + 1, current := incrementIP g.current }) := if_neg (by omega)

theorem IPNetGenerator.next_of_ge {g : IPNetGenerator} (h : g.count ≤ g.idx) :
    g.next = (none, { g with idx := g.idx + 1 }) := if_pos (by omega)

theorem IPNetGenerator.rest_of_lt {g : IPNetGenerator} (h : g.idx < g.count) :
    g.rest = g.current :: IPNetGenerator.rest { g with idx := g.idx + 1, current := incrementIP g.current } := by
  unfold IPNetGenerator.rest
  obtain ⟨k, hk⟩ : ∃ k, g.count - g.idx = k + 1 := ⟨g.count - g.idx - 1, by omega⟩
  have hk' : g.count - (g.idx + 1) = k := by omega
  rw [hk, hk']
  rfl

/-- The search finds the first address to come that is not taken. -/
theorem searchFree_eq (taken : IP → Bool) : ∀ (fuel : Nat) (g : IPNetGenerator), g.count - g.idx < fuel →
    searchFree taken fuel g =
      match g.rest.find? fun ip => !taken ip with
      | some ip => .ok ip
      | none => .error .poolExhausted
  | 0, _, h => absurd h (Nat.not_lt_zero _)
  | fuel + 1, g, h => by
    unfold searchFree
    by_cases hlt : g.idx < g.count
    · rw [IPNetGenerator.next_of_lt hlt, IPNetGenerator.rest_of_lt hlt, List.find?_cons]
      have ih :=
        searchFree_eq taken fuel { g with idx := g.idx + 1, current := incrementIP g.current } (by simp only; omega)
      cases htaken : taken g.current with
      | true => simpa [htaken] using ih
      | false => simp [htaken]
    · have hnil : g.rest = [] := by
        unfold IPNetGenerator.rest
        rw [Nat.sub_eq_zero_of_le (Nat.le_of_not_lt hlt)]
        rfl
      rw [IPNetGenerator.next_of_ge (Nat.le_of_not_lt hlt), hnil]
      rfl

/-- The addresses of a network that are handed out. -/
def addresses (n : IPNet) : List IP := (newGeneratorFromIPNet n).rest

theorem nextFreeIP_eq (contains : List IPNet → IP → Bool) (n : IPNet) (allocated : List IPNet) :
    nextFreeIP contains n allocated =
      match (addresses n).find? fun ip => !contains allocated ip with
      | some ip => .ok ip
      | none => .error .poolExhausted :=
  searchFree_eq _ _ _ (Nat.lt_succ_of_le (Nat.sub_le _ _))

theorem length_mem_iterate {ip : IP} :
    ∀ (k : Nat) (start : IP), ip ∈ List.iterate incrementIP start k → ip.length = start.length
  | 0, _, h => nomatch h
  | k + 1, start, h => by
    rcases List.mem_cons.1 h with rfl | h
    · rfl
    · rw [length_mem_iterate k _ h, incrementIP_length]

theorem addresses_length {n : IPNet} {ip : IP} (h : ip ∈ addresses n) : ip.length = n.ip.length := by
  rw [length_mem_iterate _ _ h]
  exact incrementIP_length n.ip

/-! ## Registration -/

/-- The network of a `CIDR` that is not nil. -/
def networks : Option CIDR → List IPNet
  | none => []
  | some c => if c.isNil then [] else [c.ipnet]

def selectInterface (t : Tables) (intfName : String) : Except Error Interface :=
  match t.interfaces.find? intfName with
  | none => .error .noRows
  | some r => r.scan

/-- The loop of `allocatedRanges`: the networks that go into the ranger. -/
def insertRanges : List PeerRow → Except Error (List IPNet)
  | [] => .ok []
  | r :: rows => do
    let ip ← CIDR.scan r.ip
    let ip6 ← CIDR.scan r.ip6
    return networks ip ++ networks ip6 ++ (← insertRanges rows)

def allocatedRanges (t : Tables) (intfName : String) : Except Error (List IPNet) :=
  insertRanges (t.peers.rows.filter fun r => decide (r.interface = intfName))

/-- The assignment of an address. For an IPv6 network it is the field for IPv4 addresses that is set,
as for an IPv4 one. -/
def assignIP (contains : List IPNet → IP → Bool) (allocated : List IPNet) (net : Option CIDR)
    (sz : Nat) : Proc Peer Error Unit :=
  match net with
  | none => pure ()
  | some c =>
    if c.isNil then pure ()
    else do
      let ip ← Proc.lift (nextFreeIP contains c.ipnet allocated)
      Proc.modify fun peer => { peer with ip := some (newCIDR ip sz) }

/-- The transaction of `RegisterNewPeer`. It only reads. -/
def assignAddresses (contains : List IPNet → IP → Bool) (t : Tables) (intfName : String) : Proc Peer Error Unit := do
  let intf ← Proc.lift (selectInterface t intfName)
  let allocated ← Proc.lift (allocatedRanges t intfName)
  assignIP contains allocated intf.ip 32
  assignIP contains allocated intf.ip6 128

/-- A call of `RegisterNewPeer`, with the time it reads, and whether its transaction opens and commits. -/
structure Call where
  intfName : String
  publicKey : String
  ttl : Int
  now : Time
  opens : Bool
  commits : Bool

/-- The peer before it gets an address. -/
def Call.peer (c : Call) : Peer :=
  { publicKey := c.publicKey, interface := c.intfName, ip := none, ip6 := none
    expire := if 0 < c.ttl then c.now.add c.ttl else Time.zero }

/-- `RegisterNewPeer`: the peer, and the error if there is one. -/
def registerNewPeer (contains : List IPNet → IP → Bool) (c : Call) (t : Tables) : Peer × Option Error :=
  if c.opens then
    match assignAddresses contains t c.intfName c.peer with
    | (.ok (), peer) => (peer, if c.commits then none else some .commit)
    | (.err e, peer) => (peer, some e)
    -- reading neither crashes nor waits
    | (_, peer) => (peer, some .ioError)
  else (c.peer, some .ioError)

/-! ## What registration does -/

theorem CIDR_scan_length {s : Option String} {c : CIDR} (h : CIDR.scan s = .ok (some c)) (hn : c.isNil = false) :
    c.ipnet.ip.length = 16 := by
  cases s with
  | none => cases h
  | some s =>
    simp only [CIDR.scan] at h
    cases hp : CIDR.parse s with
    | error e => rw [hp] at h; cases h
    | ok c' =>
      rw [hp] at h
      cases h
      unfold CIDR.parse at hp
      split at hp
      · cases hp; cases hn
      · split at hp
        · cases hp
        · rename_i ip m heq
          cases hp
          exact parseCIDR_length heq

theorem newCIDR_ipnet {ip : IP} {sz : Nat} (h : ip.length = 16) (hsz : sz ≤ 128) :
    (newCIDR ip sz).ipnet = ⟨ip, cidrMask sz 128⟩ := by
  rw [newCIDR_ipnet_eq (.inr ⟨h, hsz⟩), h]

theorem newCIDR_wellFormed {ip : IP} {sz : Nat} (h : ip.length = 16) (hsz : sz ≤ 128) :
    (newCIDR ip sz).ipnet.WellFormed := by
  rw [newCIDR_ipnet h hsz]
  exact .inr ⟨h, sz, hsz, rfl⟩

/-- A mask of 32 ones over sixteen bytes leaves nothing of an IPv4 address: the peer's network is all
of IPv4. -/
theorem newCIDR_contains_v4 {ip p x q : IP} (hlen : ip.length = 16) (hp : ip.to4 = some p) (hx : x.to4 = some q) :
    (newCIDR ip 32).ipnet.contains x = true := by
  have hmask : (cidrMask 32 128).drop 12 = [0, 0, 0, 0] := by decide
  rw [newCIDR_ipnet hlen (by decide)]
  unfold IPNet.contains networkNumberAndMask IP.short
  simp only [hp, hx, cidrMask_length_128 32 (by decide),
    show ¬ (16 : Nat) = 4 by decide, if_true, if_false, hmask, Option.getD_some]
  match p, to4_length hp, q, to4_length hx with
  | [_, _, _, _], _, [_, _, _, _], _ => simp [agrees]

theorem mem_networks {net : Option CIDR} {n : IPNet} (h : n ∈ networks net) :
    ∃ c, net = some c ∧ c.isNil = false ∧ n = c.ipnet := by
  cases net with
  | none => cases h
  | some c =>
    unfold networks at h
    cases hc : c.isNil with
    | true => simp [hc] at h
    | false => exact ⟨c, rfl, hc, by simpa [hc] using h⟩

theorem length_of_mem_networks {s : Option String} {net : Option CIDR} (hs : CIDR.scan s = .ok net) {n : IPNet}
    (h : n ∈ networks net) : n.ip.length = 16 := by
  obtain ⟨c, rfl, hc, rfl⟩ := mem_networks h
  exact CIDR_scan_length hs hc

/-- All addresses of a network are taken. -/
def Exhausted (contains : List IPNet → IP → Bool) (allocated : List IPNet) (net : Option CIDR) : Prop :=
  ∃ n ∈ networks net, ∀ ip ∈ addresses n, contains allocated ip = true

section Cases

variable {contains : List IPNet → IP → Bool} {allocated : List IPNet} {t : Tables} {c : Call}

/-- The ways an assignment ends. -/
inductive Assigned (contains : List IPNet → IP → Bool) (allocated : List IPNet) (net : Option CIDR)
    (sz : Nat) (peer : Peer) :
    Outcome Error Unit × Peer → Prop where
  | none (h : networks net = []) : Assigned contains allocated net sz peer (.ok (), peer)
  | exhausted (h : Exhausted contains allocated net) :
      Assigned contains allocated net sz peer (.err .poolExhausted, peer)
  | address (ip : IP) (hip : ip.length = 16) (h : networks net ≠ []) (hfree : ¬ Exhausted contains allocated net) :
      Assigned contains allocated net sz peer (.ok (), { peer with ip := some (newCIDR ip sz) })

theorem assignIP_cases {net : Option CIDR} (hlen : ∀ n ∈ networks net, n.ip.length = 16) (sz : Nat) (peer : Peer) :
    Assigned contains allocated net sz peer (assignIP contains allocated net sz peer) := by
  cases net with
  | none => exact .none rfl
  | some n =>
    unfold assignIP
    simp only
    cases hn : n.isNil with
    | true => exact .none (by simp [networks, hn])
    | false =>
      have hnet : networks (some n) = [n.ipnet] := by simp [networks, hn]
      have hex : Exhausted contains allocated (some n) ↔ ∀ ip ∈ addresses n.ipnet, contains allocated ip = true := by
        simp [Exhausted, hnet]
      rw [if_neg Bool.false_ne_true]
      cases hfind : (addresses n.ipnet).find? fun ip => !contains allocated ip with
      | none =>
        have hnext : nextFreeIP contains n.ipnet allocated = .error .poolExhausted := by rw [nextFreeIP_eq, hfind]
        rw [Proc.bind_of_err (by rw [Proc.lift_apply, hnext]; rfl)]
        exact .exhausted (hex.2 (by simpa using hfind))
      | some ip =>
        have hnext : nextFreeIP contains n.ipnet allocated = .ok ip := by rw [nextFreeIP_eq, hfind]
        have hmem := List.mem_of_find?_eq_some hfind
        have hfree : contains allocated ip = false := by simpa using List.find?_some hfind
        rw [Proc.bind_of_ok (by rw [Proc.lift_apply, hnext]; rfl)]
        refine .address ip ?_ (by simp [hnet]) fun h => ?_
        · rw [addresses_length hmem, hlen n.ipnet (by simp [hnet])]
        · rw [hex.1 h ip hmem] at hfree; cases hfree

/-! ## When a call is refused -/

theorem selectInterface_error_iff {name : String} : (∃ e, selectInterface t name = .error e) ↔
    name ∉ t.interfaces.keys ∨ ∃ r ∈ t.interfaces.rows, r.name = name ∧ ∃ e, r.scan = .error e := by
  unfold selectInterface
  cases hfind : t.interfaces.find? name with
  | none => exact iff_of_true ⟨_, rfl⟩ (.inl (Table.find?_eq_none.1 hfind))
  | some r =>
    obtain ⟨hr, hname⟩ := Table.find?_eq_some.1 hfind
    constructor
    · rintro ⟨e, he⟩
      exact .inr ⟨r, hr, hname, e, he⟩
    · rintro (hno | ⟨r', hr', hname', e, he⟩)
      · exact absurd (hname ▸ Table.key_mem_keys hr) hno
      · rw [Table.row_unique hr hr' (hname.trans hname'.symm)]
        exact ⟨e, he⟩

theorem insertRanges_error_iff : ∀ rows : List PeerRow,
    (∃ e, insertRanges rows = .error e) ↔ ∃ r ∈ rows, ∃ e, r.scan = .error e
  | [] => by simp [insertRanges]
  | r :: rows => by
    have ih := insertRanges_error_iff rows
    rw [List.exists_mem_cons_iff, ← ih]
    rw [insertRanges, PeerRow.scan]
    cases CIDR.scan r.ip with
    | error e => exact iff_of_true ⟨e, rfl⟩ (.inl ⟨e, rfl⟩)
    | ok ip =>
      cases CIDR.scan r.ip6 with
      | error e => exact iff_of_true ⟨e, rfl⟩ (.inl ⟨e, rfl⟩)
      | ok ip6 =>
        cases insertRanges rows with
        | error e => exact iff_of_true ⟨e, rfl⟩ (.inr ⟨e, rfl⟩)
        | ok nets =>
          constructor
          · rintro ⟨e, he⟩; cases he
          · rintro (⟨e, he⟩ | ⟨e, he⟩) <;> cases he

/-- The transaction does not open or commit; the interface is not there, or its row or that of one of
its peers does not parse; or a network of the interface has no free address. -/
inductive Refused (contains : List IPNet → IP → Bool) (c : Call) (t : Tables) : Prop where
  | notOpened (h : c.opens = false)
  | notCommitted (h : c.commits = false)
  | noInterface (h : c.intfName ∉ t.interfaces.keys)
  | badInterface (r : InterfaceRow) (hr : r ∈ t.interfaces.rows) (hn : r.name = c.intfName) (e : Error)
      (he : r.scan = .error e)
  | badPeer (r : PeerRow) (hr : r ∈ t.peers.rows) (hi : r.interface = c.intfName) (e : Error) (he : r.scan = .error e)
  | exhausted (i : Interface) (hi : selectInterface t c.intfName = .ok i) (allocated : List IPNet)
      (ha : allocatedRanges t c.intfName = .ok allocated)
      (h : Exhausted contains allocated i.ip ∨ Exhausted contains allocated i.ip6)

theorem refused_of_error {e : Error} (h : selectInterface t c.intfName = .error e) : Refused contains c t := by
  rcases selectInterface_error_iff.1 ⟨e, h⟩ with hno | ⟨r, hr, hname, e', he⟩
  · exact .noInterface hno
  · exact .badInterface r hr hname e' he

theorem not_refused {i : Interface} (hopens : c.opens = true) (hcommits : c.commits = true)
    (hi : selectInterface t c.intfName = .ok i) (ha : allocatedRanges t c.intfName = .ok allocated)
    (hip : ¬ Exhausted contains allocated i.ip) (hip6 : ¬ Exhausted contains allocated i.ip6) :
    ¬ Refused contains c t := by
  have hsel : ¬ ∃ e, selectInterface t c.intfName = .error e := by rintro ⟨e, he⟩; rw [hi] at he; cases he
  have hran : ¬ ∃ e, allocatedRanges t c.intfName = .error e := by rintro ⟨e, he⟩; rw [ha] at he; cases he
  rintro (h | h | h | ⟨r, hr, hn, e, he⟩ | ⟨r, hr, hn, e, he⟩ | ⟨i', hi', a, ha', h⟩)
  · rw [hopens] at h; cases h
  · rw [hcommits] at h; cases h
  · exact hsel (selectInterface_error_iff.2 (.inl h))
  · exact hsel (selectInterface_error_iff.2 (.inr ⟨r, hr, hn, e, he⟩))
  · exact hran ((insertRanges_error_iff _).2 ⟨r, List.mem_filter.2 ⟨hr, by simpa using hn⟩, e, he⟩)
  · rw [hi] at hi'; cases hi'
    rw [ha] at ha'; cases ha'
    exact h.elim hip hip6

/-- The interface is there and has no network. -/
def Bare (t : Tables) (c : Call) : Prop :=
  ∃ i, selectInterface t c.intfName = .ok i ∧ networks i.ip = [] ∧ networks i.ip6 = []

/-- The ways a registration ends. -/
inductive Registered (contains : List IPNet → IP → Bool) (c : Call) (t : Tables) : Peer × Option Error → Prop where
  | refused (peer : Peer) (e : Error) (h : Refused contains c t) : Registered contains c t (peer, some e)
  | bare (h : ¬ Refused contains c t) (hb : Bare t c) : Registered contains c t (c.peer, none)
  | ranged (n : CIDR) (hn : n.ipnet.WellFormed) (h : ¬ Refused contains c t) (hb : ¬ Bare t c) :
      Registered contains c t ({ c.peer with ip := some n }, none)

theorem networks_length {i : Interface} {name : String} (h : selectInterface t name = .ok i) :
    (∀ n ∈ networks i.ip, n.ip.length = 16) ∧ ∀ n ∈ networks i.ip6, n.ip.length = 16 := by
  unfold selectInterface at h
  split at h
  · cases h
  · rename_i r hr
    unfold InterfaceRow.scan at h
    cases hip : CIDR.scan r.ip with
    | error e => rw [hip] at h; cases h
    | ok ip =>
      cases hip6 : CIDR.scan r.ip6 with
      | error e => rw [hip, hip6] at h; cases h
      | ok ip6 =>
        rw [hip, hip6] at h
        cases h
        exact ⟨fun _ hn => length_of_mem_networks hip hn, fun _ hn => length_of_mem_networks hip6 hn⟩

theorem not_exhausted_of_nil {net : Option CIDR} (h : networks net = []) : ¬ Exhausted contains allocated net := by
  rintro ⟨n, hn, -⟩
  rw [h] at hn
  cases hn

/-- The ways the two assignments end. -/
inductive AssignedBoth (contains : List IPNet → IP → Bool) (allocated : List IPNet) (i : Interface) (peer : Peer) :
    Outcome Error Unit × Peer → Prop where
  | exhausted (peer' : Peer) (h : Exhausted contains allocated i.ip ∨ Exhausted contains allocated i.ip6) :
      AssignedBoth contains allocated i peer (.err .poolExhausted, peer')
  | bare (h : networks i.ip = []) (h6 : networks i.ip6 = []) : AssignedBoth contains allocated i peer (.ok (), peer)
  | ranged (n : CIDR) (hn : n.ipnet.WellFormed) (h : ¬ (networks i.ip = [] ∧ networks i.ip6 = []))
      (hfree : ¬ Exhausted contains allocated i.ip) (hfree6 : ¬ Exhausted contains allocated i.ip6) :
      AssignedBoth contains allocated i peer (.ok (), { peer with ip := some n })

theorem assignBoth_cases {i : Interface} (hlen : ∀ n ∈ networks i.ip, n.ip.length = 16)
    (hlen6 : ∀ n ∈ networks i.ip6, n.ip.length = 16) (peer : Peer) :
    AssignedBoth contains allocated i peer
      ((do assignIP contains allocated i.ip 32; assignIP contains allocated i.ip6 128 : Proc Peer Error Unit)
        peer) := by
  have hfirst : Assigned contains allocated i.ip 32 peer (assignIP contains allocated i.ip 32 peer) :=
    assignIP_cases hlen 32 peer
  rcases hx : assignIP contains allocated i.ip 32 peer with ⟨o, peer₁⟩
  rw [hx] at hfirst
  have hsecond : Assigned contains allocated i.ip6 128 peer₁ (assignIP contains allocated i.ip6 128 peer₁) :=
    assignIP_cases hlen6 128 peer₁
  cases hfirst with
  | exhausted hex => rw [Proc.bind_of_err hx]; exact .exhausted _ (.inl hex)
  | none hnil =>
    rw [Proc.bind_of_ok hx]
    revert hsecond
    generalize assignIP contains allocated i.ip6 128 peer = r
    rintro (hnil6 | hex6 | ⟨ip, hip, hne6, hfree6⟩)
    · exact .bare hnil hnil6
    · exact .exhausted _ (.inr hex6)
    · exact .ranged _ (newCIDR_wellFormed hip (by decide)) (fun h => hne6 h.2) (not_exhausted_of_nil hnil) hfree6
  | address ip hip hne hfree =>
    rw [Proc.bind_of_ok hx]
    revert hsecond
    generalize assignIP contains allocated i.ip6 128 { peer with ip := some (newCIDR ip 32) } = r
    rintro (hnil6 | hex6 | ⟨ip6, hip6, hne6, hfree6⟩)
    · exact .ranged _ (newCIDR_wellFormed hip (by decide)) (fun h => hne h.1) hfree (not_exhausted_of_nil hnil6)
    · exact .exhausted _ (.inr hex6)
    -- the address for IPv6 replaces the one for IPv4
    · exact .ranged _ (newCIDR_wellFormed hip6 (by decide)) (fun h => hne h.1) hfree hfree6

/-- A call that returns a peer has gone through both assignments. -/
theorem registerNewPeer_assigned {contains : List IPNet → IP → Bool} {c : Call} {t : Tables} {i : Interface}
    {peer : Peer} (hi : selectInterface t c.intfName = .ok i) (h : registerNewPeer contains c t = (peer, none)) :
    ∃ allocated, (do assignIP contains allocated i.ip 32; assignIP contains allocated i.ip6 128 : Proc Peer Error Unit)
      c.peer = (.ok (), peer) := by
  unfold registerNewPeer at h
  split at h
  · split at h
    · rename_i peer' hassign
      injection h with hpeer
      subst hpeer
      obtain ⟨i', s, hi', hassign⟩ := Proc.bind_ok hassign
      obtain ⟨hi', rfl⟩ := Proc.lift_ok_iff.1 hi'
      rw [hi] at hi'
      cases hi'
      obtain ⟨allocated, s', ha, hassign⟩ := Proc.bind_ok hassign
      obtain ⟨-, rfl⟩ := Proc.lift_ok_iff.1 ha
      exact ⟨allocated, hassign⟩
    · cases h
    · cases h
  · cases h

theorem registerNewPeer_cases (contains : List IPNet → IP → Bool) (c : Call) (t : Tables) :
    Registered contains c t (registerNewPeer contains c t) := by
  unfold registerNewPeer
  cases hopens : c.opens with
  | false => exact .refused _ _ (.notOpened hopens)
  | true =>
    rw [if_pos rfl]
    unfold assignAddresses
    cases hi : selectInterface t c.intfName with
    | error e =>
      rw [Proc.bind_of_err (by rw [Proc.lift_apply]; rfl)]
      exact .refused _ _ (refused_of_error hi)
    | ok i =>
      rw [Proc.bind_of_ok (by rw [Proc.lift_apply]; rfl)]
      cases ha : allocatedRanges t c.intfName with
      | error e =>
        rw [Proc.bind_of_err (by rw [Proc.lift_apply]; rfl)]
        obtain ⟨r, hr, e', he⟩ := (insertRanges_error_iff _).1 ⟨e, ha⟩
        obtain ⟨hr, hn⟩ := List.mem_filter.1 hr
        exact .refused _ _ (.badPeer r hr (by simpa using hn) e' he)
      | ok allocated =>
        rw [Proc.bind_of_ok (by rw [Proc.lift_apply]; rfl)]
        obtain ⟨hlen, hlen6⟩ := networks_length hi
        have hbare : Bare t c ↔ networks i.ip = [] ∧ networks i.ip6 = [] :=
          ⟨fun ⟨i', hi', h⟩ => by rw [hi] at hi'; cases hi'; exact h, fun h => ⟨i, hi, h⟩⟩
        have hassigned : AssignedBoth contains allocated i c.peer
            ((do assignIP contains allocated i.ip 32; assignIP contains allocated i.ip6 128 : Proc
              Peer Error Unit) c.peer) :=
          assignBoth_cases hlen hlen6 c.peer
        revert hassigned
        generalize (do assignIP contains allocated i.ip 32; assignIP contains allocated i.ip6 128 : Proc
          Peer Error Unit) c.peer = r
        rintro (⟨peer, hex⟩ | ⟨hnil, hnil6⟩ | ⟨n, hn, hne, hfree, hfree6⟩)
        · exact .refused _ _ (.exhausted i hi allocated ha hex)
        · cases hcommits : c.commits with
          | false => exact .refused _ _ (.notCommitted hcommits)
          | true =>
            exact .bare (not_refused hopens hcommits hi ha (not_exhausted_of_nil hnil) (not_exhausted_of_nil hnil6))
              (hbare.2 ⟨hnil, hnil6⟩)
        · cases hcommits : c.commits with
          | false => exact .refused _ _ (.notCommitted hcommits)
          | true => exact .ranged n hn (not_refused hopens hcommits hi ha hfree hfree6) (fun h => hne (hbare.1 h))

end Cases

end Wig.Registration
