/-
`RegisterNewPeer` with the ranger that it builds: each network of a peer is inserted as its row is read, an error of
the ranger is dropped, and a stack that overflows ends the process. Where no peer has host bits in its network,
this is the search over the networks themselves.
-/
import Wig.Cidranger.Ranger
import Wig.Registration.Pool
import Wig.Registration.Register

namespace Wig.Registration

open Wig.Lib Wig.Net Wig.Model CIDR Wig.Cidranger

/-! ## The code -/

/-- `ranger.Insert`, with the error dropped. -/
def insertRange (stack : Nat) (n : IPNet) : Proc Ranger Error Unit := fun v =>
  match Ranger.insert stack n v with
  | (.ok (), v) => (.ok (), v)
  | (.err _, v) => (.ok (), v)
  | (.crash, v) => (.crash, v)
  | (.block, v) => (.block, v)

/-- A round of the loop of `allocatedRanges`, on the ranger. -/
def readRange (stack : Nat) (r : PeerRow) : Proc Ranger Error Unit := do
  let ip ← Proc.lift (CIDR.scan r.ip)
  let ip6 ← Proc.lift (CIDR.scan r.ip6)
  Proc.forEach (insertRange stack) (networks ip ++ networks ip6)

def readRanges (stack : Nat) (rows : List PeerRow) : Proc Ranger Error Unit := Proc.forEach (readRange stack) rows

/-- `allocatedRanges`. -/
def allocatedRanger (stack : Nat) (t : Tables) (intfName : String) : Outcome Error Unit × Ranger :=
  readRanges stack (t.peers.rows.filter fun r => decide (r.interface = intfName)) newPCTrieRanger

/-- The loop of `nextFreeIP`. An error of the ranger leaves the address free. -/
def searchRanger (v : Ranger) : Nat → IPNetGenerator → Outcome Error IP
  | 0, _ => .err .poolExhausted
  | fuel + 1, g =>
    match g.next with
    | (none, _) => .err .poolExhausted
    | (some ip, g') =>
      match v.contains ip with
      | .ok true => searchRanger v fuel g'
      | .ok false => .ok ip
      | .err _ => .ok ip
      | .crash => .crash
      | .block => .block

/-- `nextFreeIP`, with the ranger. -/
def nextFreeIn (v : Ranger) (n : IPNet) : Outcome Error IP :=
  let g := newGeneratorFromIPNet n
  searchRanger v (g.count + 1) g

def assignFrom (v : Ranger) (net : Option CIDR) (sz : Nat) : Proc Peer Error Unit :=
  match net with
  | none => pure ()
  | some c =>
    if c.isNil then pure ()
    else do
      let ip ← (fun peer => (nextFreeIn v c.ipnet, peer) : Proc Peer Error IP)
      Proc.modify fun peer => { peer with ip := some (newCIDR ip sz) }

/-- The transaction. -/
def assignFromRanger (stack : Nat) (t : Tables) (intfName : String) : Proc Peer Error Unit := do
  let intf ← Proc.lift (selectInterface t intfName)
  (fun peer => ((allocatedRanger stack t intfName).1, peer) : Proc Peer Error Unit)
  assignFrom (allocatedRanger stack t intfName).2 intf.ip 32
  assignFrom (allocatedRanger stack t intfName).2 intf.ip6 128

/-- `RegisterNewPeer`. -/
def registerWithRanger (stack : Nat) (c : Call) (t : Tables) : Outcome Error Unit × Peer :=
  if c.opens then
    match assignFromRanger stack t c.intfName c.peer with
    | (.ok (), peer) => (if c.commits then .ok () else .err .commit, peer)
    | r => r
  else (.err .ioError, c.peer)

/-! ## Networks without host bits -/

/-- The networks that a row gives, if it can be read. -/
def rowNetworks (r : PeerRow) : List IPNet :=
  match CIDR.scan r.ip, CIDR.scan r.ip6 with
  | .ok ip, .ok ip6 => networks ip ++ networks ip6
  | _, _ => []

/-- No peer of the interface has host bits in a network. -/
def CanonicalPeers (t : Tables) (intfName : String) : Prop :=
  ∀ r ∈ t.peers.rows, r.interface = intfName → ∀ n ∈ rowNetworks r, Canonical n

section

variable {stack : Nat}

theorem insertRange_eq {n : IPNet} {v v' : Ranger} (h : Ranger.insert stack n v = (.ok (), v')) :
    insertRange stack n v = (.ok (), v') := by
  unfold insertRange
  rw [h]

theorem forEach_insertRange (hstack : 128 < stack) :
    ∀ {new nets : List IPNet} {v : Ranger}, v.Has nets → (∀ n ∈ new, Canonical n) →
    ∃ v', Proc.forEach (insertRange stack) new v = (.ok (), v') ∧ v'.Has (new.reverse ++ nets)
  | [], nets, v, h, _ => ⟨v, rfl, h⟩
  | n :: new, nets, v, h, hnew => by
    obtain ⟨v', hrun, hhas⟩ := h.insert (hnew n (List.mem_cons_self ..)) hstack
    obtain ⟨v'', hrest, hhas'⟩ := forEach_insertRange hstack hhas fun m hm => hnew m (List.mem_cons_of_mem _ hm)
    refine ⟨v'', ?_, ?_⟩
    · rw [Proc.forEach, Proc.bind_of_ok (insertRange_eq hrun)]
      exact hrest
    · rwa [List.reverse_cons, List.append_assoc, List.singleton_append]

/-- A row that can be read. -/
theorem readRange_ok {r : PeerRow} {ip ip6 : Option CIDR} (hip : CIDR.scan r.ip = .ok ip)
    (hip6 : CIDR.scan r.ip6 = .ok ip6) (v : Ranger) :
    readRange stack r v = Proc.forEach (insertRange stack) (networks ip ++ networks ip6) v := by
  have h : (Proc.lift (CIDR.scan r.ip) : Proc Ranger Error (Option CIDR)) v = (.ok ip, v) := by rw [hip]; rfl
  have h6 : (Proc.lift (CIDR.scan r.ip6) : Proc Ranger Error (Option CIDR)) v = (.ok ip6, v) := by rw [hip6]; rfl
  rw [readRange, Proc.bind_of_ok h, Proc.bind_of_ok h6]

/-- A row that cannot. -/
theorem readRanges_error {r : PeerRow} {rows : List PeerRow} {e : Error}
    (he : CIDR.scan r.ip = .error e ∨ ∃ ip, CIDR.scan r.ip = .ok ip ∧ CIDR.scan r.ip6 = .error e) (v : Ranger) :
    insertRanges (r :: rows) = .error e ∧ readRanges stack (r :: rows) v = (.err e, v) := by
  unfold readRanges
  rw [Proc.forEach_cons]
  rcases he with h | ⟨ip, h, h6⟩
  · have hscan : (Proc.lift (CIDR.scan r.ip) : Proc Ranger Error (Option CIDR)) v = (.err e, v) := by rw [h]; rfl
    have hrow : readRange stack r v = (.err e, v) := by rw [readRange, Proc.bind_of_err hscan]
    refine ⟨?_, Proc.bind_of_err hrow⟩
    rw [insertRanges, h]
    rfl
  · have hscan : (Proc.lift (CIDR.scan r.ip) : Proc Ranger Error (Option CIDR)) v = (.ok ip, v) := by rw [h]; rfl
    have hscan6 : (Proc.lift (CIDR.scan r.ip6) : Proc Ranger Error (Option CIDR)) v = (.err e, v) := by rw [h6]; rfl
    have hrow : readRange stack r v = (.err e, v) := by rw [readRange, Proc.bind_of_ok hscan, Proc.bind_of_err hscan6]
    refine ⟨?_, Proc.bind_of_err hrow⟩
    rw [insertRanges, h, h6]
    rfl

theorem insertRanges_ok {r : PeerRow} {rows : List PeerRow} {ip ip6 : Option CIDR} (hip : CIDR.scan r.ip = .ok ip)
    (hip6 : CIDR.scan r.ip6 = .ok ip6) :
    insertRanges (r :: rows) = (insertRanges rows).map (networks ip ++ networks ip6 ++ ·) := by
  rw [insertRanges, hip, hip6]
  cases insertRanges rows <;> rfl

/-- The rows are read into a ranger as they are read into a list: the same error, or the same networks. -/
theorem readRanges_spec (hstack : 128 < stack) : ∀ {rows : List PeerRow} {nets : List IPNet} {v : Ranger}, v.Has nets →
    (∀ r ∈ rows, ∀ n ∈ rowNetworks r, Canonical n) →
    (∃ new v', insertRanges rows = .ok new ∧ readRanges stack rows v = (.ok (), v') ∧ v'.Has (new.reverse ++ nets) ∧
      ∀ n ∈ new, Canonical n) ∨
      ∃ e, insertRanges rows = .error e ∧ (readRanges stack rows v).1 = .err e
  | [], nets, v, h, _ => .inl ⟨[], v, rfl, rfl, h, nofun⟩
  | r :: rows, nets, v, h, hrows => by
    have hrow := hrows r (List.mem_cons_self ..)
    have hrest := fun r' hr' => hrows r' (List.mem_cons_of_mem _ hr')
    unfold rowNetworks at hrow
    cases hip : CIDR.scan r.ip with
    | error e =>
      obtain ⟨hlist, hrun⟩ : insertRanges (r :: rows) = .error e ∧ readRanges stack (r :: rows) v = (.err e, v) :=
        readRanges_error (.inl hip) v
      exact .inr ⟨e, hlist, by rw [hrun]⟩
    | ok ip =>
      cases hip6 : CIDR.scan r.ip6 with
      | error e =>
        obtain ⟨hlist, hrun⟩ : insertRanges (r :: rows) = .error e ∧ readRanges stack (r :: rows) v = (.err e, v) :=
          readRanges_error (.inr ⟨ip, hip, hip6⟩) v
        exact .inr ⟨e, hlist, by rw [hrun]⟩
      | ok ip6 =>
        simp only [hip, hip6] at hrow
        obtain ⟨v', hrun, hhas⟩ := forEach_insertRange hstack h hrow
        have hcons : readRanges stack (r :: rows) v = readRanges stack rows v' := by
          rw [readRanges, Proc.forEach_cons, Proc.bind_of_ok (by rw [readRange_ok hip hip6, hrun])]
          rfl
        rw [insertRanges_ok hip hip6, hcons]
        rcases readRanges_spec hstack hhas hrest with ⟨new, v'', hlist, hrun', hhas', hnew⟩ | ⟨e, hlist, herr⟩
        · refine .inl ⟨networks ip ++ networks ip6 ++ new, v'', by rw [hlist]; rfl, hrun', ?_, ?_⟩
          · rwa [List.reverse_append, List.append_assoc]
          · intro n hn
            rcases List.mem_append.1 hn with hn | hn
            · exact hrow n hn
            · exact hnew n hn
        · exact .inr ⟨e, by rw [hlist]; rfl, herr⟩

/-- The search in a ranger that answers as the networks do. -/
theorem searchRanger_eq {v : Ranger} {taken : IP → Bool}
    (h : ∀ ip : IP, ip.length = 16 → v.contains ip = .ok (taken ip)) :
    ∀ (fuel : Nat) {g : IPNetGenerator}, g.current.length = 16 →
      searchRanger v fuel g = Outcome.ofExcept (searchFree taken fuel g)
  | 0, _, _ => rfl
  | fuel + 1, g, hg => by
    unfold searchRanger searchFree
    by_cases hlt : g.idx < g.count
    · have ih :=
        searchRanger_eq h fuel (g := { g with idx := g.idx + 1, current := incrementIP g.current })
          (by rw [incrementIP_length, hg])
      rw [IPNetGenerator.next_of_lt hlt]
      simp only [h _ hg]
      cases taken g.current with
      | true => exact ih
      | false => rfl
    · rw [IPNetGenerator.next_of_ge (Nat.le_of_not_lt hlt)]
      rfl

theorem assignFrom_eq {v : Ranger} {allocated : List IPNet}
    (h : ∀ ip : IP, ip.length = 16 → v.contains ip = .ok (bruteContains allocated ip))
    {net : Option CIDR} (hlen : ∀ n ∈ networks net, n.ip.length = 16) (sz : Nat) :
    assignFrom v net sz = assignIP bruteContains allocated net sz := by
  cases net with
  | none => rfl
  | some n =>
    unfold assignFrom assignIP
    cases hn : n.isNil with
    | true => simp only [hn, if_true]
    | false =>
      have hip : n.ipnet.ip.length = 16 := hlen n.ipnet (by simp [networks, hn])
      have hnext : nextFreeIn v n.ipnet = Outcome.ofExcept (nextFreeIP bruteContains n.ipnet allocated) :=
        searchRanger_eq h _ (by rw [← hip]; exact incrementIP_length _)
      simp only [hnext]
      rfl

/-- What is read of the peers of an interface. -/
theorem allocatedRanger_spec (hstack : 128 < stack) {t : Tables} {intfName : String} (h : CanonicalPeers t intfName) :
    (∃ allocated, allocatedRanges t intfName = .ok allocated ∧ (allocatedRanger stack t intfName).1 = .ok () ∧
      ∀ ip : IP, ip.length = 16 → (allocatedRanger stack t intfName).2.contains ip = .ok (bruteContains allocated ip)) ∨
    ∃ e, allocatedRanges t intfName = .error e ∧ (allocatedRanger stack t intfName).1 = .err e := by
  have hrows : ∀ r ∈ t.peers.rows.filter fun r => decide (r.interface = intfName),
      ∀ n ∈ rowNetworks r, Canonical n := by
    intro r hr
    obtain ⟨hmem, hname⟩ := List.mem_filter.1 hr
    exact h r hmem (of_decide_eq_true hname)
  rcases readRanges_spec hstack has_newPCTrieRanger hrows with ⟨new, v', hlist, hrun, hhas, hnew⟩ | herror
  · refine .inl ⟨new, hlist, by rw [allocatedRanger, hrun], fun ip hip => ?_⟩
    rw [allocatedRanger, hrun, hhas.contains (by simpa using hnew) (.inr hip), List.append_nil, List.any_reverse]
    rfl
  · exact .inr herror

end

/-- Reading neither crashes nor waits. -/
theorem assignAddresses_returned (contains : List IPNet → IP → Bool) (t : Tables) (intfName : String) (peer : Peer) :
    (assignAddresses contains t intfName peer).1.Returned := by
  unfold assignAddresses
  cases hi : selectInterface t intfName with
  | error e => exact trivial
  | ok i =>
    obtain ⟨hlen, hlen6⟩ := networks_length hi
    have hsel : (Proc.lift (.ok i) : Proc Peer Error Interface) peer = (.ok i, peer) := rfl
    rw [Proc.bind_of_ok hsel]
    cases hlist : allocatedRanges t intfName with
    | error e => exact trivial
    | ok allocated =>
      have hall : (Proc.lift (.ok allocated) : Proc Peer Error (List IPNet)) peer = (.ok allocated, peer) := rfl
      rw [Proc.bind_of_ok hall]
      have hboth : AssignedBoth contains allocated i peer _ := assignBoth_cases hlen hlen6 peer
      revert hboth
      generalize (do assignIP contains allocated i.ip 32; assignIP contains allocated i.ip6 128 : Proc
        Peer Error Unit) peer = r
      rintro (_ | _ | _) <;> exact trivial

/-- Where no peer of the interface has host bits in its network, `RegisterNewPeer` returns just what the search over
the list of the networks gives. -/
theorem registerWithRanger_eq {stack : Nat} (hstack : 128 < stack) {c : Call} {t : Tables}
    (h : CanonicalPeers t c.intfName) :
    registerWithRanger stack c t =
      (((registerNewPeer bruteContains c t).2.elim (.ok ()) .err), (registerNewPeer bruteContains c t).1) := by
  have hassign : assignFromRanger stack t c.intfName c.peer = assignAddresses bruteContains t c.intfName c.peer := by
    unfold assignFromRanger assignAddresses
    cases hi : selectInterface t c.intfName with
    | error e => rfl
    | ok i =>
      obtain ⟨hlen, hlen6⟩ := networks_length hi
      have hsel : (Proc.lift (.ok i) : Proc Peer Error Interface) c.peer = (.ok i, c.peer) := rfl
      rw [Proc.bind_of_ok hsel, Proc.bind_of_ok hsel]
      rcases allocatedRanger_spec hstack h with ⟨allocated, hlist, hok, hcontains⟩ | ⟨e, hlist, herr⟩
      · rw [hlist, hok, assignFrom_eq hcontains hlen, assignFrom_eq hcontains hlen6]
        rfl
      · rw [hlist, herr]
        rfl
  unfold registerWithRanger registerNewPeer
  rw [hassign]
  cases c.opens with
  | false => rfl
  | true =>
    have hret := assignAddresses_returned bruteContains t c.intfName c.peer
    simp only [if_true]
    rcases hrun : assignAddresses bruteContains t c.intfName c.peer with ⟨o, peer⟩
    rw [hrun] at hret
    cases o with
    | ok u => cases hcommits : c.commits <;> simp
    | err e => rfl
    | crash => exact hret.elim
    | block => exact hret.elim

/-! ## Runs -/

/-- Registrations with their rangers, and writes; a stack that overflows ends the process. -/
def rangerSystem (stack : Nat) : System Registrar Event where
  step s
    | .register c =>
      match registerWithRanger stack c s.store.db.tables with
      | (.ok (), peer) => some ⟨s.store, s.returned ++ [peer]⟩
      | (.err _, _) => some s
      | (.crash, _) => none
      | (.block, _) => none
    | .write r => some { s with store := (Crudlog.Datastore.request (crud stack) encoding r s.store).2 }

/-- A registration finds no host bits in the networks of the interface's peers. -/
def Plain (s : Registrar) : Event → Prop
  | .register c => CanonicalPeers s.store.db.tables c.intfName
  | .write _ => True

theorem rangerSystem_step {stack : Nat} (hstack : 128 < stack) (s : Registrar) (e : Event) (h : Plain s e) :
    (rangerSystem stack).step s e = (system bruteContains stack).step s e := by
  cases e with
  | write r => rfl
  | register c =>
    show (match registerWithRanger stack c s.store.db.tables with
      | (.ok (), peer) => some ⟨s.store, s.returned ++ [peer]⟩
      | (.err _, _) => some s
      | (.crash, _) => none
      | (.block, _) => none) = some (s.after bruteContains stack (.register c))
    rw [registerWithRanger_eq hstack h, Registrar.after, register]
    rcases registerNewPeer bruteContains c s.store.db.tables with ⟨peer, _ | e⟩ <;> rfl

/-- The call returns the peer of the search over the list, and its error if it has one. -/
def SameAnswer (stack : Nat) (s : Registrar) : Event → Prop
  | .register c => registerWithRanger stack c s.store.db.tables =
      (((registerNewPeer bruteContains c s.store.db.tables).2.elim (.ok ()) .err),
        (registerNewPeer bruteContains c s.store.db.tables).1)
  | .write _ => True

/-- Over every run in which registrations find no host bits, with writes in between, every registration returns the same
peer and the same error as over the list of the networks, and the process does not end. -/
theorem runs_with_ranger {stack : Nat} (hstack : 128 < stack) (d : Crudlog.Database Tables) (es : List Event)
    (h : (system bruteContains stack).Along Plain (start d) es) :
    (rangerSystem stack).Along (SameAnswer stack) (start d) es ∧
      ∃ s, (rangerSystem stack).run (start d) es = some s ∧ (system bruteContains stack).run (start d) es = some s := by
  refine ⟨System.along_of_run_congr (rangerSystem_step hstack) (fun s e he => ?_) es (start d) h, ?_⟩
  · cases e with
    | register c => exact registerWithRanger_eq hstack he
    | write r => exact trivial
  · obtain ⟨s, hs⟩ := system_runs bruteContains stack es (start d)
    exact ⟨s, (System.run_congr (rangerSystem_step hstack) es (start d) h).trans hs, hs⟩

/-- 10.0.0.9/32. -/
def nineNet : CIDR :=
  ⟨⟨v4InV6Prefix ++ [10, 0, 0, 9], cidrMask 32 32⟩, .inr (.inl ⟨[10, 0, 0, 9], rfl, rfl, 32, by decide, rfl⟩)⟩

def createPeer (p : Peer) : Event := .write ⟨.create (.peer p), Time.zero, true⟩

/-- 10.0.0.1/24, an address of an interface in its network. -/
def hostNet : CIDR :=
  ⟨⟨v4InV6Prefix ++ [10, 0, 0, 1], cidrMask 24 32⟩, .inr (.inl ⟨[10, 0, 0, 1], rfl, rfl, 24, by decide, rfl⟩)⟩

def createHostInterface : Event :=
  .write ⟨.create (.interface ⟨"wg0", 51820, some hostNet, none, 0, "", ""⟩), Time.zero, true⟩

/-- The interface with one peer. -/
def onePeer : Registrar :=
  ((start Store.fresh.db).after bruteContains 129 createHostInterface).after bruteContains 129
    (createPeer ⟨"b", "wg0", some nineNet, none, Time.zero⟩)

theorem onePeer_rows : onePeer.store.db.tables.peers.rows = [⟨"b", "wg0", some "10.0.0.9/32", none, Time.zero⟩] := by
  decide +kernel

theorem shaped_nineNet : Shaped 1 nineNet.ipnet [10, 0, 0, 9] 32 := ⟨.v4 (by decide), by decide, by decide⟩

theorem canonicalPeers_onePeer : CanonicalPeers onePeer.store.db.tables "wg0" := by
  intro r hr _ n hn
  rw [onePeer_rows, List.mem_singleton] at hr
  subst hr
  have hnet : rowNetworks ⟨"b", "wg0", some "10.0.0.9/32", none, Time.zero⟩ = [nineNet.ipnet] := by decide +kernel
  rw [hnet, List.mem_singleton] at hn
  subst hn
  exact ⟨1, _, 32, shaped_nineNet, one_dvd _⟩

theorem runs_with_ranger_onePeer : ∃ s, (rangerSystem 129).run (start Store.fresh.db)
    [createHostInterface, createPeer ⟨"b", "wg0", some nineNet, none, Time.zero⟩,
      .register (registerKey "a")] = some s ∧
    s.returned.map (fun p => p.publicKey) = ["a"] := by
  have hplain : (system bruteContains 129).Along Plain (start Store.fresh.db)
      [createHostInterface, createPeer ⟨"b", "wg0", some nineNet, none, Time.zero⟩, .register (registerKey "a")] := by
    refine ⟨trivial, ?_⟩
    rintro s ⟨⟩
    refine ⟨trivial, ?_⟩
    rintro s ⟨⟩
    exact ⟨canonicalPeers_onePeer, fun _ _ => trivial⟩
  obtain ⟨-, s, hrun, hlist⟩ := runs_with_ranger (by decide) _ _ hplain
  refine ⟨s, hrun, ?_⟩
  cases hlist
  decide +kernel

/-! ## Host bits -/

theorem forEach_append_crash {stack : Nat} {n : IPNet} {rest : List IPNet} {v : Ranger}
    (h : (Ranger.insert stack n v).1 = .crash) : (Proc.forEach (insertRange stack) (n :: rest) v).1 = .crash := by
  have hcrash : insertRange stack n v = (.crash, (Ranger.insert stack n v).2) := by
    unfold insertRange
    rw [show Ranger.insert stack n v = (.crash, (Ranger.insert stack n v).2) from Prod.ext h rfl]
  rw [Proc.forEach, Proc.bind_of_crash hcrash]

/-- A row that is read after rows without host bits, and has them. -/
theorem readRanges_overflows {stack : Nat} (hstack : 128 < stack) {w l : Nat} {n : IPNet} {bs : IP} {rest : List IPNet}
    {r : PeerRow} {ip ip6 : Option CIDR} (hip : CIDR.scan r.ip = .ok ip) (hip6 : CIDR.scan r.ip6 = .ok ip6)
    (hnets : networks ip ++ networks ip6 = n :: rest) (hn : Shaped w n bs l) (hhost : ¬ 2 ^ (32 * w - l) ∣ ofBytes bs)
    (post : List PeerRow) {pre : List PeerRow} {nets : List IPNet}
    (hpre : insertRanges pre = .ok nets) (hcan : ∀ r ∈ pre, ∀ n ∈ rowNetworks r, Canonical n)
    (hover : Overlaid w bs l nets) : (readRanges stack (pre ++ r :: post) newPCTrieRanger).1 = .crash := by
  rcases readRanges_spec hstack has_newPCTrieRanger hcan with ⟨new, v, hlist, hrun, hhas, -⟩ | ⟨e, hlist, -⟩
  · rw [hpre] at hlist
    cases hlist
    have hrev : Overlaid w bs l (nets.reverse ++ []) := by
      simpa only [Overlaid, List.append_nil, List.mem_reverse] using hover
    have hcrash : (readRange stack r v).1 = .crash := by
      rw [readRange_ok hip hip6, hnets]
      exact forEach_append_crash ((insert_hostBits hhas hn hhost).1 hrev stack)
    unfold readRanges at hrun ⊢
    rw [Proc.forEach_append, Proc.bind_of_ok hrun, Proc.forEach_cons, Proc.bind_of_crash (Prod.ext hcrash rfl)]
  · rw [hpre] at hlist
    cases hlist

/-! ## A peer that is stored as it was returned -/

theorem assignIP_nil {contains : List IPNet → IP → Bool} {allocated : List IPNet} {net : Option CIDR} {sz : Nat}
    (h : networks net = []) : assignIP contains allocated net sz = pure () := by
  cases net with
  | none => rfl
  | some c =>
    cases hc : c.isNil with
    | true => simp only [assignIP, hc, if_true]
    | false => simp [networks, hc] at h

theorem assignIP_ok {contains : List IPNet → IP → Bool} {allocated : List IPNet} {net : Option CIDR} {sz : Nat}
    {n : IPNet} {before peer : Peer} (h : networks net = [n])
    (hok : assignIP contains allocated net sz before = (.ok (), peer)) :
    ∃ ip, nextFreeIP contains n allocated = .ok ip ∧ peer = { before with ip := some (newCIDR ip sz) } := by
  cases net with
  | none => cases h
  | some c =>
    cases hc : c.isNil with
    | true => simp [networks, hc] at h
    | false =>
      obtain rfl : c.ipnet = n := by simpa [networks, hc] using h
      simp only [assignIP, hc, Bool.false_eq_true, if_false] at hok
      obtain ⟨ip, mid, hlift, hset⟩ := Proc.bind_ok hok
      obtain ⟨hnext, rfl⟩ := Proc.lift_ok_iff.1 hlift
      cases hset
      exact ⟨ip, hnext, rfl⟩

/-- The address that a registration gives to an interface with an IPv4 network only. -/
theorem registered_ip {c : Call} {t : Tables} {peer : Peer} {i : Interface} {n : IPNet}
    (hi : selectInterface t c.intfName = .ok i) (hnet : networks i.ip = [n]) (hnet6 : networks i.ip6 = [])
    (h : registerNewPeer bruteContains c t = (peer, none)) :
    ∃ allocated ip, nextFreeIP bruteContains n allocated = .ok ip ∧ peer.ip = some (newCIDR ip 32) ∧
      peer.ip6 = none := by
  obtain ⟨allocated, hassign⟩ := registerNewPeer_assigned hi h
  obtain ⟨_, mid, hfirst, hsecond⟩ := Proc.bind_ok hassign
  obtain ⟨ip, hnext, rfl⟩ := assignIP_ok hnet hfirst
  rw [assignIP_nil hnet6] at hsecond
  cases hsecond
  exact ⟨allocated, ip, hnext, rfl, rfl⟩

/-- Counting up from an IPv4 address to another one, its four bytes are not all zero. -/
theorem host_v4_ne_zero {n : IPNet} {base p : IP} {l k : Nat} (hn : Shaped 1 n base l) (hlen : n.ip.length = 16)
    (hk : k < span n) (hp : (host n (k + 1)).to4 = some p) : ofBytes p ≠ 0 := by
  have hip : n.ip = v4InV6Prefix ++ base := (to4_eq_some_iff hlen).1 hn.family.to4
  have hspan : span n = 2 ^ (32 - l) - 2 := by
    rw [span, maskSize, hn.mask, simpleMaskLength_maskBytes hn.bits, maskBytes_length]
  have hpow : (2 : Nat) ^ (32 - l) ≤ 2 ^ 32 := Nat.pow_le_pow_right (by decide) (Nat.sub_le _ _)
  have hbase := hn.family.lt
  have hlow : 65535 * 2 ^ 32 + ofBytes base + (k + 1) < 256 ^ 16 := by omega
  have hhost : host n (k + 1) = v4InV6Prefix ++ p := (to4_eq_some_iff (by rw [host, toBytes_length, hlen])).1 hp
  have hval := congrArg ofBytes hhost
  rw [host, hlen, hip, ofBytes_mapped hn.family.length, ofBytes_toBytes_of_lt hlow,
    ofBytes_mapped (to4_length hp)] at hval
  omega

/-- The mask of its 32 bits is one of sixteen bytes, and is printed and read back as one of no bits. -/
theorem scan_registered {ip p : IP} (hlen : ip.length = 16) (hto4 : ip.to4 = some p) :
    ∃ c : CIDR, CIDR.scan (CIDR.value (some (newCIDR ip 32))) = .ok (some c) ∧ c.isNil = false ∧
      Shaped 1 c.ipnet p 0 := by
  have h4 := to4_length hto4
  have hnil : (newCIDR ip 32).isNil = false := CIDR.isNil_eq_false (newCIDR_wellFormed hlen (by decide))
  have hchars : (newCIDR ip 32).ipnet.chars = joinOctets p ++ '/' :: utoa 0 := by
    rw [newCIDR_ipnet hlen (by decide), chars_v4_mask16 hto4 (by decide)]
  have hparse : parseCIDR (String.ofList (newCIDR ip 32).ipnet.chars).toList =
      some (v4InV6Prefix ++ p, cidrMask 0 32) := by
    rw [String.toList_ofList, hchars, parseCIDR_v4 h4 (by decide)]
  have hne : String.ofList (newCIDR ip 32).ipnet.chars ≠ "" := fun hempty => by
    rw [hempty] at hparse
    cases hparse
  obtain ⟨wf, hok⟩ := CIDR.parse_ok_of_parseCIDR hne hparse
  refine ⟨⟨⟨v4InV6Prefix ++ p, cidrMask 0 32⟩, wf⟩, ?_, ?_,
    ⟨.v4 (to4_v4InV6 h4), Nat.zero_le _, cidrMask_32 (l := 0) (by decide)⟩⟩
  · rw [CIDR.value, if_neg (by rw [hnil]; exact Bool.false_ne_true), CIDR.string,
      if_neg (by rw [hnil]; exact Bool.false_ne_true), CIDR.scan, hok]
    rfl
  · exact decide_eq_false (by simp [v4InV6Prefix])

/-- A peer as `RegisterNewPeer` returned it for an interface with an IPv4 network, stored after a peer whose
network is in the same half of the IPv4 addresses: the next call overflows the stack, however deep it is. -/
theorem register_after_stored {stack : Nat} (hstack : 128 < stack) {c c' : Call} {t t' : Tables} {peer : Peer}
    {i i' : Interface} {n : IPNet} {base p : IP} {l : Nat} {assigned : CIDR} (hcan : CanonicalPeers t c.intfName)
    (hi : selectInterface t c.intfName = .ok i) (hnet : networks i.ip = [n]) (hnet6 : networks i.ip6 = [])
    (hn : Shaped 1 n base l) (hreg : registerWithRanger stack c t = (.ok (), peer))
    (hip : peer.ip = some assigned) (hp : assigned.ipnet.ip.to4 = some p)
    (hother : ∃ nets, allocatedRanges t c.intfName = .ok nets ∧ Overlaid 1 p 0 nets)
    (hstored : ∃ post, (t'.peers.rows.filter fun r => decide (r.interface = c.intfName)) =
      (t.peers.rows.filter fun r => decide (r.interface = c.intfName)) ++ peer.row :: post)
    (hname : c'.intfName = c.intfName) (hopens : c'.opens = true) (hi' : selectInterface t' c.intfName = .ok i') :
    (registerWithRanger stack c' t').1 = .crash := by
  rw [registerWithRanger_eq hstack hcan] at hreg
  have hpeer : registerNewPeer bruteContains c t = (peer, none) := by
    obtain ⟨hok, hp⟩ := Prod.mk.inj hreg
    cases herr : (registerNewPeer bruteContains c t).2 with
    | none => exact Prod.ext hp herr
    | some e => rw [herr] at hok; cases hok
  obtain ⟨allocated, ip, hnext, hcidr, hip6⟩ := registered_ip hi hnet hnet6 hpeer
  rw [hip] at hcidr
  cases hcidr
  have hlen : n.ip.length = 16 := (networks_length hi).1 n (by rw [hnet]; exact List.mem_singleton_self n)
  obtain ⟨k, hk, rfl, -, -⟩ := bruteContains_reports.nextFreeIP_ok_iff.1 hnext
  have hlen' : (host n (k + 1)).length = 16 := by rw [host, toBytes_length, hlen]
  rw [newCIDR_ipnet hlen' (by decide)] at hp
  have hzero := host_v4_ne_zero hn hlen hk hp
  obtain ⟨cidr, hscan, hnil, hshape⟩ := scan_registered hlen' hp
  obtain ⟨nets, hnets, hover⟩ := hother
  obtain ⟨post, hstored⟩ := hstored
  have hrows : ∀ r ∈ t.peers.rows.filter fun r => decide (r.interface = c.intfName),
      ∀ n ∈ rowNetworks r, Canonical n := by
    intro r hr
    obtain ⟨hmem, hname⟩ := List.mem_filter.1 hr
    exact hcan r hmem (of_decide_eq_true hname)
  have hrow : CIDR.scan peer.row.ip = .ok (some cidr) := by
    rw [← hscan, ← hip]
    rfl
  have hrow6 : CIDR.scan peer.row.ip6 = .ok none := by
    rw [show peer.row.ip6 = CIDR.value peer.ip6 from rfl, hip6]
    rfl
  have hone : networks (some cidr) ++ networks none = [cidr.ipnet] := by simp [networks, hnil]
  have hhost : ¬ 2 ^ (32 * 1 - 0) ∣ ofBytes p := fun hd => hzero (Nat.eq_zero_of_dvd_of_lt hd hshape.family.lt)
  have hcrash : (allocatedRanger stack t' c.intfName).1 = .crash := by
    rw [allocatedRanger, hstored]
    exact readRanges_overflows hstack hrow hrow6 hone hshape hhost post hnets hrows hover
  have hassign : (assignFromRanger stack t' c'.intfName c'.peer).1 = .crash := by
    have hsel : (Proc.lift (selectInterface t' c'.intfName) : Proc Peer Error Interface) c'.peer =
        (.ok i', c'.peer) := by
      rw [hname, hi']
      rfl
    unfold assignFromRanger
    rw [Proc.bind_of_ok hsel, hname]
    rw [Proc.bind_of_crash (show ((allocatedRanger stack t' c.intfName).1, c'.peer) = (.crash, c'.peer) by rw [hcrash])]
  unfold registerWithRanger
  rw [hopens, if_pos rfl, show assignFromRanger stack t' c'.intfName c'.peer = (.crash, _) from Prod.ext hassign rfl]

/-- 10.0.0.2/0 is stored after 10.0.0.9/32. -/
theorem register_after_stored_onePeer :
    ∃ peer, registerWithRanger 129 (registerKey "a") onePeer.store.db.tables = (.ok (), peer) ∧
    (registerWithRanger 129 (registerKey "c")
      (onePeer.after bruteContains 129 (createPeer peer)).store.db.tables).1 = .crash := by
  have hnone : (registerNewPeer bruteContains (registerKey "a") onePeer.store.db.tables).2 = none := by decide +kernel
  have hreg := registerWithRanger_eq (show 128 < 129 by decide) (c := registerKey "a") canonicalPeers_onePeer
  rw [hnone] at hreg
  refine ⟨_, hreg, ?_⟩
  have hsel : ∃ i, selectInterface onePeer.store.db.tables "wg0" = .ok i ∧ networks i.ip = [hostNet.ipnet] ∧
      networks i.ip6 = [] := by
    have hmap : (selectInterface onePeer.store.db.tables "wg0").toOption.map
      (fun i => (networks i.ip, networks i.ip6)) =
        some ([hostNet.ipnet], []) := by decide +kernel
    cases hi : selectInterface onePeer.store.db.tables "wg0" with
    | error e => rw [hi] at hmap; cases hmap
    | ok i =>
      rw [hi] at hmap
      obtain ⟨h4, h6⟩ := Prod.mk.inj (Option.some.inj hmap)
      exact ⟨i, rfl, h4, h6⟩
  obtain ⟨i, hi, hnet, hnet6⟩ := hsel
  have hnets : allocatedRanges onePeer.store.db.tables "wg0" = .ok [nineNet.ipnet] := by
    have hmap : (allocatedRanges onePeer.store.db.tables "wg0").toOption = some [nineNet.ipnet] := by decide +kernel
    cases hall : allocatedRanges onePeer.store.db.tables "wg0" with
    | error e => rw [hall] at hmap; cases hmap
    | ok nets => rw [hall] at hmap; cases hmap; rfl
  generalize hpeer : (registerNewPeer bruteContains (registerKey "a") onePeer.store.db.tables).1 = peer at hreg
  have hrows : ((onePeer.after bruteContains 129 (createPeer peer)).store.db.tables.peers.rows.filter fun r =>
    decide (r.interface = "wg0")) =
      (onePeer.store.db.tables.peers.rows.filter fun r => decide (r.interface = "wg0")) ++ [peer.row] := by
    rw [← hpeer]
    decide +kernel
  have hfind : (onePeer.after bruteContains 129 (createPeer peer)).store.db.tables.interfaces.find? "wg0" =
      onePeer.store.db.tables.interfaces.find? "wg0" := by
    rw [← hpeer]
    decide +kernel
  have hi' : selectInterface (onePeer.after bruteContains 129 (createPeer peer)).store.db.tables "wg0" = .ok i := by
    rw [← hi, selectInterface, hfind, selectInterface]
  have hassigned : peer.ip.map (fun a => a.ipnet.ip) = some (v4InV6Prefix ++ [10, 0, 0, 2]) := by
    rw [← hpeer]
    decide +kernel
  obtain ⟨assigned, hip, haddr⟩ := Option.map_eq_some_iff.1 hassigned
  have hown : Shaped 1 hostNet.ipnet [10, 0, 0, 1] 24 := ⟨.v4 (by decide), by decide, by decide⟩
  exact register_after_stored (by decide) canonicalPeers_onePeer hi hnet hnet6 hown hreg hip
    (p := [10, 0, 0, 2]) (by rw [haddr]; decide)
    ⟨_, hnets, _, List.mem_singleton_self _, _, 32, shaped_nineNet, by decide, by decide⟩ ⟨[], hrows⟩ rfl rfl hi'

end Wig.Registration
