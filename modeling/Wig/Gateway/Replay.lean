/-
A log replayed on a new gateway: which of the calls the primary accepts the gateway accepts too.
The primary checks rows against its tables; the gateway parses keys, wants addresses, cannot update
an interface, and looks peers up in an index that keeps deleted interfaces.
-/
import Wig.Gateway.Effects
import Wig.Store.Accepted

namespace Wig.Gateway

open Wig.Lib Wig.Net Wig.Model Wig.Crudlog Wig.Store Kernel

/-! ## Replaying decoded rows -/

theorem replay_eq : ∀ {rows : List OpSerialized} {ops : List (Op Value)},
    rows.map (OpSerialized.decode encoding) = ops.map .ok → ∀ g,
    replay rows g = Proc.forEach (fun op => apply op true) ops g
  | [], [], _, _ => rfl
  | [], _ :: _, h, _ => by cases h
  | _ :: _, [], h, _ => by cases h
  | row :: rows, op :: ops, h, g => by
    obtain ⟨hdec, hrest⟩ := List.cons.inj h
    have hone : (do apply (← Proc.lift (row.decode encoding)) true : Proc Gateway Error Unit) g = apply op true g := by
      rw [Proc.bind_of_ok (show Proc.lift (row.decode encoding) g = (.ok op, g) by rw [Proc.lift_apply, hdec]; rfl)]
    unfold replay
    rw [Proc.forEach_cons, Proc.forEach_cons]
    rcases ho : apply op true g with ⟨(u | e | _ | _), g'⟩
    · rw [Proc.bind_of_ok (hone.trans ho), Proc.bind_of_ok ho]; exact replay_eq hrest g'
    · rw [Proc.bind_of_err (hone.trans ho), Proc.bind_of_err ho]
    · rw [Proc.bind_of_crash (hone.trans ho), Proc.bind_of_crash ho]
    · rw [Proc.bind_of_block (hone.trans ho), Proc.bind_of_block ho]

/-! ## Values read back -/

theorem isValidIP_of_wellFormed {n : IPNet} (h : n.WellFormed) : isValidIP n.ip = true := by
  unfold isValidIP
  rcases h with ⟨p, hp, -⟩ | ⟨hl, -⟩
  · unfold IP.to4 at hp
    split at hp
    · rename_i hl; simp [hl]
    · split at hp
      · rename_i hl; simp [hl.1]
      · cases hp
  · simp [hl]

theorem isValidIP_cidr (c : CIDR) : isValidIP c.ipnet.ip = !c.isNil := by
  rcases c.wf with h | h
  · unfold CIDR.isNil; rw [h]; rfl
  · rw [isValidIP_of_wellFormed h, CIDR.isNil_eq_false h]; rfl

/-- The gateway can configure the peer: its key parses, it has an address, and no address is empty. -/
structure Configurable (p : Peer) : Prop where
  key : (parseKey p.publicKey).isSome = true
  address : p.ip ≠ none ∨ p.ip6 ≠ none
  nonempty : NoneEmpty p.ip p.ip6

theorem mem_networks {ip ip6 : Option CIDR} {n : IPNet} :
    n ∈ networks ip ip6 ↔ ∃ c, (ip = some c ∨ ip6 = some c) ∧ c.ipnet = n := by
  unfold networks
  simp only [List.mem_map, List.mem_append, Option.mem_toList]

theorem networks_eq_nil {ip ip6 : Option CIDR} : networks ip ip6 = [] ↔ ip = none ∧ ip6 = none := by
  cases ip <;> cases ip6 <;> simp [networks]

theorem usable_reread_iff (p : Peer) : (∃ key, Usable p.reread key) ↔ Configurable p := by
  constructor
  · rintro ⟨key, hkey, hne, hvalid⟩
    refine ⟨?_, ?_, ?_⟩
    · exact Option.isSome_iff_exists.2 ⟨key, hkey⟩
    · by_contra h
      rw [not_or, not_not, not_not] at h
      exact hne (networks_eq_nil.2 ⟨by rw [Peer.reread, h.1]; rfl, by rw [Peer.reread, h.2]; rfl⟩)
    · intro c hc
      have hmem : c.reread.ipnet ∈ networks p.reread.ip p.reread.ip6 := by
        refine mem_networks.2 ⟨c.reread, ?_, rfl⟩
        rcases hc with hc | hc
        · exact .inl (by rw [Peer.reread, hc]; rfl)
        · exact .inr (by rw [Peer.reread, hc]; rfl)
      have hv := hvalid _ hmem
      rw [isValidIP_cidr, CIDR.isNil_reread] at hv
      simpa using hv
  · rintro ⟨hkey, haddr, hnil⟩
    obtain ⟨key, hkey⟩ := Option.isSome_iff_exists.1 hkey
    refine ⟨key, hkey, ?_, ?_⟩
    · intro h
      obtain ⟨h4, h6⟩ := networks_eq_nil.1 h
      rcases haddr with h | h
      · exact h (Option.map_eq_none_iff.1 h4)
      · exact h (Option.map_eq_none_iff.1 h6)
    · intro n hn
      obtain ⟨c', hc', rfl⟩ := mem_networks.1 hn
      rw [isValidIP_cidr]
      rcases hc' with hc' | hc'
      · obtain ⟨c, hc, rfl⟩ := Option.map_eq_some_iff.1 hc'
        rw [CIDR.isNil_reread, hnil c (.inl hc)]; rfl
      · obtain ⟨c, hc, rfl⟩ := Option.map_eq_some_iff.1 hc'
        rw [CIDR.isNil_reread, hnil c (.inr hc)]; rfl

/-! ## What the gateway accepts -/

/-- The interface that the calls so far named last for each peer. -/
def noted (named : String → Option String) : Call Value → String → Option String
  | .create (.peer p) => Function.update named p.publicKey (some p.interface)
  | .update (.peer p) => Function.update named p.publicKey (some p.interface)
  | _ => named

/-- The calls that, accepted by a primary with the tables `t`, are accepted by a gateway that has
followed it so far. -/
def Acceptable (validName : String → Bool) (t : Tables) (named : String → Option String) : Call Value → Prop
  | .create (.interface i) => i.name ≠ "" ∧ validName i.name = true ∧ (parseKey i.privateKey).isSome = true
  | .update (.interface _) => False
  | .delete (.interface i) => i.name ∈ t.interfaces.keys
  | .create (.peer p) => Configurable p
  | .update (.peer p) =>
    p.interface ∈ t.interfaces.keys ∧ Configurable p ∧ ∀ name, named p.publicKey = some name → name ∈ t.interfaces.keys
  | .delete (.peer p) =>
    (parseKey p.publicKey).isSome = true ∧ ∃ name ∈ t.interfaces.keys, named p.publicKey = some name
  | _ => True

/-- Every call of a list is acceptable when its turn comes. -/
def AllAcceptable (validName : String → Bool) : Tables → (String → Option String) → List (Call Value) → Prop
  | _, _, [] => True
  | t, named, c :: cs =>
    Acceptable validName t named c ∧ ∀ t', call t c = .ok t' → AllAcceptable validName t' (noted named c) cs

/-- A gateway that has accepted all calls so far. -/
structure Follows (validName : String → Bool) (t : Tables) (named : String → Option String) (g : Gateway) : Prop where
  faultFree : g.kernel.FaultFree
  validName : g.kernel.validName = validName
  obliging : g.kernel.driver.Obliging
  keys : ∀ name, name ∈ g.intfs.keys ↔ name ∈ t.interfaces.keys
  devices : ∀ name ∈ t.interfaces.keys, ∃ d, g.kernel.devices name = some d
  index : g.peerIndex = named
  nameless : "" ∉ t.interfaces.keys
  named : ∀ key, named key ≠ some ""

/-! ## One call -/

section Keys

variable {g : Table Interface.name} {t t' : Table InterfaceRow.name}

theorem keys_upsert_insert (h : ∀ n, n ∈ g.keys ↔ n ∈ t.keys) {i : Interface} (hins : t.insert i.row = some t')
    (name : String) : name ∈ (g.upsert i.reread).keys ↔ name ∈ t'.keys := by
  rw [Table.mem_keys_upsert, h, Table.keys_insert hins, List.mem_append, List.mem_singleton, or_comm]
  exact Iff.rfl

theorem keys_erase_erase (h : ∀ n, n ∈ g.keys ↔ n ∈ t.keys) (old name : String) :
    name ∈ (g.erase old).keys ↔ name ∈ (t.erase old).keys := by
  rw [Table.mem_keys_erase, Table.mem_keys_erase, h]

end Keys

/-- The gateway accepts the call exactly if it is acceptable, and then goes on following. -/
structure Agrees (validName : String → Bool) (t t' : Tables) (named : String → Option String) (c : Call Value)
    (x : Proc Gateway Error Unit) (g : Gateway) : Prop where
  accepts : (∃ g', x g = (.ok (), g')) ↔ Acceptable validName t named c
  follows : ∀ g', x g = (.ok (), g') → Follows validName t' (noted named c) g'

namespace Follows

variable {validName : String → Bool} {t t' : Tables} {named : String → Option String} {g : Gateway}

theorem start (validName : String → Bool) {driver : Driver} (hob : driver.Obliging) :
    Follows validName Tables.empty (fun _ => none) (new (Kernel.host validName driver)) :=
  ⟨rfl, rfl, hob, fun _ => Iff.rfl, fun _ h => (List.not_mem_nil h).elim, rfl, fun h => (List.not_mem_nil h).elim,
    fun _ h => by cases h⟩

theorem setSeq (h : Follows validName t named g) (n : Nat) : Follows validName t named { g with seq := n } :=
  ⟨h.faultFree, h.validName, h.obliging, h.keys, h.devices, h.index, h.nameless, h.named⟩

/-- Changing the devices of the interfaces and the tables other than that of the interfaces. -/
theorem withDevice (h : Follows validName t named g) (ht : t'.interfaces = t.interfaces) {name : String} {d : Device} :
    Follows validName t' named (g.withDevice name d) := by
  refine ⟨h.faultFree, h.validName, h.obliging, fun n => ht ▸ h.keys n, ?_, h.index, ht ▸ h.nameless, h.named⟩
  intro n hn
  exact setDevice_exists d fun _ => h.devices n (ht ▸ hn)

theorem withIndex (h : Follows validName t named g) {key name : String} (hname : name ∈ t.interfaces.keys) :
    Follows validName t (Function.update named key (some name)) (g.withIndex key name) := by
  refine ⟨h.faultFree, h.validName, h.obliging, h.keys, h.devices, ?_, h.nameless, ?_⟩
  · show Function.update g.peerIndex key (some name) = _
    rw [h.index]
  · intro key' hk
    by_cases hkey : key' = key
    · subst hkey
      rw [Function.update_self] at hk
      cases hk
      exact h.nameless hname
    · rw [Function.update_of_ne hkey] at hk
      exact h.named key' hk

theorem deconfigured (h : Follows validName t named g) (p : Peer) (key : Key) :
    Follows validName t named (g.deconfigured p key) := by
  rcases deconfigured_cases g p key with heq | ⟨d, -, -, heq⟩
  · rw [heq]
    exact h
  · rw [heq]
    exact h.withDevice rfl

/-- The kernel takes what is asked of the device of a known interface. -/
theorem makes (h : Follows validName t named g) {name : String} (hn : name ∈ t.interfaces.keys) (a : Ask) :
    ∃ d, g.kernel.Makes name a d := by
  obtain ⟨d, hd⟩ := h.devices name hn
  obtain ⟨d', hd'⟩ := h.obliging g.kernel.devices name d a hd
  exact ⟨d', d, hd, hd'⟩

theorem interface_create (h : Follows validName t named g) {i : Interface}
    (hc : call t (.create (.interface i)) = .ok t') :
    Agrees validName t t' named (.create (.interface i)) (applyInterface .create i.reread) g := by
  obtain ⟨hins, -⟩ := call_create_interface hc
  have hkeys := Table.keys_insert hins
  have hfresh : i.name ∉ g.intfs.keys := fun hm => (Table.insert_rows hins).1 ((h.keys _).1 hm)
  constructor
  · constructor
    · rintro ⟨g', ho⟩
      obtain ⟨-, d, hnew, -⟩ := (applyInterface_create_iff h.faultFree).1 ho
      obtain ⟨hne, hv, ⟨key, hkey⟩, -⟩ := newInterface_ok h.faultFree hnew
      exact ⟨hne, h.validName ▸ hv, Option.isSome_iff_exists.2 ⟨key, hkey⟩⟩
    · rintro ⟨hne, hv, hkey⟩
      obtain ⟨key, hkey⟩ := Option.isSome_iff_exists.1 hkey
      obtain ⟨d, hnew⟩ := newInterface_succeeds (i := i.reread) h.faultFree h.obliging hne (h.validName ▸ hv) hkey
      exact ⟨_, (applyInterface_create_iff h.faultFree).2 ⟨hfresh, d, hnew, rfl⟩⟩
  · intro g' ho
    obtain ⟨-, d, hnew, rfl⟩ := (applyInterface_create_iff h.faultFree).1 ho
    obtain ⟨hne, -⟩ := newInterface_ok h.faultFree hnew
    refine ⟨h.faultFree, h.validName, h.obliging, keys_upsert_insert h.keys hins, ?_, h.index, ?_, h.named⟩
    · intro name hn
      rw [hkeys, List.mem_append, List.mem_singleton] at hn
      exact setDevice_exists _ fun hni => h.devices name (hn.resolve_right hni)
    · rw [hkeys, List.mem_append, List.mem_singleton]
      rintro (hm | hm)
      · exact h.nameless hm
      · exact hne hm.symm

theorem interface_update (h : Follows validName t named g) (i : Interface) :
    Agrees validName t t' named (.update (.interface i)) (applyInterface .update i.reread) g := by
  constructor
  · exact ⟨fun ⟨_, ho⟩ => applyInterface_update_fails h.faultFree ho, False.elim⟩
  · intro g' ho
    exact (applyInterface_update_fails h.faultFree ho).elim

theorem interface_delete (h : Follows validName t named g) {i : Interface}
    (hc : call t (.delete (.interface i)) = .ok t') :
    Agrees validName t t' named (.delete (.interface i)) (applyInterface .delete i.reread) g := by
  obtain ⟨hti, -⟩ := call_delete_interface hc
  constructor
  · constructor
    · rintro ⟨g', ho⟩
      exact (h.keys _).1 ((applyInterface_delete_ok_iff h.faultFree).1 ho).1
    · intro hm
      exact ⟨_, (applyInterface_delete_ok_iff h.faultFree).2 ⟨(h.keys _).2 hm, rfl⟩⟩
  · intro g' ho
    obtain ⟨-, rfl⟩ := (applyInterface_delete_ok_iff h.faultFree).1 ho
    refine ⟨h.faultFree, h.validName, h.obliging, hti ▸ keys_erase_erase h.keys i.name, ?_, h.index, ?_, h.named⟩
    · intro name hn
      rw [hti] at hn
      obtain ⟨hn, hne⟩ := Table.mem_keys_erase.1 hn
      obtain ⟨d, hd⟩ := h.devices name hn
      exact ⟨d, (setDevice_of_ne g.kernel hne none).trans hd⟩
    · rw [hti]
      exact fun hm => h.nameless (Table.mem_keys_erase.1 hm).1

theorem peer_create (h : Follows validName t named g) {p : Peer} (hc : call t (.create (.peer p)) = .ok t') :
    Agrees validName t t' named (.create (.peer p)) (applyPeer .create p.reread) g := by
  obtain ⟨hmem, -, hti⟩ := call_create_peer hc
  constructor
  · refine Iff.trans ?_ (usable_reread_iff p)
    constructor
    · rintro ⟨g', ho⟩
      obtain ⟨-, key, d, hu, -⟩ := (applyPeer_create_iff h.faultFree).1 ho
      exact ⟨key, hu⟩
    · rintro ⟨key, hu⟩
      obtain ⟨d, hd⟩ := h.makes hmem (.configure (peerAttrs (setConfig p.reread key false)))
      exact ⟨_, (applyPeer_create_iff h.faultFree).2 ⟨(h.keys _).2 hmem, key, d, hu, hd, rfl⟩⟩
  · intro g' ho
    obtain ⟨-, key, d, -, -, rfl⟩ := (applyPeer_create_iff h.faultFree).1 ho
    exact (h.withIndex hmem).withDevice hti

theorem indexed_iff (h : Follows validName t named g) {key name : String} (hne : name ≠ "") :
    g.indexed key = name ↔ named key = some name := by
  rw [indexed_eq_iff hne, h.index]

theorem moves_known_iff (h : Follows validName t named g) {p : Peer} (hmem : p.interface ∈ t.interfaces.keys) :
    (g.Moves p → g.indexed p.publicKey ∈ g.intfs.keys) ↔
      ∀ name, named p.publicKey = some name → name ∈ t.interfaces.keys := by
  rw [h.keys]
  constructor
  · intro hm name hname
    have hne : name ≠ "" := by rintro rfl; exact h.named _ hname
    have hix := (h.indexed_iff hne).2 hname
    -- no removal is tried where the interface stays the same
    by_cases hsame : name = p.interface
    · rw [hsame]; exact hmem
    · rw [hix] at hm
      exact hm ⟨by rw [hix]; exact hne, by rw [hix]; exact hsame⟩
  · rintro hn ⟨hne, -⟩
    exact hn _ ((h.indexed_iff hne).1 rfl)

theorem peer_update (h : Follows validName t named g) {p : Peer} (hc : call t (.update (.peer p)) = .ok t') :
    Agrees validName t t' named (.update (.peer p)) (applyPeer .update p.reread) g := by
  obtain ⟨hti, -⟩ := call_update_peer hc
  constructor
  · constructor
    · rintro ⟨g', ho⟩
      obtain ⟨hmem, hmoves, key, d, hu, -⟩ := (applyPeer_update_iff h.faultFree).1 ho
      have hmem' := (h.keys _).1 hmem
      exact ⟨hmem', (usable_reread_iff p).1 ⟨key, hu⟩, (h.moves_known_iff (p := p.reread) hmem').1 hmoves⟩
    · rintro ⟨hmem, hconf, hnamed⟩
      obtain ⟨key, hu⟩ := (usable_reread_iff p).2 hconf
      obtain ⟨d, hd⟩ := (h.deconfigured p.reread key).makes hmem (.configure (peerAttrs (setConfig p.reread key true)))
      exact ⟨_, (applyPeer_update_iff h.faultFree).2
        ⟨(h.keys _).2 hmem, (h.moves_known_iff (p := p.reread) hmem).2 hnamed, key, d, hu, hd, rfl⟩⟩
  · intro g' ho
    obtain ⟨hmem, -, key, d, -, -, rfl⟩ := (applyPeer_update_iff h.faultFree).1 ho
    exact ((h.deconfigured p.reread key).withIndex ((h.keys _).1 hmem)).withDevice hti

theorem peer_delete (h : Follows validName t named g) {p : Peer} (hc : call t (.delete (.peer p)) = .ok t') :
    Agrees validName t t' named (.delete (.peer p)) (applyPeer .delete p.reread) g := by
  obtain ⟨hti, -⟩ := call_delete_peer hc
  constructor
  · constructor
    · rintro ⟨g', ho⟩
      obtain ⟨hmem, key, d, hkey, -⟩ := (applyPeer_delete_ok_iff h.faultFree).1 ho
      have hmem' := (h.keys _).1 hmem
      -- an unknown peer would be looked up under the empty name, which no interface has
      have hne : g.indexed p.reread.publicKey ≠ "" := fun he => h.nameless (he ▸ hmem')
      exact ⟨Option.isSome_iff_exists.2 ⟨key, hkey⟩, _, hmem', (h.indexed_iff hne).1 rfl⟩
    · rintro ⟨hkey, name, hmem, hnamed⟩
      obtain ⟨key, hkey⟩ := Option.isSome_iff_exists.1 hkey
      have hne : name ≠ "" := by rintro rfl; exact h.nameless hmem
      have hix : g.indexed p.reread.publicKey = name := (h.indexed_iff hne).2 hnamed
      obtain ⟨d, hd⟩ := h.makes hmem (.configure (peerAttrs (removeConfig key)))
      refine ⟨_, (applyPeer_delete_ok_iff h.faultFree).2 ⟨?_, key, d, hkey, ?_, rfl⟩⟩
      · rw [hix]; exact (h.keys _).2 hmem
      · rw [hix]; exact hd
  · intro g' ho
    obtain ⟨-, key, d, -, -, rfl⟩ := (applyPeer_delete_ok_iff h.faultFree).1 ho
    exact h.withDevice hti

theorem nothing (h : Follows validName t named g) {c : Call Value} (hti : t'.interfaces = t.interfaces)
    (hacc : Acceptable validName t named c) (hnoted : noted named c = named) :
    Agrees validName t t' named c (pure ()) g := by
  constructor
  · exact ⟨fun _ => hacc, fun _ => ⟨g, rfl⟩⟩
  · intro g' ho
    cases ho
    rw [hnoted]
    exact ⟨h.faultFree, h.validName, h.obliging, fun n => hti ▸ h.keys n, fun n hn => h.devices n (hti ▸ hn), h.index,
      hti ▸ h.nameless, h.named⟩

/-- Every call that the primary accepts. -/
theorem step (h : Follows validName t named g) {c : Call Value} (hc : call t c = .ok t') (n : Nat) :
    Agrees validName t t' named c (dispatch (logged n c)) g := by
  cases c with
  | create v =>
    cases v with
    | interface i => exact h.interface_create hc
    | peer p => exact h.peer_create hc
    | token k => exact h.nothing (call_token rfl hc).1 trivial rfl
    | other => exact (call_other rfl hc).elim
  | update v =>
    cases v with
    | interface i => exact h.interface_update i
    | peer p => exact h.peer_update hc
    | token k => exact h.nothing (call_token rfl hc).1 trivial rfl
    | other => exact (call_other rfl hc).elim
  | delete v =>
    cases v with
    | interface i => exact h.interface_delete hc
    | peer p => exact h.peer_delete hc
    | token k => exact h.nothing (call_token rfl hc).1 trivial rfl
    | other => exact (call_other rfl hc).elim

/-- Every list of calls that the primary accepts. -/
theorem run :
    ∀ (cs : List (Call Value)) {t : Tables} {named : String → Option String} {g : Gateway} {t' : Tables} (n : Nat),
    Follows validName t named g → calls t cs = .ok t' →
    ((Proc.forEach (fun op => apply op true) (loggedFrom n cs) g).1 = .ok () ↔ AllAcceptable validName t named cs)
  | [], _, _, _, _, _, _, _ => ⟨fun _ => trivial, fun _ => rfl⟩
  | c :: cs, t, named, g, t', n, h, hcs => by
    rw [calls] at hcs
    cases hc : call t c with
    | error e => rw [hc] at hcs; cases hcs
    | ok t₁ =>
      rw [hc] at hcs
      have hstep := h.step hc (n + 1)
      rw [loggedFrom, Proc.forEach_cons]
      constructor
      · intro ho
        obtain ⟨g'', ho⟩ := Proc.ok_of_fst ho
        obtain ⟨_, g', happ, hrest⟩ := Proc.bind_ok ho
        obtain ⟨g₁, hd, rfl⟩ := apply_ok_iff.1 happ
        -- the loop stops at the first error, so every call before has been accepted
        refine ⟨hstep.accepts.1 ⟨g₁, hd⟩, fun t₂ ht₂ => ?_⟩
        rw [hc] at ht₂
        cases ht₂
        exact (run cs (n + 1) ((hstep.follows g₁ hd).setSeq _) hcs).1 (by rw [hrest])
      · rintro ⟨hacc, hall⟩
        obtain ⟨g₁, hd⟩ := hstep.accepts.2 hacc
        rw [Proc.bind_of_ok (apply_ok_iff.2 ⟨g₁, hd, rfl⟩)]
        exact (run cs (n + 1) ((hstep.follows g₁ hd).setSeq _) hcs).2 (hall t₁ hc)

end Follows

/-! ## The log of a primary -/

/-- The log of requests that a primary accepted goes through on a new gateway, whose kernel refuses nothing
of a device that is there, exactly if each of its calls is acceptable in its turn. -/
theorem replay_accepts_iff (stack : Nat) (validName : String → Bool) {driver : Driver} (hob : driver.Obliging)
    (reqs : List (Request Value))
    (hok : ∀ x ∈ (Datastore.requests (crud stack) encoding reqs Store.fresh).1, x = .ok ()) :
    (replay (Datastore.requests (crud stack) encoding reqs Store.fresh).2.db.log.rows
        (new (Kernel.host validName driver))).1 = .ok () ↔
      AllAcceptable validName Tables.empty (fun _ => none) (reqs.map Request.call) := by
  obtain ⟨hcalls, -, rows, hrows, hdec⟩ := requests_ok stack reqs (s := Store.fresh) Pubsub.Quiet.new hok
  rw [hrows]
  change (replay rows _).1 = _ ↔ _
  rw [replay_eq hdec]
  exact Follows.run (reqs.map Request.call) 0 (Follows.start validName hob) hcalls

/-- An interface and a peer on it. -/
def plainRequests : List (Request Value) :=
  [⟨.create (.interface (sampleInterface "wg0")), Time.zero, true⟩,
    ⟨.create (.peer (samplePeer "wg0")), Time.zero, true⟩]

theorem samplePeer_configurable (name : String) : Configurable (samplePeer name) where
  key := parseKey_samplePeer name
  address := .inl (by decide +kernel : (CIDR.parse "10.0.0.2/32").toOption ≠ none)
  nonempty c hc := by
    have hall : (CIDR.parse "10.0.0.2/32").toOption.all (fun c => !c.isNil) = true := by decide +kernel
    rcases hc with hc | hc
    · change (CIDR.parse "10.0.0.2/32").toOption = some c at hc
      rw [hc] at hall
      simpa using hall
    · cases hc

theorem replay_accepts_plainRequests :
    (replay (Datastore.requests (crud 8) encoding plainRequests Store.fresh).2.db.log.rows
      (new sampleHost)).1 = .ok () := by
  refine (replay_accepts_iff 8 (fun _ => true) Driver.documented_obliging plainRequests (by decide +kernel)).2
    ⟨?_, fun t' _ => ⟨?_, fun _ _ => trivial⟩⟩
  · exact ⟨by decide, rfl, by decide +kernel⟩
  · exact samplePeer_configurable "wg0"

/-- An interface that gets another port. -/
def updateRequests : List (Request Value) :=
  [⟨.create (.interface (sampleInterface "wg0")), Time.zero, true⟩,
    ⟨.update (.interface { sampleInterface "wg0" with port := 51821 }), Time.zero, true⟩]

/-- A peer without addresses. -/
def addresslessRequests : List (Request Value) :=
  [⟨.create (.interface (sampleInterface "wg0")), Time.zero, true⟩,
    ⟨.create (.peer { samplePeer "wg0" with ip := none }), Time.zero, true⟩]

/-- The primary accepts both lists, and the gateway fails on their logs. -/
theorem replay_rejects :
    ((∀ x ∈ (Datastore.requests (crud 8) encoding updateRequests Store.fresh).1, x = .ok ()) ∧
      (replay (Datastore.requests (crud 8) encoding updateRequests Store.fresh).2.db.log.rows
        (new sampleHost)).1 = .err .notExist) ∧
    (∀ x ∈ (Datastore.requests (crud 8) encoding addresslessRequests Store.fresh).1, x = .ok ()) ∧
      (replay (Datastore.requests (crud 8) encoding addresslessRequests Store.fresh).2.db.log.rows
        (new sampleHost)).1 = .err .noIPs := by
  refine ⟨⟨?_, ?_⟩, ?_, ?_⟩ <;> decide +kernel

end Wig.Gateway
