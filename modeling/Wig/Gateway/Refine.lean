/-
The devices that the tables describe, and the logs on which a gateway has exactly those: interfaces
are created and deleted, and peers are created with canonical keys, updated on their interface and
deleted, while the host can have the devices: no two interfaces want one port, and no two peers of an
interface one network.
-/
import Wig.Gateway.Replay

namespace Wig.Gateway

open Wig.Lib Wig.Net Wig.Model Wig.Crudlog Wig.Store Kernel

/-! ## The devices of the tables -/

/-- The peers that the rows of an interface describe. -/
def peersOf (t : Tables) (name : String) (key : Key) : Option WgPeer :=
  (t.peers.find? key.string).bind fun r => if r.interface = name then r.scan.toOption.map wgPeer else none

/-- The device that the rows of an interface and its peers describe. -/
def deviceOf (t : Tables) (name : String) : Option Device :=
  (t.interfaces.find? name).bind fun r => r.scan.toOption.bind fun i =>
    (parseKey i.privateKey).map fun key => interfaceDevice i key (peersOf t name)

section DeviceOf

variable {t t' : Tables} {name : String}

theorem deviceOf_eq {r : InterfaceRow} {i : Interface} {key : Key} (hr : t.interfaces.find? name = some r)
    (hs : r.scan = .ok i) (hk : parseKey i.privateKey = some key) :
    deviceOf t name = some (interfaceDevice i key (peersOf t name)) := by
  unfold deviceOf
  rw [hr, Option.bind_some, hs]
  show (parseKey i.privateKey).map _ = _
  rw [hk]
  rfl

theorem deviceOf_absent (h : name ∉ t.interfaces.keys) : deviceOf t name = none := by
  unfold deviceOf
  rw [Table.find?_eq_none.2 h]
  rfl

theorem deviceOf_congr (hi : t'.interfaces.find? name = t.interfaces.find? name)
    (hp : peersOf t' name = peersOf t name) : deviceOf t' name = deviceOf t name := by
  unfold deviceOf
  rw [hi, hp]

/-- A device with other peers in the same tables of interfaces. -/
theorem deviceOf_withPeers {d : Device} (hi : t'.interfaces = t.interfaces) (hd : deviceOf t name = some d) :
    deviceOf t' name = some { d with peers := peersOf t' name } := by
  unfold deviceOf at hd ⊢
  rw [hi]
  obtain ⟨r, hr, hd⟩ := Option.bind_eq_some_iff.1 hd
  obtain ⟨i, hs, hd⟩ := Option.bind_eq_some_iff.1 hd
  obtain ⟨key, hk, rfl⟩ := Option.map_eq_some_iff.1 hd
  rw [hr, Option.bind_some, hs, Option.bind_some, hk]
  rfl

theorem deviceOf_peers {d : Device} (hd : deviceOf t name = some d) : d.peers = peersOf t name := by
  have h := (deviceOf_withPeers rfl hd).symm.trans hd
  rw [Option.some.injEq] at h
  exact congrArg Device.peers h.symm

/-- The row behind a device. -/
theorem deviceOf_row {d : Device} (hd : deviceOf t name = some d) :
    ∃ r ∈ t.interfaces.rows, r.name = name ∧ d.listenPort = port16 r.port ∧ d.privateKey = parseKey r.privateKey := by
  obtain ⟨r, hr, hd⟩ := Option.bind_eq_some_iff.1 hd
  obtain ⟨i, hs, hd⟩ := Option.bind_eq_some_iff.1 hd
  obtain ⟨key, hk, rfl⟩ := Option.map_eq_some_iff.1 hd
  obtain ⟨hr, hname⟩ := Table.find?_eq_some.1 hr
  have hs : r.scan = .ok i := by
    cases hscan : r.scan with
    | ok i' => rw [hscan] at hs; cases hs; rfl
    | error e => rw [hscan] at hs; cases hs
  obtain ⟨-, hport, -, hpriv⟩ := InterfaceRow.scan_eq hs
  exact ⟨r, hr, hname, by rw [← hport]; rfl, by rw [← hpriv, hk]; rfl⟩

/-- The row behind a peer of a device. -/
theorem peersOf_some {key : Key} {w : WgPeer} (h : peersOf t name key = some w) :
    ∃ r ∈ t.peers.rows, r.publicKey = key.string ∧ r.interface = name ∧ ∃ p, r.scan = .ok p ∧ w = wgPeer p := by
  unfold peersOf at h
  obtain ⟨r, hr, h⟩ := Option.bind_eq_some_iff.1 h
  obtain ⟨hr, hk⟩ := Table.find?_eq_some.1 hr
  split at h
  · rename_i hname
    cases hscan : r.scan with
    | ok p => rw [hscan] at h; cases h; exact ⟨r, hr, hk, hname, p, hscan, rfl⟩
    | error e => rw [hscan] at h; cases h
  · cases h

theorem peersOf_none (h : ∀ r ∈ t.peers.rows, r.interface ≠ name) : peersOf t name = fun _ => none := by
  funext key
  unfold peersOf
  cases hr : t.peers.find? key.string with
  | none => rfl
  | some r => exact if_neg (h r (Table.find?_eq_some.1 hr).1)

/-- An interface that is not in the table has no peers, since every peer's interface is. -/
theorem peersOf_absent (h : name ∉ t.interfaces.keys) : peersOf t name = fun _ => none := by
  refine peersOf_none fun r hr heq => h ?_
  rw [← heq]
  exact t.foreignKey r hr

/-- The rows of a deleted interface go with it; a row of another one stays. -/
theorem peersOf_filter {other : String} (hp : t'.peers = t.peers.filter fun r => r.interface ≠ other)
    (hne : name ≠ other) : peersOf t' name = peersOf t name := by
  funext key
  unfold peersOf
  rw [hp, Table.find?_filter]
  cases t.peers.find? key.string with
  | none => rfl
  | some r =>
    by_cases hr : r.interface = name
    · have hkeep : decide (r.interface ≠ other) = true := decide_eq_true (by rw [hr]; exact hne)
      rw [Option.filter_some, if_pos hkeep]
    · rw [Option.bind_some, if_neg hr, Option.filter_some]
      split
      · exact if_neg hr
      · rfl

/-- A row of a peer puts it on its interface. -/
theorem peersOf_of_row {r : PeerRow} {p : Peer} {key : Key} (hr : r ∈ t.peers.rows) (hs : r.scan = .ok p)
    (hk : key.string = r.publicKey) : peersOf t r.interface key = some (wgPeer p) := by
  unfold peersOf
  rw [hk, Table.find?_eq_some.2 ⟨hr, rfl⟩, Option.bind_some, if_pos rfl, hs]
  rfl

/-- The peers of an interface when one row has changed. -/
theorem peersOf_update {key : Key} {row : Option PeerRow}
    (hfind : ∀ s, t'.peers.find? s = if key.string = s then row else t.peers.find? s) (name : String) :
    peersOf t' name = Function.update (peersOf t name) key
      (row.bind fun r => if r.interface = name then r.scan.toOption.map wgPeer else none) := by
  funext k
  by_cases hk : k = key
  · subst hk
    unfold peersOf
    rw [Function.update_self, hfind, if_pos rfl]
  · rw [Function.update_of_ne hk]
    unfold peersOf
    rw [hfind, if_neg fun h => hk (Key.string_inj h).symm]

theorem peersOf_set {key : Key} {p : Peer} (hne : NoneEmpty p.ip p.ip6)
    (hfind : ∀ s, t'.peers.find? s = if key.string = s then some p.row else t.peers.find? s) :
    peersOf t' p.interface = Function.update (peersOf t p.interface) key (some (wgPeer p.reread)) := by
  rw [peersOf_update hfind, Option.bind_some, if_pos p.row_interface, Peer.scan_row hne]
  rfl

theorem peersOf_set_other {key : Key} {p : Peer}
    (hfind : ∀ s, t'.peers.find? s = if key.string = s then some p.row else t.peers.find? s) {name : String}
    (hn : name ≠ p.interface) (hnone : peersOf t name key = none) : peersOf t' name = peersOf t name := by
  rw [peersOf_update hfind, Option.bind_some, if_neg (show ¬ p.row.interface = name from Ne.symm hn), ← hnone,
    Function.update_eq_self]

end DeviceOf

/-! ## Plain logs -/

/-- The calls of a plain log, made when the tables are `t`. -/
def Plain (t : Tables) : Call Value → Prop
  | .create (.interface i) => (parseKey i.privateKey).isSome = true ∧ NoneEmpty i.ip i.ip6
  | .update (.interface _) => False
  | .delete (.interface i) => i.name ∈ t.interfaces.keys
  | .create (.peer p) => CanonicalKey p.publicKey ∧ (p.ip ≠ none ∨ p.ip6 ≠ none) ∧ NoneEmpty p.ip p.ip6
  | .update (.peer p) =>
    (∃ r ∈ t.peers.rows, r.publicKey = p.publicKey ∧ r.interface = p.interface) ∧ (p.ip ≠ none ∨ p.ip6 ≠ none) ∧
      NoneEmpty p.ip p.ip6
  | .delete (.peer p) => p.publicKey ∈ t.peers.keys
  | _ => True

/-- Every call of a list is plain when its turn comes. -/
def AllPlain : Tables → List (Call Value) → Prop
  | _, [] => True
  | t, c :: cs => Plain t c ∧ ∀ t', call t c = .ok t' → AllPlain t' cs

/-! ## Tables that a host can have -/

instance {α : Type} (x : Except Error α) (P : α → Prop) [DecidablePred P] : Decidable (∀ a, x = .ok a → P a) :=
  match x with
  | .ok a => decidable_of_iff (P a) ⟨fun h _ heq => by cases heq; exact h, fun h => h a rfl⟩
  | .error _ => isTrue fun _ h => by cases h

/-- The host takes every interface as it is, and each on a port of its own. A peer's addresses are networks
without host bits, none of them twice or another peer's on the same interface, and the peer is not the
interface itself. -/
structure Hostable (validName : String → Bool) (τ : Terms) (t : Tables) : Prop where
  granted : ∀ r ∈ t.interfaces.rows, ∀ i, r.scan = .ok i → Granted validName τ i
  ports : ∀ r ∈ t.interfaces.rows, ∀ r' ∈ t.interfaces.rows, port16 r.port = port16 r'.port → r.name = r'.name
  nets : ∀ r ∈ t.peers.rows, ∀ p, r.scan = .ok p →
    (∀ n ∈ networks p.ip p.ip6, BaseNet n) ∧ ((networks p.ip p.ip6).map IPNet.chars).Nodup
  foreign : ∀ r ∈ t.peers.rows, ∀ i ∈ t.interfaces.rows, i.name = r.interface → ∀ own ∈ parseKey i.privateKey,
    parseKey r.publicKey ≠ some (τ.publicKey own)
  unshared : ∀ r ∈ t.peers.rows, ∀ r' ∈ t.peers.rows, r'.interface = r.interface → r'.publicKey ≠ r.publicKey →
    ∀ p, r.scan = .ok p → ∀ p', r'.scan = .ok p' → ∀ n ∈ networks p.ip p.ip6, ∀ m ∈ networks p'.ip p'.ip6,
      m.chars ≠ n.chars

instance (validName : String → Bool) (τ : Terms) (t : Tables) : Decidable (Hostable validName τ t) :=
  decidable_of_iff (_ ∧ _ ∧ _ ∧ _ ∧ _) ⟨fun ⟨a, b, c, d, e⟩ => ⟨a, b, c, d, e⟩, fun ⟨a, b, c, d, e⟩ => ⟨a, b, c, d, e⟩⟩

/-- Every call of a list leaves tables that the host can have. -/
def AllHostable (validName : String → Bool) (τ : Terms) : Tables → List (Call Value) → Prop
  | _, [] => True
  | t, c :: cs => ∀ t', call t c = .ok t' → Hostable validName τ t' ∧ AllHostable validName τ t' cs

instance decidableAllHostable (validName : String → Bool) (τ : Terms) : ∀ (t : Tables) (cs : List (Call Value)),
    Decidable (AllHostable validName τ t cs)
  | _, [] => isTrue trivial
  | t, c :: cs =>
    have := fun t' => decidableAllHostable validName τ t' cs
    inferInstanceAs (Decidable (∀ t', call t c = .ok t' → Hostable validName τ t' ∧ AllHostable validName τ t' cs))

theorem Usable.wellFormed {p : Peer} {key : Key} (h : Usable p key) {n : IPNet} (hn : n ∈ networks p.ip p.ip6) :
    n.WellFormed := by
  have hv := h.valid n hn
  obtain ⟨c, -, rfl⟩ := mem_networks.1 hn
  refine c.wf.resolve_left fun hnil => ?_
  rw [hnil] at hv
  exact absurd hv (by decide)

/-- A peer of the tables fits on a device with other peers of its interface. -/
theorem Hostable.fits {validName : String → Bool} {τ : Terms} {t : Tables} (h : Hostable validName τ t) {r : PeerRow}
    (hr : r ∈ t.peers.rows) {p : Peer} (hscan : r.scan = .ok p) {key : Key} (hu : Usable p key)
    (hkey : key.string = r.publicKey) {own : Option Key} {peers : Key → Option WgPeer}
    (hown : ∃ i ∈ t.interfaces.rows, i.name = r.interface ∧ own = parseKey i.privateKey)
    (hpeers : ∀ key' w, key' ≠ key → peers key' = some w → peersOf t r.interface key' = some w) (update : Bool) :
    Fits τ own peers (setConfig p key update) := by
  obtain ⟨hbase, hnodup⟩ := h.nets r hr p hscan
  obtain ⟨i, hi, hname, rfl⟩ := hown
  refine ⟨.inr rfl, fun _ own hpriv heq => ?_, fun n hn => ⟨hu.wellFormed hn, hbase n hn⟩, hnodup, ?_⟩
  · refine h.foreign r hr i hi hname own hpriv ?_
    rw [← hkey, parseKey_string, ← heq]
    rfl
  · intro key' w hne hw n hn m hm
    obtain ⟨r', hr', hk', hi', p', hscan', rfl⟩ := peersOf_some (hpeers key' w hne hw)
    refine h.unshared r hr r' hr' hi' ?_ p hscan p' hscan' n hn m hm
    rw [hk', ← hkey]
    exact fun heq => hne (Key.string_inj heq)

/-! ## The refinement -/

/-- The tables that a plain log builds. -/
structure Sound (t : Tables) : Prop where
  interfaces : ∀ r ∈ t.interfaces.rows, ∃ i key, r.scan = .ok i ∧ parseKey r.privateKey = some key
  peers : ∀ r ∈ t.peers.rows, ∃ p key, r.scan = .ok p ∧ Usable p key ∧ key.string = r.publicKey

theorem Sound.device {t : Tables} (h : Sound t) {name : String} (hn : name ∈ t.interfaces.keys) :
    ∃ d, deviceOf t name = some d := by
  obtain ⟨r, hr⟩ := Table.mem_keys_iff_find?.1 hn
  obtain ⟨i, key, hs, hk⟩ := h.interfaces r (Table.find?_eq_some.1 hr).1
  exact ⟨_, deviceOf_eq hr hs (by rw [(InterfaceRow.scan_eq hs).2.2.2]; exact hk)⟩

/-- The devices of the tables, beside some that are left over from before: `left` says which names and ports
these can have. -/
structure Hosts (left : String → Nat → Prop) (t : Tables) (ds : String → Option Device) : Prop where
  devices : ∀ name ∈ t.interfaces.keys, ds name = deviceOf t name
  leftover : ∀ name ∉ t.interfaces.keys, ∀ d, ds name = some d → left name d.listenPort

/-- Nothing is left over. -/
def noneLeft : String → Nat → Prop := fun _ _ => False

namespace Hosts

variable {left left' : String → Nat → Prop} {t t' : Tables} {ds : String → Option Device}

/-- One device is set, and the tables have changed in what is about it. -/
theorem set (h : Hosts left t ds) {name : String} {d : Option Device} (hself : deviceOf t' name = d)
    (hkeys : ∀ n, n ≠ name → (n ∈ t'.interfaces.keys ↔ n ∈ t.interfaces.keys))
    (hother : ∀ n, n ≠ name → deviceOf t' n = deviceOf t n) : Hosts left t' (Function.update ds name d) := by
  constructor
  · intro n hn
    by_cases heq : n = name
    · rw [heq, Function.update_self, hself]
    · rw [Function.update_of_ne heq, h.devices n ((hkeys n heq).1 hn), hother n heq]
  · intro n hn d' hd'
    by_cases heq : n = name
    · rw [heq, Function.update_self, ← hself, deviceOf_absent (heq ▸ hn)] at hd'
      cases hd'
    · rw [Function.update_of_ne heq] at hd'
      exact h.leftover n (fun hin => hn ((hkeys n heq).2 hin)) d' hd'

theorem congr (h : Hosts left t ds) (hi : t'.interfaces = t.interfaces) (hp : t'.peers = t.peers) :
    Hosts left t' ds := by
  refine ⟨fun n hn => ?_, fun n hn => h.leftover n (hi ▸ hn)⟩
  rw [h.devices n (hi ▸ hn)]
  exact (deviceOf_congr (by rw [hi]) (by unfold peersOf; rw [hp])).symm

theorem mono (h : Hosts left t ds) (hm : ∀ name ∉ t.interfaces.keys, ∀ port, left name port → left' name port) :
    Hosts left' t ds := ⟨h.devices, fun n hn d hd => hm n hn _ (h.leftover n hn d hd)⟩

theorem eq_deviceOf (h : Hosts left t ds) (hnone : ∀ name port, ¬ left name port) : ds = deviceOf t := by
  funext n
  by_cases hn : n ∈ t.interfaces.keys
  · exact h.devices n hn
  · rw [deviceOf_absent hn]
    by_contra hne
    obtain ⟨d, hd⟩ := Option.ne_none_iff_exists'.1 hne
    exact hnone n _ (h.leftover n hn d hd)

end Hosts

/-- The gateway has the devices of the tables, and knows where their peers are. -/
structure Refines (validName : String → Bool) (τ : Terms) (left : String → Nat → Prop) (t : Tables) (g : Gateway) :
    Prop where
  faultFree : g.kernel.FaultFree
  names : g.kernel.validName = validName
  lawful : g.kernel.driver.Lawful τ
  keys : ∀ name, name ∈ g.intfs.keys ↔ name ∈ t.interfaces.keys
  hosts : Hosts left t g.kernel.devices
  index : ∀ r ∈ t.peers.rows, g.peerIndex r.publicKey = some r.interface
  sound : Sound t

/-- No device that is left over has the port of a created interface. -/
def Clear (left : String → Nat → Prop) : Call Value → Prop
  | .create (.interface i) => ∀ name port, name ≠ i.name → left name port → port ≠ port16 i.port
  | _ => True

theorem clear_noneLeft (c : Call Value) : Clear noneLeft c := by
  cases c with
  | create v => cases v with
    | interface i => exact fun _ _ _ h => h.elim
    | _ => trivial
  | _ => trivial

namespace Refines

variable {validName : String → Bool} {τ : Terms} {left left' : String → Nat → Prop} {t t' : Tables} {g : Gateway}

/-- A gateway started among devices that are left over. -/
theorem start {k : Kernel} (hf : k.FaultFree) (hv : k.validName = validName) (hl : k.driver.Lawful τ)
    (hk : ∀ name d, k.devices name = some d → left name d.listenPort) : Refines validName τ left Tables.empty (new k) :=
  ⟨hf, hv, hl, fun _ => Iff.rfl, ⟨fun _ h => (List.not_mem_nil h).elim, fun name _ => hk name⟩,
    fun _ h => (List.not_mem_nil h).elim,
    ⟨fun _ h => (List.not_mem_nil h).elim, fun _ h => (List.not_mem_nil h).elim⟩⟩

theorem setSeq (h : Refines validName τ left t g) (n : Nat) : Refines validName τ left t { g with seq := n } :=
  ⟨h.faultFree, h.names, h.lawful, h.keys, h.hosts, h.index, h.sound⟩

theorem mono (h : Refines validName τ left t g)
    (hm : ∀ name ∉ t.interfaces.keys, ∀ port, left name port → left' name port) : Refines validName τ left' t g :=
  ⟨h.faultFree, h.names, h.lawful, h.keys, h.hosts.mono hm, h.index, h.sound⟩

theorem interface_create (h : Refines validName τ left t g) {i : Interface}
    (hc : call t (.create (.interface i)) = .ok t') (hp : Plain t (.create (.interface i)))
    (ht : Hostable validName τ t') (hclear : Clear left (.create (.interface i))) :
    ∃ g', applyInterface .create i.reread g = (.ok (), g') ∧ Refines validName τ left t' g' := by
  obtain ⟨hins, hpeers⟩ := call_create_interface hc
  obtain ⟨hfresh, -⟩ := Table.insert_rows hins
  obtain ⟨hkey, hip⟩ := hp
  obtain ⟨key, hkey⟩ := Option.isSome_iff_exists.1 hkey
  have hscan := Interface.scan_row hip
  have hrow : i.row ∈ t'.interfaces.rows := (Table.mem_insert hins).2 (.inr rfl)
  have hgranted : Granted g.kernel.validName τ i.reread := h.names ▸ ht.granted i.row hrow i.reread hscan
  -- the port is free: of other interfaces, and of devices left over
  have hport : ∀ other d, other ≠ i.reread.name → g.kernel.devices other = some d →
      d.listenPort ≠ port16 i.reread.port := by
    intro other d hne hd heq
    by_cases hin : other ∈ t.interfaces.keys
    · rw [h.hosts.devices other hin] at hd
      obtain ⟨r, hr, hname, hlisten, -⟩ := deviceOf_row hd
      exact hne
        (hname.symm.trans (ht.ports r ((Table.mem_insert hins).2 (.inl hr)) i.row hrow (hlisten.symm.trans heq)))
    · exact hclear other _ hne (h.hosts.leftover other hin d hd) heq
  have hnew := newInterface_granted h.lawful h.faultFree hgranted hkey hport
  refine ⟨_, (applyInterface_create_iff h.faultFree).2 ⟨fun hm => hfresh ((h.keys _).1 hm), _, hnew, rfl⟩, ?_⟩
  have hsame : ∀ name, peersOf t' name = peersOf t name := fun name => by unfold peersOf; rw [hpeers]
  refine ⟨h.faultFree, h.names, h.lawful, keys_upsert_insert h.keys hins, h.hosts.set ?_ ?_ ?_, ?_, ?_, ?_⟩
  · have hfind : t'.interfaces.find? i.name = some i.row := (Table.find?_insert hins i.name).trans (if_pos rfl)
    have hnone : peersOf t i.name = fun _ => none := peersOf_absent hfresh
    show deviceOf t' i.name = _
    rw [deviceOf_eq hfind hscan hkey, hsame, hnone]
    rfl
  · intro name (hname : name ≠ i.name)
    rw [Table.keys_insert hins, List.mem_append, List.mem_singleton]
    exact ⟨fun hm => hm.resolve_right hname, .inl⟩
  · intro name hname
    exact deviceOf_congr ((Table.find?_insert hins name).trans (if_neg (Ne.symm hname))) (hsame name)
  · intro r hr
    rw [hpeers] at hr
    exact h.index r hr
  · intro r hr
    rcases (Table.mem_insert hins).1 hr with hr | rfl
    · exact h.sound.interfaces r hr
    · exact ⟨i.reread, key, hscan, hkey⟩
  · rw [hpeers]
    exact h.sound.peers

theorem interface_delete (h : Refines validName τ left t g) {i : Interface}
    (hc : call t (.delete (.interface i)) = .ok t') (hp : Plain t (.delete (.interface i))) :
    ∃ g', applyInterface .delete i.reread g = (.ok (), g') ∧ Refines validName τ left t' g' := by
  obtain ⟨hti, htp⟩ := call_delete_interface hc
  refine ⟨_, (applyInterface_delete_ok_iff h.faultFree).2 ⟨(h.keys _).2 hp, rfl⟩, ?_⟩
  refine ⟨h.faultFree, h.names, h.lawful, hti ▸ keys_erase_erase h.keys i.name, h.hosts.set ?_ ?_ ?_, ?_, ?_, ?_⟩
  · refine deviceOf_absent ?_
    rw [hti]
    exact fun hm => (Table.mem_keys_erase.1 hm).2 rfl
  · intro name (hname : name ≠ i.name)
    rw [hti, Table.mem_keys_erase]
    exact ⟨fun hm => hm.1, fun hm => ⟨hm, hname⟩⟩
  · intro name (hname : name ≠ i.name)
    refine deviceOf_congr ?_ (peersOf_filter htp hname)
    rw [hti, Table.find?_erase, if_neg (Ne.symm hname)]
  · intro r hr
    rw [htp] at hr
    exact h.index r (Table.mem_filter.1 hr).1
  · intro r hr
    rw [hti] at hr
    exact h.sound.interfaces r (Table.mem_erase.1 hr).1
  · intro r hr
    rw [htp] at hr
    exact h.sound.peers r (Table.mem_filter.1 hr).1

/-- The rows of the peers have changed, and so has the device of one interface. -/
theorem withPeers (h : Refines validName τ left t g) (hti : t'.interfaces = t.interfaces) {name : String} {d : Device}
    {peers : Key → Option WgPeer} (hd : deviceOf t name = some d) (hpeers : peers = peersOf t' name)
    (hother : ∀ n, n ≠ name → peersOf t' n = peersOf t n) (hsound : Sound t') {g' : Gateway}
    (hg' : g' = g.withDevice name { d with peers := peers })
    (hindex : ∀ r ∈ t'.peers.rows, g.peerIndex r.publicKey = some r.interface) : Refines validName τ left t' g' := by
  subst hg'
  refine ⟨h.faultFree, h.names, h.lawful, fun n => hti ▸ h.keys n, h.hosts.set ?_ ?_ ?_, hindex, hsound⟩
  · rw [deviceOf_withPeers hti hd, hpeers]
  · exact fun n _ => by rw [hti]
  · intro n hn
    exact deviceOf_congr (by rw [hti]) (hother n hn)

theorem withIndex (h : Refines validName τ left t g) {key name : String}
    (hsame : ∀ r ∈ t.peers.rows, r.publicKey = key → r.interface = name) :
    Refines validName τ left t (g.withIndex key name) := by
  refine ⟨h.faultFree, h.names, h.lawful, h.keys, h.hosts, ?_, h.sound⟩
  intro r hr
  show Function.update g.peerIndex key (some name) r.publicKey = _
  by_cases hk : r.publicKey = key
  · rw [hk, Function.update_self, hsame r hr hk]
  · rw [Function.update_of_ne hk]
    exact h.index r hr

/-- The kernel sets a peer of the next tables on the device of its interface. -/
theorem makes (h : Refines validName τ left t g) (ht : Hostable validName τ t') (hti : t'.interfaces = t.interfaces)
    {p : Peer} {key : Key} (hrow : p.row ∈ t'.peers.rows) (hne : NoneEmpty p.ip p.ip6) (hu : Usable p.reread key)
    (hstr : key.string = p.publicKey) {d : Device} (hd : deviceOf t p.interface = some d)
    (hfind : ∀ s, t'.peers.find? s = if key.string = s then some p.row else t.peers.find? s) (update : Bool) :
    g.kernel.Makes p.interface (.configure (peerAttrs (setConfig p.reread key update)))
      { d with peers := setPeer p.reread key update d.peers } := by
  obtain ⟨i, hi, hname, -, hpriv⟩ := deviceOf_row hd
  have hmem : p.interface ∈ t.interfaces.keys := hname ▸ Table.key_mem_keys hi
  have hfits : Fits τ d.privateKey d.peers (setConfig p.reread key update) := by
    refine ht.fits hrow (Peer.scan_row hne) hu hstr ⟨i, hti ▸ hi, hname, hpriv⟩ (fun key' w hk hw => ?_) update
    rw [deviceOf_peers hd] at hw
    show peersOf t' p.interface key' = some w
    rw [peersOf_update hfind, Function.update_of_ne hk, hw]
  refine ⟨d, (h.hosts.devices _ hmem).trans hd, ?_⟩
  rw [h.lawful.peer _ _ hfits, setConfig_apply]

end Refines

/-- What the index knows, if the tables have one more row of a peer or one in place of that with its key. -/
theorem Refines.indexed_with {validName : String → Bool} {τ : Terms} {left : String → Nat → Prop} {t t' : Tables}
    {g : Gateway} (h : Refines validName τ left t g) {p : Peer}
    (hrows : ∀ r ∈ t'.peers.rows, r = p.row ∨ r ∈ t.peers.rows ∧ r.publicKey ≠ p.publicKey) :
    ∀ r ∈ t'.peers.rows, (g.withIndex p.publicKey p.interface).peerIndex r.publicKey = some r.interface := by
  intro r hr
  show Function.update g.peerIndex p.publicKey (some p.interface) r.publicKey = _
  rcases hrows r hr with rfl | ⟨hr, hk⟩
  · exact Function.update_self _ _ _
  · rw [Function.update_of_ne hk]
    exact h.index r hr

namespace Sound

variable {t : Tables}

theorem with_peer (h : Sound t) {t' : Tables} (hti : t'.interfaces = t.interfaces) {p : Peer} {key : Key}
    (hu : Usable p.reread key) (hne : NoneEmpty p.ip p.ip6) (hstr : key.string = p.publicKey)
    (hrows : ∀ r ∈ t'.peers.rows, r = p.row ∨ r ∈ t.peers.rows ∧ r.publicKey ≠ p.publicKey) : Sound t' := by
  constructor
  · rw [hti]
    exact h.interfaces
  · intro r hr
    rcases hrows r hr with rfl | ⟨hr, -⟩
    · exact ⟨p.reread, key, Peer.scan_row hne, hu, hstr⟩
    · exact h.peers r hr

/-- The row of a peer, with the object and the key it stands for. -/
theorem peer_row (h : Sound t) {r : PeerRow} (hr : r ∈ t.peers.rows) :
    ∃ p key, r.scan = .ok p ∧ Usable p key ∧ key.string = r.publicKey ∧ parseKey r.publicKey = some key := by
  obtain ⟨p, key, hs, hu, hk⟩ := h.peers r hr
  exact ⟨p, key, hs, hu, hk, by rw [← hk]; exact parseKey_string key⟩

/-- A peer is on the device of its interface and on no other. -/
theorem peersOf_row (h : Sound t) {r : PeerRow} (hr : r ∈ t.peers.rows) {key : Key}
    (hk : key.string = r.publicKey) (name : String) : (peersOf t name key).isSome = true ↔ r.interface = name := by
  obtain ⟨p, _, hs, -⟩ := h.peers r hr
  unfold peersOf
  rw [hk, Table.find?_eq_some.2 ⟨hr, rfl⟩, Option.bind_some, hs]
  by_cases hn : r.interface = name
  · rw [if_pos hn]; exact ⟨fun _ => hn, fun _ => rfl⟩
  · rw [if_neg hn]; exact ⟨fun h => (by cases h), fun h => absurd h hn⟩

end Sound

namespace Refines

variable {validName : String → Bool} {τ : Terms} {left : String → Nat → Prop} {t t' : Tables} {g : Gateway}

theorem usable_of_plain {p : Peer} {key : Key} (hkey : parseKey p.publicKey = some key)
    (haddr : p.ip ≠ none ∨ p.ip6 ≠ none) (hne : NoneEmpty p.ip p.ip6) : Usable p.reread key := by
  obtain ⟨key', hu⟩ := (usable_reread_iff p).2 ⟨Option.isSome_iff_exists.2 ⟨key, hkey⟩, haddr, hne⟩
  obtain rfl := hu.key_eq hkey
  exact hu

theorem peer_create (h : Refines validName τ left t g) {p : Peer} (hc : call t (.create (.peer p)) = .ok t')
    (hp : Plain t (.create (.peer p))) (ht : Hostable validName τ t') :
    ∃ g', applyPeer .create p.reread g = (.ok (), g') ∧ Refines validName τ left t' g' := by
  obtain ⟨hmem, hins, hti⟩ := call_create_peer hc
  have hfresh : p.publicKey ∉ t.peers.keys := (Table.insert_rows hins).1
  have hnew : ∀ r ∈ t.peers.rows, r.publicKey ≠ p.publicKey := fun r hr hk => hfresh (hk ▸ Table.key_mem_keys hr)
  obtain ⟨⟨key, hparse, hstr⟩, haddr, hne⟩ := hp
  have hu := usable_of_plain hparse haddr hne
  have hpeers : ∀ r ∈ t'.peers.rows, r = p.row ∨ r ∈ t.peers.rows ∧ r.publicKey ≠ p.publicKey := by
    intro r hr
    rcases (Table.mem_insert hins).1 hr with hr | rfl
    · exact .inr ⟨hr, hnew r hr⟩
    · exact .inl rfl
  obtain ⟨d, hd⟩ := h.sound.device hmem
  have hfind : ∀ s, t'.peers.find? s = if key.string = s then some p.row else t.peers.find? s := by
    intro s
    rw [Table.find?_insert hins, hstr, Peer.row_publicKey]
  have hmakes := h.makes ht hti ((Table.mem_insert hins).2 (.inr rfl)) hne hu hstr hd hfind false
  refine ⟨_, (applyPeer_create_iff h.faultFree).2 ⟨(h.keys _).2 hmem, key, _, hu, hmakes, rfl⟩, ?_⟩
  refine (h.withIndex fun r hr hk => ?_).withPeers hti hd ?_ ?_ ?_ rfl ?_
  · exact absurd hk (hnew r hr)
  · refine Eq.trans ?_ (peersOf_set hne hfind).symm
    rw [deviceOf_peers hd]
    rfl
  · intro n hn
    refine peersOf_set_other hfind hn ?_
    unfold peersOf
    rw [hstr, Table.find?_eq_none.2 hfresh]
    rfl
  · exact h.sound.with_peer hti hu hne hstr hpeers
  · have hindex := h.indexed_with hpeers
    exact hindex

/-- A peer of the tables is looked up on its interface. -/
theorem indexed_row (h : Refines validName τ left t g) {r : PeerRow} (hr : r ∈ t.peers.rows) :
    g.indexed r.publicKey = r.interface := by
  unfold indexed
  rw [h.index r hr]
  rfl

theorem peer_update (h : Refines validName τ left t g) {p : Peer} (hc : call t (.update (.peer p)) = .ok t')
    (hp : Plain t (.update (.peer p))) (ht : Hostable validName τ t') :
    ∃ g', applyPeer .update p.reread g = (.ok (), g') ∧ Refines validName τ left t' g' := by
  obtain ⟨hti, htp⟩ := call_update_peer hc
  obtain ⟨⟨r, hr, hpk, hpi⟩, haddr, hne⟩ := hp
  obtain ⟨p₀, key, hs₀, -, hstr, hparse⟩ := h.sound.peer_row hr
  rw [hpk] at hstr hparse
  have hu := usable_of_plain hparse haddr hne
  have hmem : p.interface ∈ t.interfaces.keys := hpi ▸ t.foreignKey r hr
  have hpeers : ∀ r ∈ t'.peers.rows, r = p.row ∨ r ∈ t.peers.rows ∧ r.publicKey ≠ p.publicKey := by
    intro r hr
    rw [htp] at hr
    rcases Table.mem_replace.1 hr with ⟨rfl, -⟩ | ⟨hr, hk⟩
    · exact .inl rfl
    · exact .inr ⟨hr, hk⟩
  obtain ⟨d, hd⟩ := h.sound.device hmem
  -- the row names the interface it is on, and so does the index: nothing is removed first
  have hstay : ¬ g.Moves p.reread := by
    rintro ⟨-, hne⟩
    have hix := h.indexed_row hr
    rw [hpk, hpi] at hix
    exact hne hix
  have hfind : ∀ s, t'.peers.find? s = if key.string = s then some p.row else t.peers.find? s := by
    intro s
    rw [htp, Table.find?_replace, hstr, Peer.row_publicKey]
    by_cases hks : p.publicKey = s
    · subst hks
      rw [if_pos rfl, if_pos rfl, Table.find?_eq_some.2 ⟨hr, hpk⟩]
      rfl
    · rw [if_neg hks, if_neg hks]
  -- the kernel changes only a peer it has
  have hthere : d.peers key ≠ none := by
    rw [deviceOf_peers hd]
    exact Option.isSome_iff_ne_none.1 ((h.sound.peersOf_row hr (hstr.trans hpk.symm) p.interface).2 hpi)
  have hrow : p.row ∈ t'.peers.rows := by
    rw [htp]
    refine Table.mem_replace.2 (.inl ⟨rfl, ?_⟩)
    rw [Peer.row_publicKey, ← hpk]
    exact Table.key_mem_keys hr
  have hsame : g.deconfigured p.reread key = g := if_neg hstay
  have hmakes := h.makes ht hti hrow hne hu hstr hd hfind true
  refine ⟨_, (applyPeer_update_iff h.faultFree).2 ⟨(h.keys _).2 hmem, fun hm => absurd hm hstay, key, _, hu,
    by rw [hsame]; exact hmakes, rfl⟩, ?_⟩
  rw [hsame]
  refine (h.withIndex fun r' hr' hk => ?_).withPeers hti hd ?_ ?_ ?_ rfl ?_
  · rw [Table.row_unique hr' hr (hk.trans hpk.symm)]; exact hpi
  · refine Eq.trans ?_ (peersOf_set hne hfind).symm
    rw [← deviceOf_peers hd]
    exact if_neg fun hnone => hthere hnone.2
  · intro n hn
    refine peersOf_set_other hfind hn (Option.not_isSome_iff_eq_none.1 fun hsome => hn ?_)
    exact ((h.sound.peersOf_row hr (hstr.trans hpk.symm) n).1 hsome).symm.trans hpi
  · exact h.sound.with_peer hti hu hne hstr hpeers
  · have hindex := h.indexed_with hpeers
    exact hindex

theorem peer_delete (h : Refines validName τ left t g) {p : Peer} (hc : call t (.delete (.peer p)) = .ok t')
    (hp : Plain t (.delete (.peer p))) :
    ∃ g', applyPeer .delete p.reread g = (.ok (), g') ∧ Refines validName τ left t' g' := by
  obtain ⟨hti, htp⟩ := call_delete_peer hc
  obtain ⟨r, hr, hpk⟩ := Table.mem_keys.1 hp
  obtain ⟨p₀, key, -, -, hstr, hparse⟩ := h.sound.peer_row hr
  have hmem := t.foreignKey r hr
  obtain ⟨d, hd⟩ := h.sound.device hmem
  have hix : g.indexed p.reread.publicKey = r.interface := hpk ▸ h.indexed_row hr
  have hfind : ∀ s, t'.peers.find? s = if key.string = s then none else t.peers.find? s := by
    intro s
    rw [htp, Table.find?_erase, hstr, hpk]
  have hfits : Fits τ d.privateKey d.peers (removeConfig key) :=
    ⟨.inl rfl, fun hr => (by cases hr), fun _ hn => (List.not_mem_nil hn).elim, List.nodup_nil,
      fun _ _ _ _ _ hn => (List.not_mem_nil hn).elim⟩
  have hmakes : g.kernel.Makes (g.indexed p.reread.publicKey) (.configure (peerAttrs (removeConfig key))) _ :=
    ⟨d, by rw [hix]; exact (h.hosts.devices _ hmem).trans hd, h.lawful.peer _ _ hfits⟩
  refine ⟨_, (applyPeer_delete_ok_iff h.faultFree).2 ⟨by rw [hix]; exact (h.keys _).2 hmem, key, _, hpk ▸ hparse,
    hmakes, rfl⟩, ?_⟩
  rw [hix]
  refine h.withPeers hti hd ?_ ?_ ?_ rfl ?_
  · rw [peersOf_update hfind, deviceOf_peers hd]
    rfl
  · intro n hn
    have hnone : peersOf t n key = none := by
      refine Option.not_isSome_iff_eq_none.1 fun hsome => hn ?_
      exact ((h.sound.peersOf_row hr hstr n).1 hsome).symm
    rw [peersOf_update hfind, Option.bind_none, ← hnone, Function.update_eq_self]
  · constructor
    · rw [hti]; exact h.sound.interfaces
    · intro r' hr'
      rw [htp] at hr'
      exact h.sound.peers r' (Table.mem_erase.1 hr').1
  · intro r' hr'
    rw [htp] at hr'
    exact h.index r' (Table.mem_erase.1 hr').1

theorem token (h : Refines validName τ left t g) {c : Call Value} {k : Token} (hk : c.value = .token k)
    (hc : call t c = .ok t') : Refines validName τ left t' g := by
  obtain ⟨hti, htp⟩ := call_token hk hc
  refine ⟨h.faultFree, h.names, h.lawful, fun n => hti ▸ h.keys n, h.hosts.congr hti htp, ?_, ?_, ?_⟩
  · rw [htp]; exact h.index
  · rw [hti]; exact h.sound.interfaces
  · rw [htp]; exact h.sound.peers

/-- One call of a plain log. -/
theorem step (h : Refines validName τ left t g) {c : Call Value} (hc : call t c = .ok t') (hp : Plain t c)
    (ht : Hostable validName τ t') (hclear : Clear left c) (n : Nat) :
    ∃ g', dispatch (logged n c) g = (.ok (), g') ∧ Refines validName τ left t' g' := by
  cases c with
  | create v =>
    cases v with
    | interface i => exact h.interface_create hc hp ht hclear
    | peer p => exact h.peer_create hc hp ht
    | token k => exact ⟨g, rfl, h.token rfl hc⟩
    | other => exact (call_other rfl hc).elim
  | update v =>
    cases v with
    | interface i => exact hp.elim
    | peer p => exact h.peer_update hc hp ht
    | token k => exact ⟨g, rfl, h.token rfl hc⟩
    | other => exact (call_other rfl hc).elim
  | delete v =>
    cases v with
    | interface i => exact h.interface_delete hc hp
    | peer p => exact h.peer_delete hc hp
    | token k => exact ⟨g, rfl, h.token rfl hc⟩
    | other => exact (call_other rfl hc).elim

/-- A plain log, on a host where nothing is left over. -/
theorem run : ∀ (cs : List (Call Value)) {t t' : Tables} {g : Gateway}, Refines validName τ noneLeft t g →
    calls t cs = .ok t' → AllPlain t cs → AllHostable validName τ t cs →
    ∃ g', Proc.forEach (fun op => apply op true) (loggedFrom g.seq cs) g = (.ok (), g') ∧
      Refines validName τ noneLeft t' g' ∧ g'.seq = g.seq + cs.length
  | [], t, t', g, h, hc, _, _ => by cases hc; exact ⟨g, rfl, h, rfl⟩
  | c :: cs, t, t', g, h, hc, hp, ht => by
    rw [calls] at hc
    cases hc₁ : call t c with
    | error e => rw [hc₁] at hc; cases hc
    | ok t₁ =>
      rw [hc₁] at hc
      obtain ⟨ht₁, hts⟩ := ht t₁ hc₁
      obtain ⟨g₁, hd, h₁⟩ := h.step hc₁ hp.1 ht₁ (clear_noneLeft c) (g.seq + 1)
      obtain ⟨g', ho, h', hseq⟩ := run cs (h₁.setSeq (g.seq + 1)) hc (hp.2 t₁ hc₁) hts
      refine ⟨g', ?_, h', ?_⟩
      · rw [loggedFrom, Proc.forEach_cons, Proc.bind_of_ok (apply_ok_iff.2 ⟨g₁, hd, rfl⟩)]
        exact ho
      · rw [hseq, List.length_cons]
        show g.seq + 1 + cs.length = _
        omega

end Refines

end Wig.Gateway
