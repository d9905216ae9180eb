/-
What is assumed of the kernel's driver, as hypotheses. `wgtypes` documents what the fields of a
configuration mean. The kernel does just that for a configuration that gives it no occasion to do
otherwise: it keeps a network for one peer of a device only and drops the host bits of its address, it
gives a port to one device only, and it knows a peer from the device itself by the public key.
-/
import Wig.Gateway.Kernel
import Wig.Net.Subnet

namespace Wig.Gateway

open Wig.Lib Wig.Net

/-! ## What a configuration means -/

namespace PeerConfig

def set (c : PeerConfig) (p : WgPeer) : WgPeer :=
  { allowedIPs := if c.replaceAllowedIPs then c.allowedIPs else p.allowedIPs ++ c.allowedIPs
    presharedKey := c.presharedKey.getD p.presharedKey
    keepalive := c.persistentKeepaliveInterval.getD p.keepalive }

def apply (c : PeerConfig) (peers : Key → Option WgPeer) : Key → Option WgPeer :=
  if c.remove then Function.update peers c.publicKey none
  else match peers c.publicKey with
    | some p => Function.update peers c.publicKey (some (c.set p))
    | none =>
      if c.updateOnly then peers else Function.update peers c.publicKey (some (c.set ⟨[], Key.zero, 0⟩))

end PeerConfig

namespace Device

def configure (d : Device) (a : DeviceAttrs) : Device :=
  { d with
    privateKey := a.privateKey.or d.privateKey
    listenPort := a.listenPort.getD d.listenPort
    fwmark := a.firewallMark.getD d.fwmark
    peers := a.peers.foldl (fun ps c => c.apply ps) (if a.replacePeers then fun _ => none else d.peers) }

end Device

/-- The attributes of one peer. -/
def peerAttrs (c : PeerConfig) : DeviceAttrs := ⟨none, none, none, false, [c]⟩

/-! ## Drivers that take everything -/

namespace Driver

/-- Nothing that is asked of a device that is there is refused. -/
def Obliging (drv : Driver) : Prop := ∀ ds name d a, ds name = some d → ∃ d', drv ds name d a = some d'

/-- The meaning of the flags: `Remove` deletes the peer, `UpdateOnly` acts only on a peer that is there, and
`ReplaceAllowedIPs` leaves the peer the networks of the configuration. -/
structure HonoursFlags (drv : Driver) : Prop where
  removed : ∀ ds name d c d', drv ds name d (.configure (peerAttrs c)) = some d' → c.remove = true →
    d'.peers c.publicKey = none
  ignored : ∀ ds name d c d', drv ds name d (.configure (peerAttrs c)) = some d' → c.remove = false →
    c.updateOnly = true → d.peers c.publicKey = none → d'.peers c.publicKey = none
  replaced : ∀ ds name d c d', drv ds name d (.configure (peerAttrs c)) = some d' → c.remove = false →
    c.replaceAllowedIPs = true → d.peers c.publicKey ≠ none →
    ∃ w, d'.peers c.publicKey = some w ∧ w.allowedIPs = c.allowedIPs

end Driver

/-! ## Drivers that do as documented within limits -/

/-- What a host leaves to the gateway: the addresses a link may have, the ports that nothing else uses, the
private keys that are kept as they are, and the public key that belongs to each. -/
structure Terms where
  validAddr : IPNet → Bool
  freePort : Nat → Bool
  keptKey : Key → Bool
  publicKey : Key → Key

/-- A network without host bits, whose mask is as long as its address is written. -/
def BaseNet (n : IPNet) : Prop :=
  n.mask.length = (if n.ip.to4.isSome then 4 else 16) ∧ (n.ip.mask n.mask).equal n.ip = true

instance : DecidablePred BaseNet := fun n =>
  inferInstanceAs (Decidable (n.mask.length = (if n.ip.to4.isSome then 4 else 16) ∧
    (n.ip.mask n.mask).equal n.ip = true))

/-- A peer's configuration that does not touch other peers: it is not for the device itself, its networks
have no host bits, and no two of them, or of another peer, are the same. -/
structure Fits (τ : Terms) (own : Option Key) (peers : Key → Option WgPeer) (c : PeerConfig) : Prop where
  whole : c.remove = true ∨ c.replaceAllowedIPs = true
  foreign : c.remove = false → ∀ key, own = some key → c.publicKey ≠ τ.publicKey key
  nets : ∀ n ∈ c.allowedIPs, n.WellFormed ∧ BaseNet n
  distinct : (c.allowedIPs.map IPNet.chars).Nodup
  unshared : ∀ key w, key ≠ c.publicKey → peers key = some w → ∀ n ∈ c.allowedIPs, ∀ m ∈ w.allowedIPs,
    m.chars ≠ n.chars

/-- One configuration after the other fits. -/
def AllFit (τ : Terms) (own : Option Key) : (Key → Option WgPeer) → List PeerConfig → Prop
  | _, [] => True
  | peers, c :: cs => Fits τ own peers c ∧ AllFit τ own (c.apply peers) cs

/-- Attributes that the kernel takes as they are documented: a new key is one that is kept, for a device
without peers; a new port is free, also of other devices; and the peers fit. -/
structure Clean (τ : Terms) (ds : String → Option Device) (name : String) (d : Device) (a : DeviceAttrs) : Prop where
  key : ∀ key, a.privateKey = some key → τ.keptKey key = true ∧ ∀ k, d.peers k = none
  port : ∀ p, a.listenPort = some p → τ.freePort p = true ∧
    ∀ other d', other ≠ name → ds other = some d' → d'.up = true → d'.listenPort ≠ p
  peers : AllFit τ (a.privateKey.or d.privateKey) (if a.replacePeers then fun _ => none else d.peers) a.peers

/-- The driver of such a host. A link that comes up before it has a port gets one of the kernel's choice. -/
structure Driver.Lawful (τ : Terms) (drv : Driver) : Prop where
  addrAdd : ∀ ds name d a, d.up = false → τ.validAddr a = true → (∀ b ∈ d.addrs, b.chars ≠ a.chars) →
    drv ds name d (.addrAdd a) = some { d with addrs := d.addrs ++ [a] }
  setUp : ∀ ds name d, d.up = false → d.listenPort = 0 →
    ∃ port, drv ds name d .setUp = some { d with up := true, listenPort := port }
  configure : ∀ ds name d a, Clean τ ds name d a → drv ds name d (.configure a) = some (d.configure a)

theorem Driver.Lawful.peer {τ : Terms} {drv : Driver} (h : drv.Lawful τ) (ds : String → Option Device) (name : String)
    {d : Device} {c : PeerConfig} (hc : Fits τ d.privateKey d.peers c) :
    drv ds name d (.configure (peerAttrs c)) = some { d with peers := c.apply d.peers } :=
  h.configure ds name d (peerAttrs c) ⟨fun _ hkey => (by cases hkey), fun _ hport => (by cases hport), hc, trivial⟩

/-! ## Two drivers -/

namespace Driver

/-- Everything as it is documented. -/
def documented : Driver
  | _, _, d, .addrAdd a => some { d with addrs := d.addrs ++ [a] }
  | _, _, d, .setUp => some { d with up := true }
  | _, _, d, .configure a => some (d.configure a)

theorem documented_obliging : documented.Obliging := by
  intro ds name d a _
  cases a with
  | addrAdd addr => exact ⟨_, rfl⟩
  | setUp => exact ⟨_, rfl⟩
  | configure attrs => exact ⟨_, rfl⟩

theorem documented_honoursFlags : documented.HonoursFlags where
  removed ds name d c d' h hr := by
    cases h
    show c.apply d.peers c.publicKey = none
    simp [PeerConfig.apply, hr]
  ignored ds name d c d' h hr hu hnone := by
    cases h
    show c.apply d.peers c.publicKey = none
    simp [PeerConfig.apply, hr, hu, hnone]
  replaced ds name d c d' h hr hips hsome := by
    obtain ⟨w, hw⟩ := Option.ne_none_iff_exists'.1 hsome
    cases h
    refine ⟨c.set w, ?_, by simp [PeerConfig.set, hips]⟩
    show c.apply d.peers c.publicKey = _
    simp [PeerConfig.apply, hr, hw]

/-- The peers of a device with a network left to the peer that a configuration is for. -/
def yielding (c : PeerConfig) (peers : Key → Option WgPeer) : Key → Option WgPeer := fun key =>
  if key = c.publicKey then peers key
  else (peers key).map fun w =>
    { w with allowedIPs := w.allowedIPs.filter fun m => c.allowedIPs.all fun n => m.chars ≠ n.chars }

/-- A network goes to the last peer it was given to. -/
def applyExclusively (c : PeerConfig) (peers : Key → Option WgPeer) : Key → Option WgPeer :=
  if c.updateOnly = true ∧ peers c.publicKey = none then c.apply peers else c.apply (yielding c peers)

def configureExclusively (d : Device) (a : DeviceAttrs) : Device :=
  { d.configure a with
    peers := a.peers.foldl (fun ps c => applyExclusively c ps) (if a.replacePeers then fun _ => none else d.peers) }

def exclusive : Driver
  | _, _, d, .addrAdd a => some { d with addrs := d.addrs ++ [a] }
  | _, _, d, .setUp => some { d with up := true }
  | _, _, d, .configure a => some (configureExclusively d a)

section Exclusive

variable {τ : Terms} {own : Option Key}

theorem applyExclusively_eq {peers : Key → Option WgPeer} {c : PeerConfig} (h : Fits τ own peers c) :
    applyExclusively c peers = c.apply peers := by
  have hsame : yielding c peers = peers := by
    funext key
    unfold yielding
    split
    · rfl
    · rename_i hkey
      cases hw : peers key with
      | none => rfl
      | some w =>
        have hkeep : (w.allowedIPs.filter fun m => c.allowedIPs.all fun n => m.chars ≠ n.chars) = w.allowedIPs := by
          refine List.filter_eq_self.2 fun m hm => List.all_eq_true.2 fun n hn => ?_
          exact decide_eq_true (h.unshared key w hkey hw n hn m hm)
        rw [Option.map_some, hkeep]
  unfold applyExclusively
  rw [hsame, ite_self]

theorem foldl_applyExclusively : ∀ {cs : List PeerConfig} {peers : Key → Option WgPeer}, AllFit τ own peers cs →
    cs.foldl (fun ps c => applyExclusively c ps) peers = cs.foldl (fun ps c => c.apply ps) peers
  | [], _, _ => rfl
  | c :: cs, peers, h => by
    rw [List.foldl_cons, List.foldl_cons, applyExclusively_eq h.1]
    exact foldl_applyExclusively h.2

/-- Within the limits nothing is taken from another peer. -/
theorem exclusive_lawful (τ : Terms) : exclusive.Lawful τ := by
  refine ⟨fun _ _ _ _ _ _ _ => rfl, fun _ _ d _ _ => ⟨d.listenPort, rfl⟩, fun ds name d a h => ?_⟩
  show some (configureExclusively d a) = _
  unfold configureExclusively
  rw [foldl_applyExclusively h.peers]
  rfl

end Exclusive

end Driver

end Wig.Gateway
