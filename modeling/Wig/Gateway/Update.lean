/-
The two updates that change more than one thing: an interface that is taken down and set up again,
and a peer that goes to another interface.
-/
import Wig.Gateway.Effects

namespace Wig.Gateway

open Wig.Lib Wig.Net Wig.Model Wig.Crudlog Kernel

/-! ## Updating an interface -/

/-- An interface updated as it should be: its device has the new settings and the peers it had, and
the other devices are as before. -/
structure InterfaceUpdated (i : Interface) (g : Gateway) (r : Outcome Error Unit × Gateway) : Prop where
  succeeded : r.1 = .ok ()
  device : ∃ key d, parseKey i.privateKey = some key ∧ r.2.kernel.devices i.name = some d ∧
    d.privateKey = some key ∧ d.listenPort = (newDevice i key).listenPort ∧ d.fwmark = (newDevice i key).fwmark ∧
    d.addrs = networks i.ip i.ip6 ∧ ∀ k, d.peers k = (g.kernel.devices i.name).bind fun d => d.peers k
  others : ∀ name, name ≠ i.name → r.2.kernel.devices name = g.kernel.devices name

/-- No update of a known interface does this. The link is deleted, the settings are then written to
a device that is not there, and the interface is left without one. -/
theorem update_interface_fails {g : Gateway} (hf : g.kernel.FaultFree) {i : Interface} {key : Key}
    (hi : i.name ∈ g.intfs.keys) (hkey : parseKey i.privateKey = some key) (seq : Nat) (ts : Time) (fromLog : Bool) :
    ¬ InterfaceUpdated i g (apply ⟨seq, .update, ts, .interface i⟩ fromLog g) ∧
      (apply ⟨seq, .update, ts, .interface i⟩ fromLog g).1 = .err .notExist ∧
      (apply ⟨seq, .update, ts, .interface i⟩ fromLog g).2.kernel.devices i.name = none ∧
      ∀ name, name ≠ i.name →
        (apply ⟨seq, .update, ts, .interface i⟩ fromLog g).2.kernel.devices name = g.kernel.devices name := by
  have hop : dispatch ⟨seq, .update, ts, .interface i⟩ g =
      (.err .notExist, { g with intfs := g.intfs.replace i, kernel := g.kernel.setDevice i.name none }) := by
    refine (applyInterface_update_eq hf hi).trans ?_
    rw [hkey]
    rfl
  rw [apply_eq, Proc.bind_of_err hop]
  refine ⟨?_, rfl, setDevice_self g.kernel i.name none, fun name hne => setDevice_of_ne g.kernel hne none⟩
  intro h
  cases h.succeeded

/-- The sample interface with another port. -/
def updatedInterface : Interface := { sampleInterface "wg0" with port := 51821 }

/-- An interface with a peer, before its port is changed. -/
def updateRun : List Event :=
  [sampleOp .create (.interface (sampleInterface "wg0")), sampleOp .create (.peer (samplePeer "wg0"))]

theorem update_interface_fails_updateRun : ∃ g, system.run (new sampleHost) updateRun = some g ∧
    (apply ⟨3, .update, Time.zero, .interface updatedInterface⟩ true g).1 = .err .notExist := by
  have hrun : (system.run (new sampleHost) updateRun).map
      (fun g => (g.intfs.keys, g.kernel.faults)) = some (["wg0"], []) := by
    decide +kernel
  obtain ⟨g, hg, hstate⟩ := Option.map_eq_some_iff.1 hrun
  obtain ⟨key, hkey⟩ : ∃ key, parseKey updatedInterface.privateKey = some key :=
    Option.isSome_iff_exists.1 (parseKey_sampleInterface "wg0")
  rw [Prod.mk.injEq] at hstate
  refine ⟨g, hg, (update_interface_fails hstate.2 ?_ hkey 3 Time.zero true).2.1⟩
  rw [hstate.1]
  exact List.mem_singleton_self "wg0"

/-- The update of the port loses the device and its peer. -/
theorem update_interface_loses_device : ∃ g, system.run (new sampleHost) updateRun = some g ∧
    (∃ d key, g.kernel.devices "wg0" = some d ∧ (d.peers key).isSome = true) ∧
    (apply ⟨3, .update, Time.zero, .interface updatedInterface⟩ true g).1 = .err .notExist ∧
    (apply ⟨3, .update, Time.zero, .interface updatedInterface⟩ true g).2.kernel.devices
      "wg0" = none := by
  have hrun : (system.run (new sampleHost) updateRun).map (fun g =>
      ((g.kernel.devices "wg0").any fun d => (parseKey (samplePeer "wg0").publicKey).any fun k => (d.peers k).isSome,
        (apply ⟨3, .update, Time.zero, .interface updatedInterface⟩ true g).1,
        ((apply ⟨3, .update, Time.zero, .interface updatedInterface⟩ true g).2.kernel.devices
          "wg0").isNone)) = some (true, .err .notExist, true) := by
    decide +kernel
  obtain ⟨g, hg, hstate⟩ := Option.map_eq_some_iff.1 hrun
  rw [Prod.mk.injEq, Prod.mk.injEq] at hstate
  obtain ⟨hdev, herr, hnone⟩ := hstate
  obtain ⟨d, hd, hpeer⟩ := (Option.any_eq_true _ _).1 hdev
  obtain ⟨key, -, hpeer⟩ := (Option.any_eq_true _ _).1 hpeer
  exact ⟨g, hg, ⟨d, key, hd, hpeer⟩, herr, Option.isNone_iff_eq_none.1 hnone⟩

/-! ## Moving a peer -/

/-- A device has a peer. -/
def Configured (g : Gateway) (name : String) (key : Key) : Prop :=
  ∃ d, g.kernel.devices name = some d ∧ (d.peers key).isSome = true

/-- A peer moved as it should be: it is on the device of its interface, with its addresses, and on
no other one, and the index says so. -/
structure PeerMoved (p : Peer) (key : Key) (g : Gateway) : Prop where
  there : ∃ d w, g.kernel.devices p.interface = some d ∧ d.peers key = some w ∧ w.allowedIPs = networks p.ip p.ip6
  nowhere_else : ∀ name, name ≠ p.interface → ¬ g.Configured name key
  indexed : g.peerIndex p.publicKey = some p.interface

section Flags

variable {g g' : Gateway} {p : Peer}

theorem withoutPeer_configured (hob : g.kernel.driver.Obliging) (hfl : g.kernel.driver.HonoursFlags) (old name : String)
    (key : Key) : (g.withoutPeer old key).Configured name key ↔ g.Configured name key ∧ name ≠ old := by
  cases hd : g.kernel.devices old with
  | none =>
    have hsame : g.withoutPeer old key = g := by unfold withoutPeer; rw [hd]
    rw [hsame]
    refine ⟨fun h => ⟨h, ?_⟩, fun h => h.1⟩
    rintro rfl
    obtain ⟨d, hd', -⟩ := h
    rw [hd] at hd'
    cases hd'
  | some d =>
    obtain ⟨d', hd'⟩ := hob g.kernel.devices old d (.configure (peerAttrs (removeConfig key))) hd
    rw [withoutPeer_makes ⟨d, hd, hd'⟩]
    by_cases hn : name = old
    · subst hn
      refine ⟨?_, fun h => absurd rfl h.2⟩
      rintro ⟨d₁, hd₁, hp⟩
      change (g.kernel.setDevice name _).devices name = _ at hd₁
      rw [setDevice_self] at hd₁
      cases hd₁
      rw [show d'.peers key = none from hfl.removed _ _ _ _ _ hd' rfl] at hp
      cases hp
    · unfold Configured
      change (∃ d₁, (g.kernel.setDevice old _).devices name = some d₁ ∧ _) ↔ _
      rw [setDevice_of_ne g.kernel hn]
      exact ⟨fun h => ⟨h, hn⟩, fun h => h.1⟩

theorem deconfigured_configured (hob : g.kernel.driver.Obliging) (hfl : g.kernel.driver.HonoursFlags) (p : Peer)
    (name : String) (key : Key) : (g.deconfigured p key).Configured name key ↔
      g.Configured name key ∧ ¬ (g.Moves p ∧ name = g.indexed p.publicKey) := by
  unfold deconfigured
  by_cases hm : g.Moves p
  · rw [if_pos hm, withoutPeer_configured hob hfl]
    exact and_congr_right fun _ => ⟨fun hne h => hne h.2, fun h hne => h ⟨hm, hne⟩⟩
  · rw [if_neg hm]
    exact ⟨fun h => ⟨h, fun h => hm h.1⟩, fun h => h.1⟩

/-- An update sets a peer only where it is already. -/
theorem update_makes_iff {k : Kernel} (hfl : k.driver.HonoursFlags) {key : Key} {d d' : Device}
    (h : k.driver k.devices p.interface d (.configure (peerAttrs (setConfig p key true))) = some d') :
    (∃ w, d'.peers key = some w ∧ w.allowedIPs = networks p.ip p.ip6) ↔ (d.peers key).isSome = true := by
  constructor
  · rintro ⟨w, hw, -⟩
    cases hp : d.peers key with
    | none =>
      have hnone : d'.peers key = none := hfl.ignored _ _ _ _ _ h rfl rfl hp
      rw [hnone] at hw
      cases hw
    | some w => rfl
  · intro hp
    exact hfl.replaced _ _ _ _ _ h rfl rfl (Option.isSome_iff_ne_none.1 hp)

/-- After a successful update of a peer that is on another device, the peer has moved exactly if its
new device had it already, and the old one is the one the index gives and the only other one. -/
theorem move_peer_iff (hf : g.kernel.FaultFree) (hob : g.kernel.driver.Obliging)
    (hfl : g.kernel.driver.HonoursFlags) {key : Key} {old : String} {seq : Nat}
    {ts : Time} {fromLog : Bool} (hkey : parseKey p.publicKey = some key) (hold : g.Configured old key)
    (hne : old ≠ p.interface) (ho : apply ⟨seq, .update, ts, .peer p⟩ fromLog g = (.ok (), g')) :
    PeerMoved p key g' ↔
      g.Configured p.interface key ∧ old ≠ "" ∧ g.peerIndex p.publicKey = some old ∧
        ∀ name, name ≠ old → name ≠ p.interface → ¬ g.Configured name key := by
  obtain ⟨g₁, hd, rfl⟩ := apply_ok_iff.1 ho
  obtain ⟨-, -, key', d, hu, ⟨d₀, hdev, hdrv⟩, rfl⟩ := (applyPeer_update_iff hf).1 hd
  obtain rfl := hu.key_eq hkey
  rw [deconfigured_target] at hdev
  have hset := update_makes_iff (p := p) (by rw [deconfigured_driver]; exact hfl) hdrv
  -- the devices other than the target are those after the removal
  have hother : ∀ name, name ≠ p.interface →
      (Configured
          { ((g.deconfigured p key').withIndex p.publicKey p.interface).withDevice p.interface d with seq := seq }
          name key' ↔ g.Configured name key' ∧ ¬ (g.Moves p ∧ name = g.indexed p.publicKey)) := by
    intro name hn
    rw [← deconfigured_configured hob hfl]
    unfold Configured
    change (∃ d', ((g.deconfigured p key').kernel.setDevice p.interface _).devices name = some d' ∧ _) ↔ _
    rw [setDevice_of_ne _ hn]
  constructor
  · rintro ⟨⟨d', w, hd', hw, hips⟩, hnowhere, -⟩
    change ((g.deconfigured p key').kernel.setDevice p.interface _).devices p.interface = some d' at hd'
    rw [setDevice_self] at hd'
    cases hd'
    -- the old device lost the peer, and the only removal is the one the index points at
    have hgone : g.Moves p ∧ old = g.indexed p.publicKey := by
      by_contra h
      exact hnowhere old hne ((hother old hne).2 ⟨hold, h⟩)
    obtain ⟨hm, heq⟩ := hgone
    refine ⟨⟨d₀, hdev, hset.1 ⟨w, hw, hips⟩⟩, heq ▸ hm.1, (indexed_eq_iff (heq ▸ hm.1)).1 heq.symm, ?_⟩
    intro name hno hn hc
    exact hnowhere name hn ((hother name hn).2 ⟨hc, fun h => hno (h.2.trans heq.symm)⟩)
  · rintro ⟨⟨d', hd', hp⟩, hnil, hindex, honly⟩
    rw [hdev] at hd'
    cases hd'
    have heq : g.indexed p.publicKey = old := (indexed_eq_iff hnil).2 hindex
    -- update-only: the target takes the new addresses because it had the peer
    obtain ⟨w, hw, hips⟩ := hset.2 hp
    refine ⟨⟨_, w, setDevice_self _ p.interface _, hw, hips⟩, ?_, Function.update_self _ _ _⟩
    intro name hn hc
    obtain ⟨hc, hstay⟩ := (hother name hn).1 hc
    by_cases hno : name = old
    · exact hstay ⟨⟨by rw [heq]; exact hnil, by rw [heq]; exact hne⟩, hno.trans heq.symm⟩
    · exact honly name hno hn hc

end Flags

/-- The device of an interface with the sample peer. -/
def peerDevice (name : String) : Device :=
  { privateKey := parseKey (sampleInterface name).privateKey
    listenPort := port16 (sampleInterface name).port
    fwmark := 0
    addrs := []
    up := true
    peers := fun k => if parseKey (samplePeer name).publicKey = some k then some (wgPeer (samplePeer name)) else none }

/-- The peer is on both devices, as it is once two peers were created with two texts of its key. -/
def twiceConfigured : Gateway :=
  ⟨⟨[sampleInterface "wg0", sampleInterface "wg1"], by decide⟩,
    fun k => if k = (samplePeer "wg0").publicKey then some "wg0" else none, 4,
    { sampleHost with devices := fun name => if name = "wg0" ∨ name = "wg1" then some (peerDevice name) else none }⟩

theorem twiceConfigured_configured {name : String} (hn : name = "wg0" ∨ name = "wg1") {key : Key}
    (hkey : parseKey (samplePeer "wg1").publicKey = some key) : twiceConfigured.Configured name key :=
  ⟨peerDevice name, if_pos hn, congrArg Option.isSome (if_pos hkey)⟩

theorem move_peer_twiceConfigured : ∃ key g', parseKey (samplePeer "wg1").publicKey = some key ∧
    apply ⟨5, .update, Time.zero, .peer (samplePeer "wg1")⟩ true twiceConfigured = (.ok (), g') ∧
    PeerMoved (samplePeer "wg1") key g' := by
  obtain ⟨key, hkey⟩ := Option.isSome_iff_exists.1 (parseKey_samplePeer "wg1")
  obtain ⟨g', ho⟩ := Proc.ok_of_fst (x := apply ⟨5, .update, Time.zero, .peer (samplePeer "wg1")⟩ true)
    (s := twiceConfigured) (a := ()) (by decide +kernel)
  have hold : twiceConfigured.Configured "wg0" key := twiceConfigured_configured (.inl rfl) hkey
  have hindex : twiceConfigured.peerIndex (samplePeer "wg1").publicKey = some "wg0" := by decide +kernel
  have hmoved := move_peer_iff (g := twiceConfigured) rfl Driver.documented_obliging Driver.documented_honoursFlags hkey
    hold (by decide) ho
  refine ⟨key, g', hkey, ho, hmoved.2 ⟨?_, by decide, hindex, ?_⟩⟩
  · exact twiceConfigured_configured (.inr rfl) hkey
  · rintro name h0 h1 ⟨d, hd, -⟩
    change (if name = "wg0" ∨ name = "wg1" then some (peerDevice name) else none) = some d at hd
    rw [if_neg (by rintro (h | h); exacts [h0 h, h1 h])] at hd
    cases hd

/-- Two interfaces, and the peer on the first. -/
def moveRun : List Event :=
  [sampleOp .create (.interface (sampleInterface "wg0")), sampleOp .create (.interface (sampleInterface "wg1")),
    sampleOp .create (.peer (samplePeer "wg0"))]

/-- A move to a device that does not have the peer yet removes it and sets nothing. -/
theorem move_peer_lost : ∃ g g' key, system.run (new sampleHost) moveRun = some g ∧
    parseKey (samplePeer "wg1").publicKey = some key ∧ g.Configured "wg0" key ∧
    apply ⟨4, .update, Time.zero, .peer (samplePeer "wg1")⟩ true g = (.ok (), g') ∧
    ¬ g'.Configured "wg0" key ∧ ¬ g'.Configured "wg1" key ∧ ¬ PeerMoved (samplePeer "wg1") key g' := by
  obtain ⟨key, hkey⟩ := Option.isSome_iff_exists.1 (parseKey_samplePeer "wg1")
  have hrun : (system.run (new sampleHost) moveRun).map (fun g =>
      ((g.kernel.devices "wg0").any fun d => (parseKey (samplePeer "wg1").publicKey).any fun k => (d.peers k).isSome,
        (apply ⟨4, .update, Time.zero, .peer (samplePeer "wg1")⟩ true g).1,
        ["wg0", "wg1"].map fun name =>
          ((apply ⟨4, .update, Time.zero, .peer (samplePeer "wg1")⟩ true g).2.kernel.devices name).any fun d =>
            (parseKey (samplePeer "wg1").publicKey).any fun k => (d.peers k).isSome)) =
      some (true, .ok (), [false, false]) := by
    decide +kernel
  obtain ⟨g, hg, hstate⟩ := Option.map_eq_some_iff.1 hrun
  rw [Prod.mk.injEq, Prod.mk.injEq, hkey] at hstate
  obtain ⟨hdev, hok, hgone⟩ := hstate
  obtain ⟨g', ho⟩ := Proc.ok_of_fst hok
  rw [ho] at hgone
  simp only [List.map_cons, List.map_nil, Option.any_some, List.cons.injEq, and_true] at hgone
  have hnot : ∀ name, ((g'.kernel.devices name).any fun d => (d.peers key).isSome) = false →
      ¬ g'.Configured name key := by
    rintro name h ⟨d, hd, hp⟩
    rw [hd, Option.any_some, hp] at h
    cases h
  obtain ⟨d, hd, hp⟩ := (Option.any_eq_true _ _).1 hdev
  refine ⟨g, g', key, hg, hkey, ⟨d, hd, hp⟩, ho, hnot _ hgone.1, hnot _ hgone.2, fun h => ?_⟩
  obtain ⟨d', w, hd', hw, -⟩ := h.there
  exact hnot "wg1" hgone.2 ⟨d', hd', by rw [hw]; rfl⟩

end Wig.Gateway
