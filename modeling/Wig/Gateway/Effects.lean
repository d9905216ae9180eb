/-
What the calls of the gateway do while none fails for reasons of its own: when each operation succeeds, and
the state it then leaves. The devices are what the kernel's driver makes of them.
-/
import Wig.Gateway.Wireguard

namespace Wig.Gateway

open Wig.Lib Wig.Net Wig.Model Wig.Crudlog Kernel

/-! ## Peers of a device -/

/-- What a device holds of a configured peer. -/
def wgPeer (p : Peer) : WgPeer := ⟨networks p.ip p.ip6, Key.zero, persistentKeepaliveInterval⟩

/-- The peers of a device after a peer is set; an update sets it only if it is there. -/
def setPeer (p : Peer) (key : Key) (update : Bool) (peers : Key → Option WgPeer) : Key → Option WgPeer :=
  if update ∧ peers key = none then peers else Function.update peers key (some (wgPeer p))

/-- The configuration of a peer that is set. -/
def setConfig (p : Peer) (key : Key) (update : Bool) : PeerConfig :=
  ⟨key, false, update, some Key.zero, some persistentKeepaliveInterval, true, networks p.ip p.ip6⟩

theorem setConfig_apply (p : Peer) (key : Key) (update : Bool) (peers : Key → Option WgPeer) :
    (setConfig p key update).apply peers = setPeer p key update peers := by
  unfold PeerConfig.apply setPeer setConfig
  cases update <;> cases h : peers key <;> simp [PeerConfig.set, wgPeer]

/-- A peer that can be configured: its key parses, it has an address, and its addresses are not empty. -/
structure Usable (p : Peer) (key : Key) : Prop where
  parsed : parseKey p.publicKey = some key
  some_ip : networks p.ip p.ip6 ≠ []
  valid : ∀ n ∈ networks p.ip p.ip6, isValidIP n.ip = true

theorem Usable.key_eq {p : Peer} {key key' : Key} (h : Usable p key') (hkey : parseKey p.publicKey = some key) :
    key' = key :=
  Option.some.inj (h.parsed.symm.trans hkey)

theorem peerToConfig_set_iff {p : Peer} {update : Bool} {cfg : PeerConfig} :
    peerToConfig p update false = .ok cfg ↔
      networks p.ip p.ip6 ≠ [] ∧ ∃ key, parseKey p.publicKey = some key ∧ cfg = setConfig p key update := by
  unfold peerToConfig
  cases parseKey p.publicKey with
  | none =>
    constructor
    · intro h; cases h
    · rintro ⟨-, key, h, -⟩; cases h
  | some key =>
    by_cases hn : networks p.ip p.ip6 = []
    · simp [hn]
    · simp [hn, setConfig, eq_comm]

theorem peerToConfig_remove_iff {p : Peer} {cfg : PeerConfig} :
    peerToConfig p false true = .ok cfg ↔ ∃ key, parseKey p.publicKey = some key ∧ cfg = removeConfig key := by
  rw [peerToConfig_remove]
  cases parseKey p.publicKey with
  | none =>
    constructor
    · intro h; cases h
    · rintro ⟨key, h, -⟩; cases h
  | some key => simp [eq_comm]

/-- The gateway with a device changed. -/
def withDevice (g : Gateway) (name : String) (d : Device) : Gateway :=
  { g with kernel := g.kernel.setDevice name (some d) }

/-- The gateway with an entry of the index changed. -/
def withIndex (g : Gateway) (key name : String) : Gateway :=
  { g with peerIndex := Function.update g.peerIndex key (some name) }

theorem setIndex_apply (key name : String) (g : Gateway) : setIndex key name g = (.ok (), g.withIndex key name) := rfl

/-- One peer goes to the device in one batch. -/
theorem configureWGDevice_one (wgi : Interface) (c : PeerConfig) :
    configureWGDevice (some wgi) (peersConfig false [c]) = onKernel (configureBatch wgi.name (peersConfig false [c])) :=
  congrArg onKernel (funext (configureDevice_small wgi.name (peersConfig false [c]) (show 1 ≤ 32 by decide)))

/-- One peer is configured exactly if its addresses are valid and the kernel takes it. -/
theorem configureWGDevice_iff {g g' : Gateway} (hf : g.kernel.FaultFree) (wgi : Interface) (c : PeerConfig) :
    configureWGDevice (some wgi) (peersConfig false [c]) g = (.ok (), g') ↔
      (∀ n ∈ c.allowedIPs, isValidIP n.ip = true) ∧
        ∃ d, g.kernel.Makes wgi.name (.configure (peerAttrs c)) d ∧ g' = g.withDevice wgi.name d := by
  rw [configureWGDevice_one]
  constructor
  · intro h
    obtain ⟨k, hk, rfl⟩ := onKernel_ok h
    obtain ⟨hip, d, hd, rfl⟩ := (configureBatch_ok_iff hf).1 hk
    exact ⟨hip c (List.mem_singleton_self c), d, hd, rfl⟩
  · rintro ⟨hip, d, hd, rfl⟩
    refine onKernel_of_ok ((configureBatch_ok_iff hf).2 ⟨?_, d, hd, rfl⟩)
    intro c' hc'
    rw [List.mem_singleton.1 hc']
    exact hip

/-! ## Peer operations -/

section Peers

variable {g g' : Gateway} {p : Peer}

theorem find?_name {name : String} {wgi : Interface} (h : g.intfs.find? name = some wgi) : wgi.name = name :=
  (Table.find?_eq_some.1 h).2

/-- The end of a creation and of an update: the index, the configuration and the device. -/
theorem setPeer_iff (hf : g.kernel.FaultFree) (update : Bool) {wgi : Interface} (hwgi : wgi.name = p.interface) :
    (do
      setIndex p.publicKey p.interface
      let cfg ← Proc.lift (peerToConfig p update false)
      configureWGDevice (some wgi) (peersConfig false [cfg]) : Proc Gateway Error Unit) g = (.ok (), g') ↔
      ∃ key d, Usable p key ∧ g.kernel.Makes p.interface (.configure (peerAttrs (setConfig p key update))) d ∧
        g' = (g.withIndex p.publicKey p.interface).withDevice p.interface d := by
  have hf₁ : (g.withIndex p.publicKey p.interface).kernel.FaultFree := hf
  rw [Proc.bind_of_ok (setIndex_apply _ _ g)]
  constructor
  · intro h
    obtain ⟨cfg, g₂, hlift, hconf⟩ := Proc.bind_ok_iff.1 h
    obtain ⟨hcfg, rfl⟩ := Proc.lift_ok_iff.1 hlift
    obtain ⟨hne, key, hkey, rfl⟩ := peerToConfig_set_iff.1 hcfg
    obtain ⟨hip, d, hd, rfl⟩ := (configureWGDevice_iff hf₁ wgi _).1 hconf
    rw [hwgi] at hd ⊢
    exact ⟨key, d, ⟨hkey, hne, hip⟩, hd, rfl⟩
  · rintro ⟨key, d, hu, hd, rfl⟩
    refine Proc.bind_ok_iff.2 ⟨setConfig p key update, _, Proc.lift_ok_iff.2 ⟨?_, rfl⟩, ?_⟩
    · exact peerToConfig_set_iff.2 ⟨hu.some_ip, key, hu.parsed, rfl⟩
    · refine (configureWGDevice_iff hf₁ wgi (setConfig p key update)).2 ⟨hu.valid, d, by rw [hwgi]; exact hd, ?_⟩
      rw [hwgi]

theorem applyPeer_create_iff (hf : g.kernel.FaultFree) :
    applyPeer .create p g = (.ok (), g') ↔
      p.interface ∈ g.intfs.keys ∧ ∃ key d, Usable p key ∧
        g.kernel.Makes p.interface (.configure (peerAttrs (setConfig p key false))) d ∧
        g' = (g.withIndex p.publicKey p.interface).withDevice p.interface d := by
  cases hi : g.intfs.find? p.interface with
  | none =>
    rw [applyPeer_create_missing hi]
    exact ⟨fun h => (by cases h), fun h => absurd h.1 (Table.find?_eq_none.1 hi)⟩
  | some wgi =>
    rw [applyPeer_create hi, setPeer_iff hf false (find?_name hi)]
    exact ⟨fun h => ⟨Table.mem_keys_iff_find?.2 ⟨wgi, hi⟩, h⟩, fun h => h.2⟩

theorem applyPeer_delete_ok_iff (hf : g.kernel.FaultFree) :
    applyPeer .delete p g = (.ok (), g') ↔
      g.indexed p.publicKey ∈ g.intfs.keys ∧ ∃ key d, parseKey p.publicKey = some key ∧
        g.kernel.Makes (g.indexed p.publicKey) (.configure (peerAttrs (removeConfig key))) d ∧
        g' = g.withDevice (g.indexed p.publicKey) d := by
  rw [applyPeer_delete, Proc.bind_ok_iff]
  constructor
  · rintro ⟨cfg, g₁, hlift, hconf⟩
    obtain ⟨hcfg, rfl⟩ := Proc.lift_ok_iff.1 hlift
    obtain ⟨key, hkey, rfl⟩ := peerToConfig_remove_iff.1 hcfg
    cases hi : g₁.intfs.find? (g₁.indexed p.publicKey) with
    | none => rw [hi] at hconf; cases hconf
    | some wgi =>
      rw [hi] at hconf
      -- the entry of the index stays: only the device changes
      obtain ⟨-, d, hd, rfl⟩ := (configureWGDevice_iff hf wgi _).1 hconf
      rw [find?_name hi] at hd ⊢
      exact ⟨Table.mem_keys_iff_find?.2 ⟨wgi, hi⟩, key, d, hkey, hd, rfl⟩
  · rintro ⟨hmem, key, d, hkey, hd, rfl⟩
    obtain ⟨wgi, hi⟩ := Table.mem_keys_iff_find?.1 hmem
    refine ⟨removeConfig key, g, Proc.lift_ok_iff.2 ⟨peerToConfig_remove_iff.2 ⟨key, hkey, rfl⟩, rfl⟩, ?_⟩
    rw [hi]
    refine (configureWGDevice_iff hf wgi _).2 ⟨fun _ h => (List.not_mem_nil h).elim, d, ?_, ?_⟩
    · rw [find?_name hi]; exact hd
    · rw [find?_name hi]

/-- The update names another interface than the index does. -/
def Moves (g : Gateway) (p : Peer) : Prop := g.indexed p.publicKey ≠ "" ∧ g.indexed p.publicKey ≠ p.interface

instance (g : Gateway) (p : Peer) : Decidable (g.Moves p) := inferInstanceAs (Decidable (_ ∧ _))

/-- The gateway with a peer taken off a device, if the device is there and the kernel does not refuse. -/
def withoutPeer (g : Gateway) (name : String) (key : Key) : Gateway :=
  match g.kernel.devices name with
  | none => g
  | some d =>
    match g.kernel.driver g.kernel.devices name d (.configure (peerAttrs (removeConfig key))) with
    | none => g
    | some d' => g.withDevice name d'

/-- The gateway after the peer of an update has been taken off its previous interface. -/
def deconfigured (g : Gateway) (p : Peer) (key : Key) : Gateway :=
  if g.Moves p then g.withoutPeer (g.indexed p.publicKey) key else g

theorem withoutPeer_cases (g : Gateway) (name : String) (key : Key) :
    g.withoutPeer name key = g ∨ ∃ d, g.kernel.Makes name (.configure (peerAttrs (removeConfig key))) d ∧
      g.withoutPeer name key = g.withDevice name d := by
  unfold withoutPeer
  cases hd : g.kernel.devices name with
  | none => exact .inl rfl
  | some d =>
    dsimp only
    cases hdrv : g.kernel.driver g.kernel.devices name d (.configure (peerAttrs (removeConfig key))) with
    | none => exact .inl rfl
    | some d' => exact .inr ⟨d', ⟨d, hd, hdrv⟩, rfl⟩

theorem withoutPeer_makes {name : String} {key : Key} {d : Device}
    (h : g.kernel.Makes name (.configure (peerAttrs (removeConfig key))) d) :
    g.withoutPeer name key = g.withDevice name d := by
  obtain ⟨d₀, hd, hdrv⟩ := h
  unfold withoutPeer
  simp only [hd, hdrv]

/-- At most the device of the previous interface is another. -/
theorem deconfigured_cases (g : Gateway) (p : Peer) (key : Key) :
    g.deconfigured p key = g ∨ ∃ d, g.Moves p ∧
      g.kernel.Makes (g.indexed p.publicKey) (.configure (peerAttrs (removeConfig key))) d ∧
      g.deconfigured p key = g.withDevice (g.indexed p.publicKey) d := by
  unfold deconfigured
  split
  · rename_i hm
    exact (withoutPeer_cases g _ key).imp id fun ⟨d, hd, heq⟩ => ⟨d, hm, hd, heq⟩
  · exact .inl rfl

theorem deconfigured_faultFree {key : Key} (hf : g.kernel.FaultFree) : (g.deconfigured p key).kernel.FaultFree := by
  rcases deconfigured_cases g p key with heq | ⟨d, -, -, heq⟩
  · rwa [heq]
  · rw [heq]
    exact hf

/-- The device the peer is moved to is not touched yet. -/
theorem deconfigured_target {key : Key} :
    (g.deconfigured p key).kernel.devices p.interface = g.kernel.devices p.interface := by
  rcases deconfigured_cases g p key with heq | ⟨d, hm, -, heq⟩
  · rw [heq]
  · rw [heq]
    exact setDevice_of_ne _ (Ne.symm hm.2) _

theorem deconfigured_driver {key : Key} : (g.deconfigured p key).kernel.driver = g.kernel.driver := by
  rcases deconfigured_cases g p key with heq | ⟨d, -, -, heq⟩
  · rw [heq]
  · rw [heq]
    rfl

theorem deconfigure_stays (hm : ¬ g.Moves p) : deconfigure p g = (.ok (), g) := by
  unfold deconfigure
  rw [Proc.bind_of_ok (Proc.get_apply g), if_neg (show ¬ (_ ∧ _) from hm)]
  rfl

theorem deconfigure_moves {key : Key} (hm : g.Moves p) (hkey : parseKey p.publicKey = some key) :
    deconfigure p g =
      Proc.ignoreErr
        (configureWGDevice (g.intfs.find? (g.indexed p.publicKey)) (peersConfig false [removeConfig key])) g := by
  unfold deconfigure
  rw [Proc.bind_of_ok (Proc.get_apply g), if_pos (show _ ∧ _ from hm), peerToConfig_remove_iff.2 ⟨key, hkey, rfl⟩]

/-- Removing a peer and dropping the error. -/
theorem ignoreErr_removeConfig (hf : g.kernel.FaultFree) (wgi : Interface) (key : Key) :
    Proc.ignoreErr (configureWGDevice (some wgi) (peersConfig false [removeConfig key])) g =
      (.ok (), g.withoutPeer wgi.name key) := by
  have hip : ∀ c ∈ (peersConfig false [removeConfig key]).peers, ∀ n ∈ c.allowedIPs, isValidIP n.ip = true := by
    intro c hc n hn
    rw [List.mem_singleton.1 hc] at hn
    exact (List.not_mem_nil hn).elim
  rw [configureWGDevice_one, configureBatch_of_valid hip]
  unfold withoutPeer
  cases hd : g.kernel.devices wgi.name with
  | none => exact Proc.ignoreErr_of_err (onKernel_of_err (onDevice_none hf hd))
  | some d =>
    dsimp only
    cases hdrv : g.kernel.driver g.kernel.devices wgi.name d (.configure (peerAttrs (removeConfig key))) with
    | none => exact Proc.ignoreErr_of_err (onKernel_of_err (onDevice_refused hf hd (congrArg (Option.map some) hdrv)))
    | some d' => exact Proc.ignoreErr_of_ok (onKernel_of_ok (onDevice_some hf hd (congrArg (Option.map some) hdrv)))

/-- Taking the peer off goes through as long as the interface it is on is known. -/
theorem deconfigure_iff {key : Key} (hf : g.kernel.FaultFree) (hkey : parseKey p.publicKey = some key) :
    deconfigure p g = (.ok (), g') ↔
      (g.Moves p → g.indexed p.publicKey ∈ g.intfs.keys) ∧ g' = g.deconfigured p key := by
  unfold deconfigured
  by_cases hm : g.Moves p
  · rw [deconfigure_moves hm hkey, if_pos hm]
    cases hi : g.intfs.find? (g.indexed p.publicKey) with
    | none => exact ⟨fun h => (by cases h), fun h => absurd (h.1 hm) (Table.find?_eq_none.1 hi)⟩
    | some wgi =>
      rw [ignoreErr_removeConfig hf, find?_name hi, Prod.mk.injEq, eq_comm (a := g')]
      exact ⟨fun h => ⟨fun _ => Table.mem_keys_iff_find?.2 ⟨wgi, hi⟩, h.2⟩, fun h => ⟨rfl, h.2⟩⟩
  · rw [deconfigure_stays hm, if_neg hm, Prod.mk.injEq, eq_comm (a := g')]
    exact ⟨fun h => ⟨fun h => absurd h hm, h.2⟩, fun h => ⟨rfl, h.2⟩⟩

theorem applyPeer_update_iff (hf : g.kernel.FaultFree) :
    applyPeer .update p g = (.ok (), g') ↔
      p.interface ∈ g.intfs.keys ∧ (g.Moves p → g.indexed p.publicKey ∈ g.intfs.keys) ∧
        ∃ key d, Usable p key ∧
          (g.deconfigured p key).kernel.Makes p.interface (.configure (peerAttrs (setConfig p key true))) d ∧
          g' = ((g.deconfigured p key).withIndex p.publicKey p.interface).withDevice p.interface d := by
  cases hi : g.intfs.find? p.interface with
  | none =>
    rw [applyPeer_update_missing hi]
    exact ⟨fun h => (by cases h), fun h => absurd h.1 (Table.find?_eq_none.1 hi)⟩
  | some wgi =>
    have hmem := Table.mem_keys_iff_find?.2 ⟨wgi, hi⟩
    rw [applyPeer_update hi, Proc.bind_ok_iff]
    -- the first peerToConfig drops its error, so that a key that does not parse fails in the second
    cases hkey : parseKey p.publicKey with
    | none =>
      constructor
      · rintro ⟨_, g₁, -, h⟩
        rw [Proc.bind_of_ok (setIndex_apply _ _ g₁)] at h
        obtain ⟨cfg, _, hlift, -⟩ := Proc.bind_ok_iff.1 h
        obtain ⟨-, key, hk, -⟩ := peerToConfig_set_iff.1 (Proc.lift_ok_iff.1 hlift).1
        rw [hkey] at hk
        cases hk
      · rintro ⟨-, -, key, d, hu, -⟩
        rw [hu.parsed] at hkey
        cases hkey
    | some key =>
      constructor
      · rintro ⟨_, g₁, hdec, h⟩
        obtain ⟨hmoves, rfl⟩ := (deconfigure_iff hf hkey).1 hdec
        obtain ⟨key', d, hu, hd, rfl⟩ := (setPeer_iff (deconfigured_faultFree hf) true (find?_name hi)).1 h
        obtain rfl := hu.key_eq hkey
        exact ⟨hmem, hmoves, key', d, hu, hd, rfl⟩
      · rintro ⟨-, hmoves, key', d, hu, hd, rfl⟩
        obtain rfl := hu.key_eq hkey
        refine ⟨(), g.deconfigured p key', (deconfigure_iff hf hkey).2 ⟨hmoves, rfl⟩, ?_⟩
        exact (setPeer_iff (deconfigured_faultFree hf) true (find?_name hi)).2 ⟨key', d, hu, hd, rfl⟩

end Peers

/-! ## Interface operations -/

section Interfaces

variable {g g' : Gateway} {i : Interface}

theorem applyInterface_create_iff (hf : g.kernel.FaultFree) :
    applyInterface .create i g = (.ok (), g') ↔
      i.name ∉ g.intfs.keys ∧ ∃ d, newInterface i g.kernel = (.ok (), g.kernel.setDevice i.name (some d)) ∧
        g' = { g with intfs := g.intfs.upsert i, kernel := g.kernel.setDevice i.name (some d) } := by
  cases hi : g.intfs.find? i.name with
  | some wgi =>
    rw [applyInterface_create_exists hi]
    exact ⟨fun h => (by cases h), fun h => absurd (Table.mem_keys_iff_find?.2 ⟨wgi, hi⟩) h.1⟩
  | none =>
    rw [applyInterface_create hi, Proc.bind_ok_iff]
    constructor
    · rintro ⟨_, g₁, hnew, h⟩
      cases h
      obtain ⟨k, hk, rfl⟩ := onKernel_ok hnew
      obtain ⟨-, -, -, d, rfl⟩ := newInterface_ok hf hk
      exact ⟨Table.find?_eq_none.1 hi, d, hk, rfl⟩
    · rintro ⟨-, d, hk, rfl⟩
      exact ⟨(), _, onKernel_of_ok hk, rfl⟩

/-- An interface that is updated loses its device before its settings are written, so that the
update fails and the device stays away. -/
theorem applyInterface_update_eq (hf : g.kernel.FaultFree) (hi : i.name ∈ g.intfs.keys) :
    applyInterface .update i g =
      (.err (if (parseKey i.privateKey).isSome then .notExist else .parseKey),
        { g with intfs := g.intfs.replace i, kernel := g.kernel.setDevice i.name none }) := by
  obtain ⟨wgi, hwgi⟩ := Table.mem_keys_iff_find?.1 hi
  have hstop : stopInterface wgi g.kernel = (.ok (), g.kernel.setDevice i.name none) := by
    unfold stopInterface
    rw [bringDown_eq hf, find?_name hwgi]
  rw [applyInterface_update hwgi]
  unfold reconfigure
  rw [Proc.bind_of_ok (onKernel_of_ok hstop), Proc.bind_of_ok (Proc.modify_apply _ _)]
  exact Proc.bind_of_err (onKernel_of_err (initializeInterface_absent (setDevice_faultFree hf i.name none)
    (setDevice_self g.kernel i.name none)))

theorem applyInterface_update_fails (hf : g.kernel.FaultFree) : applyInterface .update i g ≠ (.ok (), g') := by
  intro h
  cases hi : g.intfs.find? i.name with
  | none => rw [applyInterface_update_missing hi] at h; cases h
  | some wgi => rw [applyInterface_update_eq hf (Table.mem_keys_iff_find?.2 ⟨wgi, hi⟩)] at h; cases h

theorem applyInterface_delete_ok_iff (hf : g.kernel.FaultFree) :
    applyInterface .delete i g = (.ok (), g') ↔
      i.name ∈ g.intfs.keys ∧
        g' = { g with intfs := g.intfs.erase i.name, kernel := g.kernel.setDevice i.name none } := by
  cases hi : g.intfs.find? i.name with
  | none =>
    rw [applyInterface_delete_missing hi]
    exact ⟨fun h => (by cases h), fun h => absurd h.1 (Table.find?_eq_none.1 hi)⟩
  | some wgi =>
    have hstop : stopInterface wgi g.kernel = (.ok (), g.kernel.setDevice i.name none) := by
      unfold stopInterface
      rw [bringDown_eq hf, find?_name hi]
    rw [applyInterface_delete hi, Proc.bind_of_ok (Proc.ignoreErr_of_ok (onKernel_of_ok hstop))]
    constructor
    · intro h
      cases h
      exact ⟨Table.mem_keys_iff_find?.2 ⟨wgi, hi⟩, rfl⟩
    · rintro ⟨-, rfl⟩
      rfl

end Interfaces

theorem apply_ok_iff {g g' : Gateway} {op : Op Value} {fromLog : Bool} :
    apply op fromLog g = (.ok (), g') ↔ ∃ g₁, dispatch op g = (.ok (), g₁) ∧ g' = { g₁ with seq := op.seq } := by
  rw [apply_eq, Proc.bind_ok_iff]
  constructor
  · rintro ⟨_, g₁, hd, h⟩
    cases h
    exact ⟨g₁, hd, rfl⟩
  · rintro ⟨g₁, hd, rfl⟩
    exact ⟨(), g₁, hd, rfl⟩

end Wig.Gateway
