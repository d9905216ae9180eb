/-
Loading a snapshot: all interfaces are stopped, and those of the snapshot are made anew, each with
all its peers at once. Many peers go to the kernel in batches.
-/
import Wig.Lib.Collect
import Wig.Gateway.Refine

namespace Wig.Gateway

open Wig.Lib Wig.Net Wig.Model Wig.Crudlog Wig.Store Kernel

/-! ## Configuring many peers -/

/-- A list of configurations with different keys is split into one batch for each, unchanged. -/
theorem peerBatches_eq (cfg : Config) : ∀ (cs : List PeerConfig) (known : List Key),
    (∀ c ∈ cs, c.publicKey ∉ known) → (cs.map PeerConfig.publicKey).Nodup →
    peerBatches cfg known cs = cs.map fun c => { cfg with peers := [c] }
  | [], _, _, _ => rfl
  | c :: cs, known, hk, hnd => by
    rw [List.map_cons, List.nodup_cons] at hnd
    have hrest : ∀ c' ∈ cs, c'.publicKey ∉ c.publicKey :: known := by
      intro c' hc' hm
      rcases List.mem_cons.1 hm with heq | hm
      · exact hnd.1 (List.mem_map.2 ⟨c', hc', heq⟩)
      · exact hk c' (List.mem_cons_of_mem _ hc') hm
    rw [peerBatches, if_neg (hk c List.mem_cons_self), peerBatches_eq cfg cs _ hrest hnd.2, List.map_cons]

section Batches

variable {τ : Terms} {k : Kernel} {name : String} {d : Device}

/-- A configuration of peers that fit. -/
theorem configureBatch_peers (hl : k.driver.Lawful τ) (hf : k.FaultFree) (hd : k.devices name = some d) (replace : Bool)
    {cs : List PeerConfig} (hip : ∀ c ∈ cs, ∀ n ∈ c.allowedIPs, isValidIP n.ip = true)
    (hfit : AllFit τ d.privateKey (if replace then fun _ => none else d.peers) cs) :
    configureBatch name (peersConfig replace cs) k = (.ok (), k.setDevice name (some
      { d with peers := cs.foldl (fun ps c => c.apply ps) (if replace then fun _ => none else d.peers) })) := by
  have hclean : Clean τ k.devices name d (peersConfig replace cs).attrs :=
    ⟨fun _ hkey => (by cases hkey), fun _ hport => (by cases hport), hfit⟩
  exact (configureBatch_ok_iff hf).2 ⟨hip, _, ⟨d, hd, hl.configure _ name d _ hclean⟩, rfl⟩

theorem configureBatches (name : String) : ∀ (cs : List PeerConfig) {k : Kernel} {d : Device}, k.driver.Lawful τ →
    k.FaultFree → k.devices name = some d → (∀ c ∈ cs, ∀ n ∈ c.allowedIPs, isValidIP n.ip = true) →
    AllFit τ d.privateKey d.peers cs →
    Proc.forEach (configureBatch name) (cs.map fun c => peersConfig false [c]) k =
      (.ok (), k.setDevice name (some { d with peers := cs.foldl (fun ps c => c.apply ps) d.peers }))
  | [], k, d, _, _, hd, _, _ => by
    rw [List.map_nil, Proc.forEach_nil, List.foldl_nil, setDevice_same hd]
  | c :: cs, k, d, hl, hf, hd, hip, hfit => by
    have hone := configureBatch_peers hl hf hd false
      (fun c' hc' => List.mem_singleton.1 hc' ▸ hip c List.mem_cons_self) (And.intro hfit.1 trivial)
    have hrest := configureBatches name cs (k := k.setDevice name (some { d with peers := c.apply d.peers })) hl
      (setDevice_faultFree hf name _) (setDevice_self k name _)
        (fun c' hc' => hip c' (List.mem_cons_of_mem _ hc')) hfit.2
    rw [setDevice_setDevice] at hrest
    exact (Proc.bind_of_ok hone).trans hrest

/-- Batches or not, the device ends up with all the peers. -/
theorem configureDevice_peers (hl : k.driver.Lawful τ) (hf : k.FaultFree)
    (hd : k.devices name = some d) (replace : Bool) {cs : List PeerConfig}
    (hip : ∀ c ∈ cs, ∀ n ∈ c.allowedIPs, isValidIP n.ip = true) (hnd : (cs.map PeerConfig.publicKey).Nodup)
    (hfit : AllFit τ d.privateKey (if replace then fun _ => none else d.peers) cs) :
    configureDevice name (peersConfig replace cs) k = (.ok (), k.setDevice name (some
      { d with peers := cs.foldl (fun ps c => c.apply ps) (if replace then fun _ => none else d.peers) })) := by
  by_cases hlen : cs.length ≤ peerBatchChunk
  · rw [configureDevice_small name (peersConfig replace cs) hlen]
    exact configureBatch_peers hl hf hd replace hip hfit
  · cases cs with
    | nil => exact absurd (Nat.zero_le _) hlen
    | cons c cs =>
      -- one peer a batch, and only the first one may replace what was there
      have hbatches : buildBatches (peersConfig replace (c :: cs)) =
          peersConfig replace [c] :: cs.map fun c => peersConfig false [c] := by
        unfold buildBatches
        rw [if_neg (show ¬ (peersConfig replace (c :: cs)).peers.length ≤ peerBatchChunk from hlen)]
        rw [show (peersConfig replace (c :: cs)).peers = c :: cs from rfl,
          peerBatches_eq _ _ _ (fun _ _ => List.not_mem_nil) hnd, List.map_cons]
        simp only [List.map_map]
        rfl
      have hone : configureBatch name (peersConfig replace [c]) k = _ := configureBatch_peers hl hf hd replace
        (fun c' hc' => List.mem_singleton.1 hc' ▸ hip c List.mem_cons_self) (And.intro hfit.1 trivial)
      have hrest := configureBatches name cs (k := k.setDevice name (some
        { d with peers := c.apply (if replace then fun _ => none else d.peers) })) hl (setDevice_faultFree hf name _)
        (setDevice_self k name _) (fun c' hc' => hip c' (List.mem_cons_of_mem _ hc')) hfit.2
      rw [setDevice_setDevice] at hrest
      unfold configureDevice
      rw [hbatches]
      exact (Proc.bind_of_ok hone).trans hrest

end Batches

/-! ## The peers of an interface -/

def peerKey (p : Peer) : Key := (parseKey p.publicKey).getD Key.zero

theorem Usable.peerKey_eq {p : Peer} {key : Key} (h : Usable p key) : peerKey p = key := by
  unfold peerKey
  rw [h.parsed]
  rfl

theorem mapM_peerToConfig {ps : List Peer} (h : ∀ p ∈ ps, ∃ key, Usable p key) :
    (ps.mapM fun p => peerToConfig p false false) = .ok (ps.map fun p => setConfig p (peerKey p) false) := by
  refine mapM_eq_map fun p hp => ?_
  obtain ⟨key, hu⟩ := h p hp
  exact peerToConfig_set_iff.2 ⟨hu.some_ip, key, hu.parsed, by rw [hu.peerKey_eq]⟩

/-- The peers set one after the other. -/
def loadedPeers (ps : List Peer) (peers : Key → Option WgPeer) : Key → Option WgPeer :=
  ps.foldl (fun peers p => Function.update peers (peerKey p) (some (wgPeer p))) peers

theorem loadedPeers_cons (p : Peer) (ps : List Peer) (peers : Key → Option WgPeer) :
    loadedPeers (p :: ps) peers = loadedPeers ps (Function.update peers (peerKey p) (some (wgPeer p))) := rfl

theorem foldl_setConfig : ∀ (ps : List Peer) (peers : Key → Option WgPeer),
    (ps.map fun p => setConfig p (peerKey p) false).foldl (fun ps c => c.apply ps) peers = loadedPeers ps peers
  | [], _ => rfl
  | p :: ps, peers => by
    rw [List.map_cons, List.foldl_cons, setConfig_apply, foldl_setConfig ps]
    rfl

theorem loadedPeers_of_not_mem {key : Key} : ∀ {ps : List Peer} {peers : Key → Option WgPeer},
    (∀ p ∈ ps, peerKey p ≠ key) → loadedPeers ps peers key = peers key
  | [], _, _ => rfl
  | p :: ps, peers, h => by
    have hp : key ≠ peerKey p := Ne.symm (h p List.mem_cons_self)
    rw [loadedPeers_cons, loadedPeers_of_not_mem fun p' hp' => h p' (List.mem_cons_of_mem _ hp'),
      Function.update_of_ne hp]

theorem loadedPeers_of_mem {p : Peer} : ∀ {ps : List Peer} {peers : Key → Option WgPeer}, (ps.map peerKey).Nodup →
    p ∈ ps → loadedPeers ps peers (peerKey p) = some (wgPeer p)
  | q :: ps, peers, hnd, hm => by
    rw [List.map_cons, List.nodup_cons] at hnd
    rw [loadedPeers_cons]
    rcases List.mem_cons.1 hm with rfl | hm
    · rw [loadedPeers_of_not_mem fun p' hp' heq => hnd.1 (List.mem_map.2 ⟨p', hp', heq⟩), Function.update_self]
    · exact loadedPeers_of_mem hnd.2 hm

/-! ## Stopping and starting -/

theorem closeAllInterfaces_eq : ∀ (intfs : List Interface) {k : Kernel}, k.FaultFree →
    ∃ k', closeAllInterfaces intfs k = (.ok (), k') ∧ k'.FaultFree ∧ k'.validName = k.validName ∧
      k'.driver = k.driver ∧ ∀ name, k'.devices name = if name ∈ intfs.map Interface.name then none else k.devices name
  | [], k, hf => ⟨k, rfl, hf, rfl, rfl, fun _ => rfl⟩
  | i :: intfs, k, hf => by
    obtain ⟨k', ho, hf', hv, hdrv, hd⟩ := closeAllInterfaces_eq intfs (setDevice_faultFree hf i.name none)
    have hstop : Proc.ignoreErr (stopInterface i) k = (.ok (), k.setDevice i.name none) :=
      Proc.ignoreErr_of_ok (bringDown_eq hf i.name)
    refine ⟨k', ?_, hf', hv, hdrv, fun name => ?_⟩
    · exact (Proc.bind_of_ok hstop).trans ho
    · rw [hd, setDevice_none]
      rfl

/-- What an interface of a snapshot needs: that the host takes it, a key, and peers with different keys that
fit one after the other. -/
structure Loadable (validName : String → Bool) (τ : Terms) (peers : String → List Peer) (i : Interface) : Prop where
  granted : Granted validName τ i
  key : ∃ key, parseKey i.privateKey = some key
  usable : ∀ p ∈ peers i.name, ∃ key, Usable p key
  nodup : ((peers i.name).map peerKey).Nodup
  fit : AllFit τ (parseKey i.privateKey) (fun _ => none) ((peers i.name).map fun p => setConfig p (peerKey p) false)

/-- The device of an interface with its peers loaded. -/
def loadedDevice (peers : String → List Peer) (i : Interface) : Option Device :=
  (parseKey i.privateKey).map fun key => interfaceDevice i key (loadedPeers (peers i.name) fun _ => none)

section Load

variable {validName : String → Bool} {τ : Terms} {peers : String → List Peer}

theorem loadInterface_eq {i : Interface} {k : Kernel} (h : Loadable validName τ peers i) (hl : k.driver.Lawful τ)
    (hf : k.FaultFree) (hv : k.validName = validName)
    (hport : ∀ name d, k.devices name = some d → d.listenPort ≠ port16 i.port) {α : Type} (rest : Proc Kernel Error α) :
    (do
      newInterface i
      let wgPeers ← Proc.lift ((peers i.name).mapM fun peer => peerToConfig peer false false)
      configureDevice i.name (peersConfig true wgPeers)
      rest : Proc Kernel Error α) k = rest (k.setDevice i.name (loadedDevice peers i)) := by
  obtain ⟨key, hkey⟩ := h.key
  have hnew := newInterface_granted hl hf (hv ▸ h.granted) hkey fun name d _ hd => hport name d hd
  have hcfg : (Proc.lift ((peers i.name).mapM fun peer => peerToConfig peer false false) : Proc Kernel Error _)
      (k.setDevice i.name (some (newDevice i key))) = (.ok _, _) :=
    Proc.lift_ok_iff.2 ⟨mapM_peerToConfig h.usable, rfl⟩
  have hips : ∀ c ∈ (peers i.name).map fun p => setConfig p (peerKey p) false, ∀ n ∈ c.allowedIPs,
      isValidIP n.ip = true := by
    intro c hc
    obtain ⟨p, hp, rfl⟩ := List.mem_map.1 hc
    obtain ⟨key', hu⟩ := h.usable p hp
    exact hu.valid
  have hnd : (((peers i.name).map fun p => setConfig p (peerKey p) false).map PeerConfig.publicKey).Nodup := by
    rw [List.map_map]
    exact h.nodup
  have hfit := h.fit
  rw [hkey] at hfit
  have hconf := configureDevice_peers (k := k.setDevice i.name (some (newDevice i key))) hl
    (setDevice_faultFree hf i.name _) (setDevice_self k i.name _) true hips hnd hfit
  rw [Proc.bind_of_ok hnew, Proc.bind_of_ok hcfg, Proc.bind_of_ok hconf, setDevice_setDevice,
    if_pos rfl, foldl_setConfig]
  unfold loadedDevice
  rw [hkey]
  rfl

/-- The loop: every interface gets its device, and the other devices stay. -/
theorem loadInterfaces_eq : ∀ (intfs : List Interface) (t : Table Interface.name) (index : String → Option String)
    {k : Kernel}, k.driver.Lawful τ → k.FaultFree → k.validName = validName →
    (∀ i ∈ intfs, Loadable validName τ peers i) → (intfs.map Interface.name).Nodup →
    (intfs.map fun i => port16 i.port).Nodup →
    (∀ i ∈ intfs, ∀ name d, k.devices name = some d → d.listenPort ≠ port16 i.port) →
    ∃ k', loadInterfaces peers intfs t index k =
        (.ok (intfs.foldl Table.upsert t, intfs.foldl (fun ix i => indexPeers ix i.name (peers i.name)) index), k') ∧
      k'.driver = k.driver ∧ k'.FaultFree ∧ k'.validName = validName ∧
      (∀ i ∈ intfs, k'.devices i.name = loadedDevice peers i) ∧
      ∀ name, name ∉ intfs.map Interface.name → k'.devices name = k.devices name
  | [], _, _, k, _, hf, hv, _, _, _, _ => ⟨k, rfl, rfl, hf, hv, fun _ h => (List.not_mem_nil h).elim, fun _ _ => rfl⟩
  | i :: intfs, t, index, k, hl, hf, hv, hload, hnd, hports, hfree => by
    rw [List.map_cons, List.nodup_cons] at hnd hports
    -- the device that is added has the port of its interface, which no other one wants
    have hfree' : ∀ i' ∈ intfs, ∀ name d, (k.setDevice i.name (loadedDevice peers i)).devices name = some d →
        d.listenPort ≠ port16 i'.port := by
      intro i' hi' name d hd heq
      by_cases hname : name = i.name
      · rw [hname, setDevice_self] at hd
        obtain ⟨key, -, rfl⟩ := Option.map_eq_some_iff.1 hd
        exact hports.1 (List.mem_map.2 ⟨i', hi', heq.symm⟩)
      · rw [setDevice_of_ne _ hname] at hd
        exact hfree i' (List.mem_cons_of_mem _ hi') name d hd heq
    obtain ⟨k', ho, hdrv, hf', hv', hin, hout⟩ := loadInterfaces_eq intfs (t.upsert i)
      (indexPeers index i.name (peers i.name)) (k := k.setDevice i.name (loadedDevice peers i)) hl
      (setDevice_faultFree hf i.name _) ((setDevice_validName k i.name _).trans hv)
      (fun i' hi' => hload i' (List.mem_cons_of_mem _ hi')) hnd.2 hports.2 hfree'
    refine ⟨k', ?_, hdrv, hf', hv', ?_, ?_⟩
    · rw [loadInterfaces, loadInterface_eq (hload i List.mem_cons_self) hl hf hv (hfree i List.mem_cons_self), ho]
      rfl
    · intro i' hi'
      rcases List.mem_cons.1 hi' with rfl | hi'
      · rw [hout _ hnd.1, setDevice_self]
      · exact hin i' hi'
    · intro name hm
      rw [List.map_cons, List.mem_cons, not_or] at hm
      rw [hout name hm.2, setDevice_of_ne _ hm.1]

end Load

theorem mem_keys_foldl_upsert {name : String} : ∀ (intfs : List Interface) (t : Table Interface.name),
    name ∈ (intfs.foldl Table.upsert t).keys ↔ name ∈ intfs.map Interface.name ∨ name ∈ t.keys
  | [], t => ⟨.inr, fun h => h.resolve_left List.not_mem_nil⟩
  | i :: intfs, t => by
    rw [List.foldl_cons, mem_keys_foldl_upsert intfs (t.upsert i), Table.mem_keys_upsert, List.map_cons, List.mem_cons]
    exact or_left_comm.trans or_assoc.symm

theorem indexPeers_of_mem {name key : String} : ∀ {ps : List Peer} {index : String → Option String},
    key ∈ ps.map Peer.publicKey ∨ index key = some name → indexPeers index name ps key = some name
  | [], _, h => h.resolve_left List.not_mem_nil
  | p :: ps, index, h => by
    change indexPeers (Function.update index p.publicKey (some name)) name ps key = _
    refine indexPeers_of_mem ?_
    by_cases hk : key = p.publicKey
    · exact .inr (by rw [hk, Function.update_self])
    · rw [Function.update_of_ne hk]
      exact h.imp_left fun hm => (List.mem_cons.1 hm).resolve_left hk

theorem indexPeers_of_not_mem {name key : String} : ∀ {ps : List Peer} {index : String → Option String},
    key ∉ ps.map Peer.publicKey → indexPeers index name ps key = index key
  | [], _, _ => rfl
  | p :: ps, index, h => by
    rw [List.map_cons, List.mem_cons, not_or] at h
    exact (indexPeers_of_not_mem h.2).trans (Function.update_of_ne h.1 _ _)

/-- A key that only the peers of one interface have is indexed there. -/
theorem foldl_indexPeers {peers : String → List Peer} {key name : String} : ∀ (intfs : List Interface)
    {index : String → Option String}, (∀ i ∈ intfs, key ∈ (peers i.name).map Peer.publicKey → i.name = name) →
    (∃ i ∈ intfs, key ∈ (peers i.name).map Peer.publicKey) ∨ index key = some name →
    intfs.foldl (fun ix i => indexPeers ix i.name (peers i.name)) index key = some name
  | [], _, _, h => h.resolve_left fun ⟨_, hi, _⟩ => List.not_mem_nil hi
  | i :: intfs, index, honly, h => by
    rw [List.foldl_cons]
    refine foldl_indexPeers intfs (fun i' hi' => honly i' (List.mem_cons_of_mem _ hi')) ?_
    by_cases hk : key ∈ (peers i.name).map Peer.publicKey
    · have hname := honly i List.mem_cons_self hk
      exact .inr (by rw [← hname]; exact indexPeers_of_mem (.inl hk))
    · rw [indexPeers_of_not_mem hk]
      refine h.imp_left ?_
      rintro ⟨i', hi', hk'⟩
      rcases List.mem_cons.1 hi' with rfl | hi'
      · exact absurd hk' hk
      · exact ⟨i', hi', hk'⟩

/-! ## The objects of the tables -/

section Scanned

variable {ρ α κ : Type}

variable {scan : ρ → Except Error α}

theorem mem_scanned {rows : List ρ} {objs : List α} (h : rows.mapM scan = .ok objs) {a : α} :
    a ∈ objs ↔ ∃ r ∈ rows, scan r = .ok a := by
  have himages : rows.map scan = objs.map .ok := map_eq_of_forall₂ (fun _ _ => id) (mapM_eq_ok_iff.1 h)
  rw [← List.mem_map, himages, List.mem_map]
  constructor
  · exact fun ha => ⟨a, ha, rfl⟩
  · rintro ⟨a', ha', heq⟩
    cases heq
    exact ha'

theorem map_scanned {f : α → κ} {g : ρ → κ} (hfg : ∀ r a, scan r = .ok a → f a = g r) {rows : List ρ} {objs : List α}
    (h : rows.mapM scan = .ok objs) : objs.map f = rows.map g :=
  (map_eq_of_forall₂ (fun r a hr => (hfg r a hr).symm) (mapM_eq_ok_iff.1 h)).symm

end Scanned

/-- What a snapshot of the tables holds, in any order. -/
structure Holds (t : Tables) (items : List Value) : Prop where
  interfaces : ∀ i, i ∈ snapshotInterfaces items ↔ ∃ r ∈ t.interfaces.rows, r.scan = .ok i
  names : ((snapshotInterfaces items).map Interface.name).Nodup
  peers : ∀ name p, p ∈ snapshotPeers items name ↔ ∃ r ∈ t.peers.rows, r.scan = .ok p ∧ r.interface = name
  keys : ∀ name, ((snapshotPeers items name).map Peer.publicKey).Nodup

theorem snapshotInterfaces_objects (is : List Interface) (ps : List Peer) (ts : List Token) :
    snapshotInterfaces (is.map .interface ++ ps.map .peer ++ ts.map .token) = is := by
  simp [snapshotInterfaces, List.filterMap_map, Function.comp_def, asInterface]

theorem snapshotPeers_objects (is : List Interface) (ps : List Peer) (ts : List Token) (name : String) :
    snapshotPeers (is.map .interface ++ ps.map .peer ++ ts.map .token) name =
      ps.filter fun p => decide (p.interface = name) := by
  rw [← List.filterMap_eq_filter]
  simp [snapshotPeers, List.filterMap_map, Function.comp_def, asPeerOf, Option.guard_def]

/-- A permutation of the objects of the tables holds them. -/
theorem Holds.of_perm {t : Tables} {objs items : List Value} (ho : t.objects = .ok objs) (hp : items.Perm objs) :
    Holds t items := by
  unfold Tables.objects at ho
  cases hi : t.interfaces.rows.mapM InterfaceRow.scan with
  | error e => rw [hi] at ho; cases ho
  | ok is =>
    cases hq : t.peers.rows.mapM PeerRow.scan with
    | error e => rw [hi, hq] at ho; cases ho
    | ok ps =>
      rw [hi, hq] at ho
      cases ho
      -- splitSnapshot keeps the order of the items, and the items are the objects in any order
      have hintfs : (snapshotInterfaces items).Perm is := by
        have h := hp.filterMap asInterface
        rw [← snapshotInterfaces_objects is ps (t.tokens.rows.map TokenRow.scan), List.map_map]
        exact h
      have hpeers : ∀ name, (snapshotPeers items name).Perm (ps.filter fun p => decide (p.interface = name)) := by
        intro name
        have h := hp.filterMap (asPeerOf name)
        rw [← snapshotPeers_objects is ps (t.tokens.rows.map TokenRow.scan), List.map_map]
        exact h
      constructor
      · intro i
        rw [hintfs.mem_iff, mem_scanned hi]
      · have hnames : is.map Interface.name = t.interfaces.rows.map InterfaceRow.name :=
          map_scanned (fun r i h => (InterfaceRow.scan_eq h).1) hi
        rw [(hintfs.map Interface.name).nodup_iff, hnames]
        exact t.interfaces.nodup
      · intro name p
        rw [(hpeers name).mem_iff, List.mem_filter, mem_scanned hq, decide_eq_true_iff]
        constructor
        · rintro ⟨⟨r, hr, hs⟩, hname⟩
          exact ⟨r, hr, hs, (PeerRow.scan_eq hs).2.symm.trans hname⟩
        · rintro ⟨r, hr, hs, hname⟩
          exact ⟨⟨r, hr, hs⟩, (PeerRow.scan_eq hs).2.trans hname⟩
      · intro name
        have hkeys : ps.map Peer.publicKey = t.peers.rows.map PeerRow.publicKey :=
          map_scanned (fun r p h => (PeerRow.scan_eq h).1) hq
        rw [((hpeers name).map Peer.publicKey).nodup_iff]
        refine List.Nodup.sublist (List.filter_sublist.map Peer.publicKey) ?_
        rw [hkeys]
        exact t.peers.nodup

/-! ## Loading the tables -/

section Loading

variable {validName : String → Bool} {τ : Terms} {t : Tables} {items : List Value}

/-- A peer of the snapshot, with its row and its key. -/
theorem Holds.peer (hh : Holds t items) (hs : Sound t) {name : String} {p : Peer}
    (hp : p ∈ snapshotPeers items name) :
    ∃ r ∈ t.peers.rows, r.scan = .ok p ∧ r.interface = name ∧ Usable p (peerKey p) ∧
      (peerKey p).string = r.publicKey := by
  obtain ⟨r, hr, hscan, hname⟩ := (hh.peers name p).1 hp
  obtain ⟨p', key, hscan', hu, hstr⟩ := hs.peers r hr
  rw [hscan] at hscan'
  cases hscan'
  have hkey := hu.peerKey_eq
  exact ⟨r, hr, hscan, hname, hkey ▸ hu, hkey ▸ hstr⟩

theorem Holds.peerKey_nodup (hh : Holds t items) (hs : Sound t) (name : String) :
    ((snapshotPeers items name).map peerKey).Nodup := by
  have hmap : ((snapshotPeers items name).map peerKey).map Key.string =
      (snapshotPeers items name).map Peer.publicKey := by
    rw [List.map_map]
    refine List.map_congr_left fun p hp => ?_
    obtain ⟨r, -, hscan, -, -, hstr⟩ := hh.peer hs hp
    exact hstr.trans (PeerRow.scan_eq hscan).1.symm
  exact List.Nodup.of_map Key.string (hmap ▸ hh.keys name)

/-- Peers of one interface fit on its device beside others of them. -/
theorem Holds.fit (hh : Holds t items) (hs : Sound t) (ht : Hostable validName τ t) {name : String} {own : Option Key}
    (hown : ∃ i ∈ t.interfaces.rows, i.name = name ∧ own = parseKey i.privateKey) : ∀ (ps : List Peer)
    {peers : Key → Option WgPeer}, (∀ p ∈ ps, p ∈ snapshotPeers items name) →
    (∀ key w, peers key = some w → peersOf t name key = some w) →
    AllFit τ own peers (ps.map fun p => setConfig p (peerKey p) false)
  | [], _, _, _ => trivial
  | p :: ps, peers, hps, hpeers => by
    obtain ⟨r, hr, hscan, rfl, hu, hstr⟩ := hh.peer hs (hps p List.mem_cons_self)
    refine ⟨ht.fits hr hscan hu hstr hown (fun key w _ => hpeers key w) false, ?_⟩
    refine hh.fit hs ht hown ps (fun p' hp' => hps p' (List.mem_cons_of_mem _ hp')) fun key w hw => ?_
    rw [setConfig_apply] at hw
    change Function.update peers (peerKey p) (some (wgPeer p)) key = some w at hw
    by_cases hk : key = peerKey p
    · rw [hk, Function.update_self] at hw
      rw [hk, peersOf_of_row hr hscan hstr, hw]
    · rw [Function.update_of_ne hk] at hw
      exact hpeers key w hw

theorem Holds.loadable (hh : Holds t items) (hs : Sound t) (ht : Hostable validName τ t) {i : Interface}
    (hi : i ∈ snapshotInterfaces items) : Loadable validName τ (snapshotPeers items) i := by
  obtain ⟨r, hr, hscan⟩ := (hh.interfaces i).1 hi
  obtain ⟨_, key, -, hkey⟩ := hs.interfaces r hr
  obtain ⟨hname, -, -, hpriv⟩ := InterfaceRow.scan_eq hscan
  refine ⟨ht.granted r hr i hscan, ⟨key, hpriv ▸ hkey⟩, ?_, hh.peerKey_nodup hs i.name, ?_⟩
  · intro p hp
    obtain ⟨r', -, -, -, hu, -⟩ := hh.peer hs hp
    exact ⟨peerKey p, hu⟩
  · refine hh.fit hs ht ⟨r, hr, hname.symm, by rw [hpriv]⟩ _ (fun _ hp => hp) fun _ _ hw => ?_
    cases hw

/-- The interfaces want different ports. -/
theorem Holds.ports (hh : Holds t items) (ht : Hostable validName τ t) :
    ((snapshotInterfaces items).map fun i => port16 i.port).Nodup := by
  refine List.Nodup.map_on (fun i hi i' hi' heq => ?_) (List.Nodup.of_map _ hh.names)
  obtain ⟨r, hr, hscan⟩ := (hh.interfaces i).1 hi
  obtain ⟨r', hr', hscan'⟩ := (hh.interfaces i').1 hi'
  obtain ⟨hname, hport, -⟩ := InterfaceRow.scan_eq hscan
  obtain ⟨hname', hport', -⟩ := InterfaceRow.scan_eq hscan'
  refine List.inj_on_of_nodup_map hh.names hi hi' ?_
  rw [hname, hname']
  exact ht.ports r hr r' hr' (by rw [← hport, ← hport']; exact heq)

/-- The peers of an interface, loaded one after the other in the order of the snapshot. -/
theorem Holds.loadedPeers_eq (hh : Holds t items) (hs : Sound t) (name : String) :
    loadedPeers (snapshotPeers items name) (fun _ => none) = peersOf t name := by
  funext key
  by_cases hm : ∃ p ∈ snapshotPeers items name, peerKey p = key
  · obtain ⟨p, hp, rfl⟩ := hm
    obtain ⟨r, hr, hscan, rfl, -, hstr⟩ := hh.peer hs hp
    rw [loadedPeers_of_mem (hh.peerKey_nodup hs r.interface) hp, peersOf_of_row hr hscan hstr]
  · rw [loadedPeers_of_not_mem fun p hp heq => hm ⟨p, hp, heq⟩]
    unfold peersOf
    cases hf : t.peers.find? key.string with
    | none => rfl
    | some r =>
      obtain ⟨hr, hk⟩ := Table.find?_eq_some.1 hf
      refine (if_neg fun hname => hm ?_).symm
      obtain ⟨p, key', hscan, hu, hstr⟩ := hs.peers r hr
      refine ⟨p, (hh.peers name p).2 ⟨r, hr, hscan, hname⟩, ?_⟩
      rw [hu.peerKey_eq]
      exact Key.string_inj (hstr.trans hk)

theorem Holds.loadedDevice_eq (hh : Holds t items) (hs : Sound t) {i : Interface} (hi : i ∈ snapshotInterfaces items) :
    loadedDevice (snapshotPeers items) i = deviceOf t i.name := by
  obtain ⟨r, hr, hscan⟩ := (hh.interfaces i).1 hi
  obtain ⟨_, key, -, hkey⟩ := hs.interfaces r hr
  obtain ⟨hname, -, -, hpriv⟩ := InterfaceRow.scan_eq hscan
  rw [← hpriv] at hkey
  rw [deviceOf_eq (Table.find?_eq_some.2 ⟨hr, hname.symm⟩) hscan hkey]
  unfold loadedDevice
  rw [hkey, hh.loadedPeers_eq hs]
  rfl

theorem Holds.mem_names (hh : Holds t items) (hs : Sound t) (name : String) :
    name ∈ (snapshotInterfaces items).map Interface.name ↔ name ∈ t.interfaces.keys := by
  rw [List.mem_map, Table.mem_keys]
  constructor
  · rintro ⟨i, hi, rfl⟩
    obtain ⟨r, hr, hscan⟩ := (hh.interfaces i).1 hi
    exact ⟨r, hr, (InterfaceRow.scan_eq hscan).1.symm⟩
  · rintro ⟨r, hr, rfl⟩
    obtain ⟨i, -, hscan, -⟩ := hs.interfaces r hr
    exact ⟨i, (hh.interfaces i).2 ⟨r, hr, hscan⟩, (InterfaceRow.scan_eq hscan).1⟩

/-- Whatever tables the gateway had the devices of, it has those of the snapshot afterwards. -/
theorem loadSnapshot_refines {t₀ : Tables} {g : Gateway} (h : Refines validName τ noneLeft t₀ g) (hs : Sound t)
    (ht : Hostable validName τ t) (hh : Holds t items) (seq : Nat) :
    ∃ g', loadSnapshot ⟨seq, items⟩ g = (.ok (), g') ∧ Refines validName τ noneLeft t g' ∧ g'.seq = seq := by
  -- stop everything, then start from nothing
  obtain ⟨k₁, hclose, hf₁, hv₁, hdrv₁, hd₁⟩ := closeAllInterfaces_eq g.intfs.rows h.faultFree
  have hnone : ∀ name, k₁.devices name = none := by
    intro name
    rw [hd₁]
    split
    · rfl
    · rename_i hold
      rw [h.hosts.eq_deviceOf fun _ _ => id]
      exact deviceOf_absent fun hk => hold ((h.keys name).2 hk)
  have hl₁ : k₁.driver.Lawful τ := hdrv₁ ▸ h.lawful
  obtain ⟨k₂, hload, hdrv₂, hf₂, hv₂, hin, hout⟩ := loadInterfaces_eq (snapshotInterfaces items) Table.empty
    (fun _ => none) hl₁ hf₁ (hv₁.trans h.names) (fun i hi => hh.loadable hs ht hi) hh.names (hh.ports ht)
    fun _ _ name d hd => by rw [hnone name] at hd; cases hd
  have ho : loadSnapshot ⟨seq, items⟩ g = (.ok (), { g with
      intfs := (snapshotInterfaces items).foldl Table.upsert Table.empty
      peerIndex := (snapshotInterfaces items).foldl (fun ix i => indexPeers ix i.name (snapshotPeers items i.name))
        fun _ => none
      seq := seq
      kernel := k₂ }) := by
    unfold loadSnapshot
    rw [Proc.bind_of_ok (Proc.get_apply g), Proc.bind_of_ok (onKernel_of_ok hclose)]
    exact Proc.bind_of_ok (onKernel_of_ok (g := { g with kernel := k₁ }) hload)
  refine ⟨_, ho, ⟨hf₂, hv₂, hdrv₂ ▸ hl₁, ?_, ⟨?_, ?_⟩, ?_, hs⟩, rfl⟩
  · intro name
    show name ∈ ((snapshotInterfaces items).foldl Table.upsert Table.empty).keys ↔ _
    rw [mem_keys_foldl_upsert, hh.mem_names hs]
    exact ⟨fun hm => hm.resolve_right List.not_mem_nil, .inl⟩
  · intro name hname
    obtain ⟨i, hi, rfl⟩ := List.mem_map.1 ((hh.mem_names hs name).2 hname)
    exact (hin i hi).trans (hh.loadedDevice_eq hs hi)
  · intro name hname d hd
    have hgone : k₂.devices name = none :=
      (hout name fun hm => hname ((hh.mem_names hs name).1 hm)).trans (hnone name)
    rw [hgone] at hd
    cases hd
  · intro r hr
    obtain ⟨p, key, hscan, -, -⟩ := hs.peers r hr
    obtain ⟨hpk, hpi⟩ := PeerRow.scan_eq hscan
    -- a public key is in one row only, so no later interface takes the entry over
    refine foldl_indexPeers (snapshotInterfaces items) ?_ (.inl ?_)
    · intro i hi hk
      obtain ⟨p', hp', hk'⟩ := List.mem_map.1 hk
      obtain ⟨r', hr', hscan', hname'⟩ := (hh.peers i.name p').1 hp'
      have hsame : r' = r := Table.row_unique hr' hr ((PeerRow.scan_eq hscan').1.symm.trans hk')
      rw [← hname', hsame]
    · obtain ⟨i, hi, hname⟩ := List.mem_map.1 ((hh.mem_names hs r.interface).2 (t.foreignKey r hr))
      exact ⟨i, hi, List.mem_map.2 ⟨p, (hh.peers i.name p).2 ⟨r, hr, hscan, hname.symm⟩, hpk⟩⟩

end Loading

/-! ## Replay and snapshot -/

/-- The gateway shows the tables: it has the devices they describe and no other; every interface row
has its device, and every peer row its peer. -/
structure Shows (t : Tables) (g : Gateway) : Prop where
  devices : g.kernel.devices = deviceOf t
  interfaces : ∀ r ∈ t.interfaces.rows, ∃ i key, r.scan = .ok i ∧ parseKey r.privateKey = some key ∧
    deviceOf t r.name = some (interfaceDevice i key (peersOf t r.name))
  peers : ∀ r ∈ t.peers.rows, ∃ p key, r.scan = .ok p ∧ parseKey r.publicKey = some key ∧
    peersOf t r.interface key = some (wgPeer p)

theorem Refines.shows {validName : String → Bool} {τ : Terms} {left : String → Nat → Prop} {t : Tables} {g : Gateway}
    (h : Refines validName τ left t g) (hnone : ∀ name port, ¬ left name port) : Shows t g := by
  refine ⟨h.hosts.eq_deviceOf hnone, ?_, ?_⟩
  · intro r hr
    obtain ⟨i, key, hscan, hkey⟩ := h.sound.interfaces r hr
    refine ⟨i, key, hscan, hkey, deviceOf_eq (Table.find?_eq_some.2 ⟨hr, rfl⟩) hscan ?_⟩
    rw [(InterfaceRow.scan_eq hscan).2.2.2]
    exact hkey
  · intro r hr
    obtain ⟨p, key, hscan, -, hstr, hkey⟩ := h.sound.peer_row hr
    exact ⟨p, key, hscan, hkey, peersOf_of_row hr hscan hstr⟩

/-- Requests that the primary accepts in the state `s`, and that make a plain log. -/
structure PlainLog (stack : Nat) (s : Datastore Tables Value) (reqs : List (Request Value)) : Prop where
  accepted : ∀ x ∈ (Datastore.requests (crud stack) encoding reqs s).1, x = .ok ()
  plain : AllPlain s.db.tables (reqs.map Request.call)

/-- The datastore after some requests. -/
def after (stack : Nat) (s : Datastore Tables Value) (reqs : List (Request Value)) : Datastore Tables Value :=
  (Datastore.requests (crud stack) encoding reqs s).2

/-- A plain log whose tables the host can have, all of them. -/
structure HostedLog (validName : String → Bool) (τ : Terms) (stack : Nat) (s : Datastore Tables Value)
    (reqs : List (Request Value)) : Prop extends PlainLog stack s reqs where
  hosted : AllHostable validName τ s.db.tables (reqs.map Request.call)

section Hosted

variable {stack : Nat} {validName : String → Bool} {τ : Terms}

/-- A gateway that has followed the primary so far follows such a log. -/
theorem HostedLog.replay {s : Datastore Tables Value} {reqs : List (Request Value)} {g : Gateway}
    (h : HostedLog validName τ stack s reqs) (hq : s.pubsub.Quiet) (hr : Refines validName τ noneLeft s.db.tables g)
    (hseq : g.seq = s.db.sequence) :
    ∃ rows g', (after stack s reqs).db.log.rows = s.db.log.rows ++ rows ∧ Gateway.replay rows g = (.ok (), g') ∧
      Refines validName τ noneLeft (after stack s reqs).db.tables g' ∧ g'.seq = (after stack s reqs).db.sequence := by
  obtain ⟨hcalls, hlen, rows, hrows, hdec⟩ := requests_ok stack reqs hq h.accepted
  rw [← hseq] at hdec
  obtain ⟨g', ho, hr', hseq'⟩ := Refines.run (reqs.map Request.call) hr hcalls h.plain h.hosted
  refine ⟨rows, g', hrows, by rw [replay_eq hdec]; exact ho, hr', ?_⟩
  rw [hseq', hseq, List.length_map]
  exact hlen.symm

theorem AllHostable.last :
    ∀ {cs : List (Call Value)} {t t' : Tables}, AllHostable validName τ t cs → Hostable validName τ t →
    calls t cs = .ok t' → Hostable validName τ t'
  | [], t, t', _, ht, hc => by cases hc; exact ht
  | c :: cs, t, t', h, _, hc => by
    rw [calls] at hc
    cases hc₁ : call t c with
    | error e => rw [hc₁] at hc; cases hc
    | ok t₁ =>
      rw [hc₁] at hc
      exact AllHostable.last (h t₁ hc₁).2 (h t₁ hc₁).1 hc

/-- The tables after the log are such tables too. -/
theorem HostedLog.hostable {reqs : List (Request Value)} (h : HostedLog validName τ stack Store.fresh reqs) :
    Hostable validName τ (after stack Store.fresh reqs).db.tables := by
  obtain ⟨hcalls, -⟩ := requests_ok stack reqs (s := Store.fresh) Pubsub.Quiet.new h.accepted
  refine h.hosted.last ⟨?_, ?_, ?_, ?_, ?_⟩ hcalls <;> exact fun _ hr => (List.not_mem_nil hr).elim

/-- On a host whose driver is lawful, a fresh gateway that replays a plain log of `N` rows whose tables the host
can have, and a gateway that has followed any other such log and then loads a snapshot of the tables with its
items in any order, both show the tables at the sequence number `N`, and have the same devices after every
further such log. -/
theorem gateway_refines_tables (stack : Nat) (validName : String → Bool) {driver : Driver} (hl : driver.Lawful τ)
    {reqs more others : List (Request Value)} (hreqs : HostedLog validName τ stack Store.fresh reqs)
    (hmore : HostedLog validName τ stack (after stack Store.fresh reqs) more)
    (hothers : HostedLog validName τ stack Store.fresh others) {objs items : List Value}
    (hobjs : (after stack Store.fresh reqs).db.tables.objects = .ok objs) (hitems : items.Perm objs) :
    (after stack Store.fresh reqs).db.sequence = reqs.length ∧
    ∃ g g₀ g₁,
      Gateway.replay (after stack Store.fresh reqs).db.log.rows (new (Kernel.host validName driver)) = (.ok (), g) ∧
      Gateway.replay (after stack Store.fresh others).db.log.rows (new (Kernel.host validName driver)) = (.ok (), g₀) ∧
      loadSnapshot ⟨(after stack Store.fresh reqs).db.sequence, items⟩ g₀ = (.ok (), g₁) ∧
      Shows (after stack Store.fresh reqs).db.tables g ∧ g.seq = reqs.length ∧
      Shows (after stack Store.fresh reqs).db.tables g₁ ∧ g₁.seq = reqs.length ∧
      ∃ rows g' g₁', (after stack (after stack Store.fresh reqs) more).db.log.rows =
          (after stack Store.fresh reqs).db.log.rows ++ rows ∧
        Gateway.replay rows g = (.ok (), g') ∧ Gateway.replay rows g₁ = (.ok (), g₁') ∧
        g'.kernel.devices = g₁'.kernel.devices ∧
        Shows (after stack (after stack Store.fresh reqs) more).db.tables g' := by
  have hlen : (after stack Store.fresh reqs).db.sequence = reqs.length :=
    (requests_ok stack reqs (s := Store.fresh) Pubsub.Quiet.new hreqs.accepted).2.1.trans (Nat.zero_add _)
  have hquiet : (after stack Store.fresh reqs).pubsub.Quiet :=
    (Datastore.requests_spec (model_replayable stack) reqs (s := Store.fresh) Pubsub.Quiet.new
      (Database.Integral.fresh (crud stack) encoding Tables.empty)).1
  have hstart : Refines validName τ noneLeft Tables.empty (new (Kernel.host validName driver)) :=
    .start rfl rfl hl fun _ _ hd => by cases hd
  have hno : ∀ name port, ¬ noneLeft name port := fun _ _ => id
  obtain ⟨rows, g, hrows, ho, hr, hseq⟩ := hreqs.replay Pubsub.Quiet.new hstart rfl
  obtain ⟨rows₀, g₀, hrows₀, ho₀, hr₀, -⟩ := hothers.replay Pubsub.Quiet.new hstart rfl
  obtain ⟨g₁, hload, hr₁, hseq₁⟩ := loadSnapshot_refines hr₀ hr.sound hreqs.hostable (Holds.of_perm hobjs hitems)
    (after stack Store.fresh reqs).db.sequence
  obtain ⟨rest, g', hrest, ho', hr', -⟩ := hmore.replay hquiet hr hseq
  obtain ⟨rest', g₁', hrest', ho₁', hr₁', -⟩ := hmore.replay hquiet hr₁ hseq₁
  have hsame : rest' = rest := List.append_cancel_left (hrest'.symm.trans hrest)
  subst hsame
  refine ⟨hlen, g, g₀, g₁, ?_, ?_, hload, hr.shows hno, hseq.trans hlen, hr₁.shows hno,
    hseq₁.trans hlen, rest', g', g₁', hrest, ho', ho₁',
    (hr'.hosts.eq_deviceOf hno).trans (hr₁'.hosts.eq_deviceOf hno).symm, hr'.shows hno⟩
  · rw [hrows]; exact ho
  · rw [hrows₀]; exact ho₀

end Hosted

/-- The terms of a host that takes every address and port but 0, and keeps every key. -/
def sampleTerms : Terms := ⟨fun _ => true, fun port => port ≠ 0, fun _ => true, fun key => key⟩

/-- The peer of the plain requests is deleted. -/
def deleteRequests : List (Request Value) := [⟨.delete (.peer (samplePeer "wg0")), Time.zero, true⟩]

/-- Another interface. -/
def otherRequests : List (Request Value) := [⟨.create (.interface (sampleInterface "wg1")), Time.zero, true⟩]

theorem canonicalKey_of_string {s : String} (h : (parseKey s).map Key.string = some s) : CanonicalKey s := by
  obtain ⟨k, hk, hs⟩ := Option.map_eq_some_iff.1 h
  exact ⟨k, hk, hs⟩

theorem samplePeer_canonical : CanonicalKey (samplePeer "wg0").publicKey := canonicalKey_of_string (by decide +kernel)

theorem sampleInterface_plain (t : Tables) (name : String) : Plain t (.create (.interface (sampleInterface name))) :=
  ⟨parseKey_sampleInterface "", fun c hc => by rcases hc with hc | hc <;> cases hc⟩

theorem gateway_refines_tables_plainRequests : ∃ objs g₀ g₁ rows g',
    (after 8 Store.fresh plainRequests).db.tables.objects = .ok objs ∧
    Gateway.replay (after 8 Store.fresh otherRequests).db.log.rows
      (new (Kernel.host (fun _ => true) Driver.exclusive)) = (.ok (), g₀) ∧
    loadSnapshot ⟨2, objs.reverse⟩ g₀ = (.ok (), g₁) ∧ Shows (after 8 Store.fresh plainRequests).db.tables g₁ ∧
    Gateway.replay rows g₁ = (.ok (), g') := by
  have hpeer := samplePeer_configurable "wg0"
  have hreqs : HostedLog (fun _ => true) sampleTerms 8 Store.fresh plainRequests :=
    ⟨⟨by decide +kernel, sampleInterface_plain _ "wg0",
      fun _ _ => ⟨⟨samplePeer_canonical, hpeer.address, hpeer.nonempty⟩, fun _ _ => trivial⟩⟩, by decide +kernel⟩
  have hmore : HostedLog (fun _ => true) sampleTerms 8 (after 8 Store.fresh plainRequests) deleteRequests :=
    ⟨⟨by decide +kernel,
      (by decide +kernel : (samplePeer "wg0").publicKey ∈ (after 8 Store.fresh plainRequests).db.tables.peers.keys),
      fun _ _ => trivial⟩, by decide +kernel⟩
  have hothers : HostedLog (fun _ => true) sampleTerms 8 Store.fresh otherRequests :=
    ⟨⟨by decide +kernel, sampleInterface_plain _ "wg1", fun _ _ => trivial⟩, by decide +kernel⟩
  obtain ⟨objs, hobjs⟩ : ∃ objs, (after 8 Store.fresh plainRequests).db.tables.objects = .ok objs := by
    have h : ((after 8 Store.fresh plainRequests).db.tables.objects).toOption.isSome = true := by decide +kernel
    cases ho : (after 8 Store.fresh plainRequests).db.tables.objects with
    | ok objs => exact ⟨objs, rfl⟩
    | error e => rw [ho] at h; cases h
  obtain ⟨hlen, g, g₀, g₁, -, ho₀, hload, -, -, hshows, -, rows, g', g₁', -, -, hrest, -⟩ :=
    gateway_refines_tables 8 (fun _ => true) (Driver.exclusive_lawful sampleTerms) hreqs hmore hothers hobjs
      (List.reverse_perm objs)
  rw [hlen] at hload
  exact ⟨objs, g₀, g₁, rows, g₁', hobjs, ho₀, hload, hshows, hrest⟩

/-- An interface without a name, and one with a port of more than 16 bits. -/
def namelessRequests : List (Request Value) := [⟨.create (.interface (sampleInterface "")), Time.zero, true⟩]

def portRequests : List (Request Value) :=
  [⟨.create (.interface { sampleInterface "wg0" with port := 70000 }), Time.zero, true⟩]

/-- Another peer with the address of the first. -/
def sharingPeer : Peer := { samplePeer "wg0" with publicKey := "TrMvSoP4jYQlY6RIzBgbssQqY3vxI2Pi+y71lOWWXX0=" }

def sharedRequests : List (Request Value) := plainRequests ++ [⟨.create (.peer sharingPeer), Time.zero, true⟩]

/-- All three are plain logs. The gateway refuses the first; its device for the second has another port than the
row; and where a network goes to the last peer it was given to, the first peer of the third is left without its
address. -/
theorem gateway_not_refines_tables :
    (PlainLog 8 Store.fresh namelessRequests ∧
      (Gateway.replay (after 8 Store.fresh namelessRequests).db.log.rows (new sampleHost)).1 = .err .linkNameEmpty) ∧
    (PlainLog 8 Store.fresh portRequests ∧
      ((Gateway.replay (after 8 Store.fresh portRequests).db.log.rows (new sampleHost)).2.kernel.devices "wg0").map
        Device.listenPort = some 4464) ∧
    PlainLog 8 Store.fresh sharedRequests ∧
      (((Gateway.replay (after 8 Store.fresh sharedRequests).db.log.rows
          (new (Kernel.host (fun _ => true) Driver.exclusive))).2.kernel.devices "wg0").bind fun d =>
        ((parseKey (samplePeer "wg0").publicKey).bind d.peers).map WgPeer.allowedIPs) = some [] := by
  have hpeer := samplePeer_configurable "wg0"
  have hkey : CanonicalKey sharingPeer.publicKey := canonicalKey_of_string (by decide +kernel)
  refine ⟨⟨⟨by decide +kernel, sampleInterface_plain _ "", fun _ _ => trivial⟩, by decide +kernel⟩,
    ⟨⟨by decide +kernel, ⟨?_, ?_⟩, fun _ _ => trivial⟩, by decide +kernel⟩,
    ⟨by decide +kernel, sampleInterface_plain _ "wg0", fun _ _ =>
      ⟨⟨samplePeer_canonical, hpeer.address, hpeer.nonempty⟩, fun _ _ =>
        ⟨⟨hkey, hpeer.address, hpeer.nonempty⟩, fun _ _ => trivial⟩⟩⟩, by decide +kernel⟩
  · decide +kernel
  · rintro c (hc | hc) <;> cases hc

end Wig.Gateway
