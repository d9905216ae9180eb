/-
`Gateway`: the interfaces and peers of the log turned into devices. `peerIndex` says on which
interface a peer was last configured. A nil `*wgInterface` that is dereferenced ends the process.
-/
import Wig.Crudlog.Datastore
import Wig.Gateway.Interface
import Wig.Lib.System
import Wig.Model.Registered

namespace Wig

open Wig.Lib Wig.Net Wig.Model Wig.Crudlog

structure Gateway where
  intfs : Table Interface.name
  peerIndex : String → Option String
  seq : Nat
  kernel : Gateway.Kernel

namespace Gateway

open Kernel

/-! ## Peers -/

/-- Ten seconds. -/
def persistentKeepaliveInterval : Nat := 10

def peerToConfig (peer : Peer) (update remove : Bool) : Except Error PeerConfig :=
  match parseKey peer.publicKey with
  | none => .error .parseKey
  | some key =>
    let c : PeerConfig :=
      { publicKey := key, remove := remove, updateOnly := update, presharedKey := some Key.zero
        persistentKeepaliveInterval := none, replaceAllowedIPs := false, allowedIPs := [] }
    if remove then .ok c
    else if networks peer.ip peer.ip6 = [] then .error .noIPs
    else .ok { c with
      allowedIPs := networks peer.ip peer.ip6
      replaceAllowedIPs := true
      persistentKeepaliveInterval := some Gateway.persistentKeepaliveInterval }

/-- The configuration of a peer that is removed. -/
def removeConfig (key : Key) : PeerConfig := ⟨key, true, false, some Key.zero, none, false, []⟩

theorem peerToConfig_remove (p : Peer) :
    peerToConfig p false true = match parseKey p.publicKey with
      | none => .error .parseKey
      | some key => .ok (removeConfig key) := by
  unfold peerToConfig
  cases parseKey p.publicKey <;> rfl

/-- `wgtypes.PeerConfig{}`, which comes with an error. -/
def zeroPeerConfig : PeerConfig := ⟨Key.zero, false, false, none, none, false, []⟩

/-- `wgtypes.Config{Peers: peers}`. -/
def peersConfig (replacePeers : Bool) (peers : List PeerConfig) : Config :=
  { privateKey := none, listenPort := none, firewallMark := none, replacePeers := replacePeers, peers := peers }

/-! ## Calls -/

/-- A gateway that has just been started. -/
def new (k : Kernel) : Gateway := ⟨Table.empty, fun _ => none, 0, k⟩

def onKernel {α : Type} (x : Proc Kernel Error α) : Proc Gateway Error α :=
  Proc.zoom kernel (fun k g => { g with kernel := k }) x

/-- The lookup of a missing key gives the empty string. -/
def indexed (g : Gateway) (key : String) : String := (g.peerIndex key).getD ""

/-- The empty name stands for a peer that is not in the index. -/
theorem indexed_eq_iff {g : Gateway} {key name : String} (hne : name ≠ "") :
    g.indexed key = name ↔ g.peerIndex key = some name := by
  unfold indexed
  cases g.peerIndex key with
  | none => exact ⟨fun h => absurd h.symm hne, fun h => (by cases h)⟩
  | some name' => simp

def setIndex (key name : String) : Proc Gateway Error Unit :=
  .modify fun g => { g with peerIndex := Function.update g.peerIndex key (some name) }

def configureWGDevice (wgi : Option Interface) (cfg : Config) : Proc Gateway Error Unit :=
  match wgi with
  | none => .crash
  | some i => onKernel (configureDevice i.name cfg)

/-- The interface is replaced in place, also when what comes after fails. -/
def reconfigure (wgi intf : Interface) : Proc Gateway Error Unit := do
  onKernel (stopInterface wgi)
  Proc.modify fun g => { g with intfs := g.intfs.replace intf }
  onKernel (initializeInterface intf)
  onKernel (startInterface intf)

def applyInterface (opType : OpType) (intf : Interface) : Proc Gateway Error Unit := do
  let g ← Proc.get
  match opType, g.intfs.find? intf.name with
  | .create, some _ => .fail .interfaceExists
  | .create, none => do
    onKernel (newInterface intf)
    Proc.modify fun g => { g with intfs := g.intfs.upsert intf }
  | .update, none => .fail .interfaceMissing
  | .update, some wgi => reconfigure wgi intf
  | .delete, none => .fail .interfaceMissing
  | .delete, some wgi => do
    Proc.ignoreErr (onKernel (stopInterface wgi))
    Proc.modify fun g => { g with intfs := g.intfs.erase intf.name }
  | .unknown _, _ => pure ()

/-- An update that changed interface takes the peer off the previous one. -/
def deconfigure (peer : Peer) : Proc Gateway Error Unit := do
  let g ← Proc.get
  let oldIntf := g.indexed peer.publicKey
  if oldIntf ≠ "" ∧ oldIntf ≠ peer.interface then
    let delCfg := match peerToConfig peer false true with
      | .ok cfg => cfg
      | .error _ => zeroPeerConfig
    Proc.ignoreErr (configureWGDevice (g.intfs.find? oldIntf) (peersConfig false [delCfg]))

def applyPeer (opType : OpType) (peer : Peer) : Proc Gateway Error Unit := do
  let g ← Proc.get
  match opType, g.intfs.find? peer.interface with
  | .create, none => .fail .interfaceMissing
  | .create, some wgi => do
    setIndex peer.publicKey peer.interface
    let cfg ← Proc.lift (peerToConfig peer false false)
    configureWGDevice (some wgi) (peersConfig false [cfg])
  | .update, none => .fail .interfaceMissing
  | .update, some wgi => do
    deconfigure peer
    setIndex peer.publicKey peer.interface
    let cfg ← Proc.lift (peerToConfig peer true false)
    configureWGDevice (some wgi) (peersConfig false [cfg])
  | .delete, _ => do
    let cfg ← Proc.lift (peerToConfig peer false true)
    configureWGDevice (g.intfs.find? (g.indexed peer.publicKey)) (peersConfig false [cfg])
  | .unknown _, _ => configureWGDevice none (peersConfig false [zeroPeerConfig])

/-- `fromLog` makes no difference. -/
def apply (op : Op Value) (_fromLog : Bool) : Proc Gateway Error Unit := do
  match op.value with
  | .peer p => applyPeer op.type p
  | .interface i => applyInterface op.type i
  | .token _ => pure ()
  | .other => pure ()
  Proc.modify fun g => { g with seq := op.seq }

/-! ## Snapshots -/

def closeAllInterfaces (intfs : List Interface) : Proc Kernel Error Unit :=
  Proc.forEach (fun i => Proc.ignoreErr (stopInterface i)) intfs

def asInterface : Value → Option Interface
  | .interface i => some i
  | _ => none

def asPeerOf (name : String) : Value → Option Peer
  | .peer p => if p.interface = name then some p else none
  | _ => none

/-- `splitSnapshot`, the interfaces. -/
def snapshotInterfaces (items : List Value) : List Interface := items.filterMap asInterface

/-- `splitSnapshot`, the peers of an interface. -/
def snapshotPeers (items : List Value) (name : String) : List Peer := items.filterMap (asPeerOf name)

def indexPeers (index : String → Option String) (name : String) (peers : List Peer) : String → Option String :=
  peers.foldl (fun index p => Function.update index p.publicKey (some name)) index

/-- The loop over the interfaces, with the two maps it fills. -/
def loadInterfaces (peers : String → List Peer) : List Interface → Table Interface.name → (String → Option String) →
    Proc Kernel Error (Table Interface.name × (String → Option String))
  | [], tmpIntfs, tmpPeerIndex => pure (tmpIntfs, tmpPeerIndex)
  | intf :: intfs, tmpIntfs, tmpPeerIndex => do
    newInterface intf
    let wgPeers ← Proc.lift ((peers intf.name).mapM fun peer => peerToConfig peer false false)
    configureDevice intf.name (peersConfig true wgPeers)
    loadInterfaces peers intfs (tmpIntfs.upsert intf) (indexPeers tmpPeerIndex intf.name (peers intf.name))

def loadSnapshot (snap : Snapshot Value) : Proc Gateway Error Unit := do
  let g ← Proc.get
  onKernel (closeAllInterfaces g.intfs.rows)
  let (intfs, peerIndex) ← onKernel
    (loadInterfaces (snapshotPeers snap.items) (snapshotInterfaces snap.items) Table.empty fun _ => none)
  Proc.modify fun g => { g with intfs := intfs, peerIndex := peerIndex, seq := snap.seq }

/-- Apply the decoded rows of a log in order. -/
def replay (rows : List OpSerialized) : Proc Gateway Error Unit :=
  Proc.forEach (fun row => do apply (← Proc.lift (row.decode encoding)) true) rows

/-! ## Runs -/

inductive Event where
  | apply (op : Op Value) (fromLog : Bool)
  | loadSnapshot (snap : Snapshot Value)

def handle : Event → Proc Gateway Error Unit
  | .apply op fromLog => Gateway.apply op fromLog
  | .loadSnapshot snap => Gateway.loadSnapshot snap

/-- A gateway goes on after a call that returned, with nil or with an error. -/
def step (g : Gateway) (e : Event) : Option Gateway :=
  match handle e g with
  | (.ok _, g') => some g'
  | (.err _, g') => some g'
  | (.crash, _) => none
  | (.block, _) => none

def system : System Gateway Event := ⟨step⟩

/-! ## What a call does, piece by piece -/

@[simp] theorem onKernel_apply {α : Type} (x : Proc Kernel Error α) (g : Gateway) :
    onKernel x g = ((x g.kernel).1, { g with kernel := (x g.kernel).2 }) := rfl

theorem onKernel_of_ok {α : Type} {x : Proc Kernel Error α} {g : Gateway} {a : α} {k : Kernel}
    (h : x g.kernel = (.ok a, k)) : onKernel x g = (.ok a, { g with kernel := k }) := by
  rw [onKernel_apply, h]

theorem onKernel_of_err {α : Type} {x : Proc Kernel Error α} {g : Gateway} {e : Error} {k : Kernel}
    (h : x g.kernel = (.err e, k)) : onKernel x g = (.err e, { g with kernel := k }) := by
  rw [onKernel_apply, h]

theorem onKernel_ok {α : Type} {x : Proc Kernel Error α} {g g' : Gateway} {a : α} (h : onKernel x g = (.ok a, g')) :
    ∃ k, x g.kernel = (.ok a, k) ∧ g' = { g with kernel := k } := by
  rw [onKernel_apply, Prod.mk.injEq] at h
  exact ⟨_, Prod.ext h.1 rfl, h.2.symm⟩

theorem onKernel_err {α : Type} {x : Proc Kernel Error α} {g g' : Gateway} {e : Error}
    (h : onKernel x g = (.err e, g')) : ∃ k, x g.kernel = (.err e, k) ∧ g' = { g with kernel := k } := by
  rw [onKernel_apply, Prod.mk.injEq] at h
  exact ⟨_, Prod.ext h.1 rfl, h.2.symm⟩

/-- The part of `Apply` before the sequence number is stored. -/
def dispatch (op : Op Value) : Proc Gateway Error Unit :=
  match op.value with
  | .peer p => applyPeer op.type p
  | .interface i => applyInterface op.type i
  | .token _ => pure ()
  | .other => pure ()

theorem apply_eq (op : Op Value) (fromLog : Bool) (g : Gateway) :
    apply op fromLog g =
      (do dispatch op; Proc.modify fun g => { g with seq := op.seq } : Proc Gateway Error Unit) g := by
  obtain ⟨seq, ty, ts, v⟩ := op
  cases v <;> rfl

section Interfaces

variable {g : Gateway} {i wgi : Interface}

theorem applyInterface_create (h : g.intfs.find? i.name = none) :
    applyInterface .create i g =
      (do onKernel (newInterface i); Proc.modify fun g => { g with intfs := g.intfs.upsert i } :
        Proc Gateway Error Unit) g := by
  unfold applyInterface; rw [Proc.bind_of_ok (Proc.get_apply g), h]

theorem applyInterface_create_exists (h : g.intfs.find? i.name = some wgi) :
    applyInterface .create i g = (.err .interfaceExists, g) := by
  unfold applyInterface; rw [Proc.bind_of_ok (Proc.get_apply g), h]; rfl

theorem applyInterface_update (h : g.intfs.find? i.name = some wgi) :
    applyInterface .update i g = reconfigure wgi i g := by
  unfold applyInterface; rw [Proc.bind_of_ok (Proc.get_apply g), h]

theorem applyInterface_update_missing (h : g.intfs.find? i.name = none) :
    applyInterface .update i g = (.err .interfaceMissing, g) := by
  unfold applyInterface; rw [Proc.bind_of_ok (Proc.get_apply g), h]; rfl

theorem applyInterface_delete (h : g.intfs.find? i.name = some wgi) :
    applyInterface .delete i g =
      (do
        Proc.ignoreErr (onKernel (stopInterface wgi))
        Proc.modify fun g => { g with intfs := g.intfs.erase i.name } : Proc Gateway Error Unit) g := by
  unfold applyInterface; rw [Proc.bind_of_ok (Proc.get_apply g), h]

theorem applyInterface_delete_missing (h : g.intfs.find? i.name = none) :
    applyInterface .delete i g = (.err .interfaceMissing, g) := by
  unfold applyInterface; rw [Proc.bind_of_ok (Proc.get_apply g), h]; rfl

end Interfaces

section Peers

variable {g : Gateway} {p : Peer} {wgi : Interface}

theorem applyPeer_create (h : g.intfs.find? p.interface = some wgi) :
    applyPeer .create p g =
      (do
        setIndex p.publicKey p.interface
        let cfg ← Proc.lift (peerToConfig p false false)
        configureWGDevice (some wgi) (peersConfig false [cfg]) : Proc Gateway Error Unit) g := by
  unfold applyPeer; rw [Proc.bind_of_ok (Proc.get_apply g), h]

theorem applyPeer_create_missing (h : g.intfs.find? p.interface = none) :
    applyPeer .create p g = (.err .interfaceMissing, g) := by
  unfold applyPeer; rw [Proc.bind_of_ok (Proc.get_apply g), h]; rfl

theorem applyPeer_update (h : g.intfs.find? p.interface = some wgi) :
    applyPeer .update p g =
      (do
        deconfigure p
        setIndex p.publicKey p.interface
        let cfg ← Proc.lift (peerToConfig p true false)
        configureWGDevice (some wgi) (peersConfig false [cfg]) : Proc Gateway Error Unit) g := by
  unfold applyPeer; rw [Proc.bind_of_ok (Proc.get_apply g), h]

theorem applyPeer_update_missing (h : g.intfs.find? p.interface = none) :
    applyPeer .update p g = (.err .interfaceMissing, g) := by
  unfold applyPeer; rw [Proc.bind_of_ok (Proc.get_apply g), h]; rfl

theorem applyPeer_delete (g : Gateway) (p : Peer) :
    applyPeer .delete p g =
      (do
        let cfg ← Proc.lift (peerToConfig p false true)
        configureWGDevice (g.intfs.find? (g.indexed p.publicKey)) (peersConfig false [cfg]) :
          Proc Gateway Error Unit) g := by
  unfold applyPeer; rw [Proc.bind_of_ok (Proc.get_apply g)]

theorem applyPeer_unknown (c : Int) (p : Peer) (g : Gateway) : applyPeer (.unknown c) p g = (.crash, g) := by
  unfold applyPeer; rw [Proc.bind_of_ok (Proc.get_apply g)]
  cases g.intfs.find? p.interface <;> rfl

end Peers

/-! ## Sample objects -/

/-- A host without devices, where no call fails for reasons of its own. -/
def Kernel.host (validName : String → Bool) (driver : Driver) : Kernel := ⟨fun _ => none, validName, driver, []⟩

def sampleHost : Kernel := Kernel.host (fun _ => true) Driver.documented

/-- Two interfaces of one host listen on different ports. -/
def sampleInterface (name : String) : Interface :=
  ⟨name, if name = "wg0" then 51820 else 51821, none, none, 0, "yAnz5TF+lXXJte14tji3zlMNq+hd2rYUIgJBgB3fBmk=", ""⟩

def samplePeer (interface : String) : Peer :=
  ⟨"xTIBA5rboUvnH4htodjb6e697QjLERt1NAB4mZqp8Dg=", interface, (CIDR.parse "10.0.0.2/32").toOption, none, Time.zero⟩

theorem parseKey_sampleInterface (name : String) : (parseKey (sampleInterface name).privateKey).isSome = true := by
  show (parseKey "yAnz5TF+lXXJte14tji3zlMNq+hd2rYUIgJBgB3fBmk=").isSome = true
  decide +kernel

theorem parseKey_samplePeer (interface : String) : (parseKey (samplePeer interface).publicKey).isSome = true := by
  show (parseKey "xTIBA5rboUvnH4htodjb6e697QjLERt1NAB4mZqp8Dg=").isSome = true
  decide +kernel

def sampleOp (type : OpType) (v : Value) : Event := .apply (⟨1, type, Time.zero, v⟩) true

end Gateway

end Wig
