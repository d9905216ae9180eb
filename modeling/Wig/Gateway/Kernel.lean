/-
The network devices of the host and the calls of `netlink` and `wgctrl` on them. What the kernel makes of
a link that is given an address, brought up or configured is not this program's to say: it is a parameter
of the host, the `driver`. Links are found, added and deleted by name. Any call may also fail for reasons
of its own; `faults` says which of the next ones do. A call that fails changes nothing.
-/
import Wig.Lib.Proc
import Wig.Model.Basic
import Wig.Net.Key
import Wig.Net.Text

namespace Wig.Gateway

open Wig.Lib Wig.Net

structure WgPeer where
  allowedIPs : List IPNet
  presharedKey : Key
  keepalive : Nat
  deriving DecidableEq

structure Device where
  privateKey : Option Key
  listenPort : Nat
  fwmark : Nat
  addrs : List IPNet
  up : Bool
  peers : Key → Option WgPeer

/-- A link just added. -/
def Device.new : Device := ⟨none, 0, 0, [], false, fun _ => none⟩

/-- `wgtypes.PeerConfig`, the interval in seconds. -/
structure PeerConfig where
  publicKey : Key
  remove : Bool
  updateOnly : Bool
  presharedKey : Option Key
  persistentKeepaliveInterval : Option Nat
  replaceAllowedIPs : Bool
  allowedIPs : List IPNet
  deriving DecidableEq

/-- `wgtypes.Config`. -/
structure Config where
  privateKey : Option Key
  listenPort : Option Int64
  firewallMark : Option Int64
  replacePeers : Bool
  peers : List PeerConfig

/-- The attributes that a configuration goes to the kernel in. -/
structure DeviceAttrs where
  privateKey : Option Key
  listenPort : Option Nat
  firewallMark : Option Nat
  replacePeers : Bool
  peers : List PeerConfig

/-- The 16 bits of a port that `configAttrs` writes. -/
def port16 (p : Int64) : Nat := (p.toInt % 2 ^ 16).toNat

/-- The 32 bits of a mark. -/
def mark32 (m : Int64) : Nat := (m.toInt % 2 ^ 32).toNat

/-- `configAttrs`, for allowed IPs that it takes. -/
def Config.attrs (cfg : Config) : DeviceAttrs :=
  { privateKey := cfg.privateKey
    listenPort := cfg.listenPort.map port16
    firewallMark := cfg.firewallMark.map mark32
    replacePeers := cfg.replacePeers
    peers := cfg.peers }

/-- What is asked of a link. -/
inductive Ask where
  | addrAdd (addr : IPNet)
  | setUp
  | configure (attrs : DeviceAttrs)

/-- The kernel's side of a call on a link: what it makes of the device, or nothing if it refuses. It sees the
other devices of the host, since they share its ports. -/
abbrev Driver := (String → Option Device) → String → Device → Ask → Option Device

/-- `validName` is what the kernel accepts as the name of a new link. -/
structure Kernel where
  devices : String → Option Device
  validName : String → Bool
  driver : Driver
  faults : List Bool

/-! ## Calls -/

namespace Kernel

def call (f : Kernel → Except Error Kernel) : Proc Kernel Error Unit := fun k =>
  if k.faults.head? = some true then (.err .netlink, { k with faults := k.faults.tail })
  else match f { k with faults := k.faults.tail } with
    | .ok k' => (.ok (), k')
    | .error e => (.err e, { k with faults := k.faults.tail })

def setDevice (k : Kernel) (name : String) (d : Option Device) : Kernel :=
  { k with devices := Function.update k.devices name d }

/-- A call on a device that must be there, and that may be refused. -/
def onDevice (missing : Error) (name : String) (f : Kernel → Device → Option (Option Device)) :
    Proc Kernel Error Unit := call fun k =>
  match k.devices name with
  | none => .error missing
  | some d =>
    match f k d with
    | none => .error .netlink
    | some d' => .ok (k.setDevice name d')

def ask (missing : Error) (name : String) (a : Ask) : Proc Kernel Error Unit :=
  onDevice missing name fun k d => (k.driver k.devices name d a).map some

def linkByName (name : String) : Proc Kernel Error Unit := onDevice .netlink name fun _ d => some (some d)

def linkSetDown (name : String) : Proc Kernel Error Unit :=
  onDevice .netlink name fun _ d => some (some { d with up := false })

def linkDel (name : String) : Proc Kernel Error Unit := onDevice .netlink name fun _ _ => some none

def linkSetUp (name : String) : Proc Kernel Error Unit := ask .netlink name .setUp

def addrAdd (name : String) (addr : IPNet) : Proc Kernel Error Unit := ask .netlink name (.addrAdd addr)

def linkAdd (name : String) : Proc Kernel Error Unit :=
  if name = "" then .fail .linkNameEmpty
  else call fun k =>
    if k.validName name = false then .error .netlink
    else match k.devices name with
      | some _ => .error .netlink
      | none => .ok (k.setDevice name (some Device.new))

/-! ## `ConfigureDevice` -/

def peerBatchChunk : Nat := 32

/-- One batch for each peer. A key that came before keeps what its first batch set. -/
def peerBatches (cfg : Config) : List Key → List PeerConfig → List Config
  | _, [] => []
  | known, p :: ps =>
    let p' := if p.publicKey ∈ known then
        { p with presharedKey := none, persistentKeepaliveInterval := none, replaceAllowedIPs := false }
      else p
    { cfg with peers := [p'] } :: peerBatches cfg (p.publicKey :: known) ps

/-- A configuration with many peers is split. The peers of this program have at most two allowed IPs
each, so that their number alone decides. Peers are replaced by the first batch only. -/
def buildBatches (cfg : Config) : List Config :=
  if cfg.peers.length ≤ peerBatchChunk then [cfg]
  else match peerBatches cfg [] cfg.peers with
    | [] => []
    | b :: bs => b :: bs.map fun b => { b with replacePeers := false }

/-- `isValidIP`. -/
def isValidIP (ip : IP) : Bool := ip.length = 4 ∨ ip.length = 16

def configureBatch (name : String) (cfg : Config) : Proc Kernel Error Unit :=
  if ∀ p ∈ cfg.peers, ∀ n ∈ p.allowedIPs, isValidIP n.ip = true then
    ask .notExist name (.configure cfg.attrs)
  else .fail .invalidAllowedIP

def configureDevice (name : String) (cfg : Config) : Proc Kernel Error Unit :=
  Proc.forEach (configureBatch name) (buildBatches cfg)

/-! ## Every call returns -/

theorem call_keeps (f : Kernel → Except Error Kernel) : (call f).Keeps fun _ => True := by
  intro k _
  refine ⟨?_, trivial⟩
  unfold call
  split
  · trivial
  · split <;> trivial

theorem onDevice_keeps (missing : Error) (name : String) (f : Kernel → Device → Option (Option Device)) :
    (onDevice missing name f).Keeps fun _ => True := call_keeps _

theorem ask_keeps (missing : Error) (name : String) (a : Ask) : (ask missing name a).Keeps fun _ => True :=
  onDevice_keeps _ _ _

theorem linkAdd_keeps (name : String) : (linkAdd name).Keeps fun _ => True := by
  unfold linkAdd
  split
  · exact Proc.keeps_fail _
  · exact call_keeps _

theorem configureDevice_keeps (name : String) (cfg : Config) : (configureDevice name cfg).Keeps fun _ => True := by
  refine Proc.Keeps.forEach (fun cfg => ?_) _
  unfold configureBatch
  split
  · exact ask_keeps _ name _
  · exact Proc.keeps_fail _

/-! ## Calls without faults -/

/-- No call fails for reasons of its own. -/
def FaultFree (k : Kernel) : Prop := k.faults = []

theorem call_faultFree {k : Kernel} (h : k.FaultFree) (f : Kernel → Except Error Kernel) :
    call f k = match f k with
      | .ok k' => (.ok (), k')
      | .error e => (.err e, k) := by
  obtain ⟨devices, validName, driver, faults⟩ := k
  cases h
  rfl

section OnDevice

variable {k : Kernel} {missing : Error} {name : String} {f : Kernel → Device → Option (Option Device)} {d : Device}

theorem onDevice_some (h : k.FaultFree) {d' : Option Device} (hd : k.devices name = some d) (hf : f k d = some d') :
    onDevice missing name f k = (.ok (), k.setDevice name d') := by
  unfold onDevice
  rw [call_faultFree h, hd]
  simp only [hf]

theorem onDevice_refused (h : k.FaultFree) (hd : k.devices name = some d) (hf : f k d = none) :
    onDevice missing name f k = (.err .netlink, k) := by
  unfold onDevice
  rw [call_faultFree h, hd]
  simp only [hf]

theorem onDevice_none (h : k.FaultFree) (hd : k.devices name = none) :
    onDevice missing name f k = (.err missing, k) := by
  unfold onDevice
  rw [call_faultFree h, hd]

theorem onDevice_ok {k' : Kernel} (h : k.FaultFree) (ho : onDevice missing name f k = (.ok (), k')) :
    ∃ d d', k.devices name = some d ∧ f k d = some d' ∧ k' = k.setDevice name d' := by
  cases hd : k.devices name with
  | none => rw [onDevice_none h hd] at ho; cases ho
  | some d =>
    cases hf : f k d with
    | none => rw [onDevice_refused h hd hf] at ho; cases ho
    | some d' =>
      rw [onDevice_some h hd hf] at ho
      cases ho
      exact ⟨d, d', rfl, hf, rfl⟩

/-- The device is there, and the kernel makes this of it. -/
def Makes (k : Kernel) (name : String) (a : Ask) (d' : Device) : Prop :=
  ∃ d, k.devices name = some d ∧ k.driver k.devices name d a = some d'

variable (missing) in
theorem ask_ok_iff {k' : Kernel} (h : k.FaultFree) {a : Ask} :
    ask missing name a k = (.ok (), k') ↔ ∃ d', k.Makes name a d' ∧ k' = k.setDevice name (some d') := by
  constructor
  · intro ho
    obtain ⟨d, _, hd, hf, rfl⟩ := onDevice_ok h ho
    obtain ⟨d', hdrv, rfl⟩ := Option.map_eq_some_iff.1 hf
    exact ⟨d', ⟨d, hd, hdrv⟩, rfl⟩
  · rintro ⟨d', ⟨d, hd, hdrv⟩, rfl⟩
    exact onDevice_some h hd (by rw [hdrv]; rfl)

end OnDevice

@[simp] theorem setDevice_self (k : Kernel) (name : String) (d : Option Device) :
    (k.setDevice name d).devices name = d :=
  Function.update_self _ _ _

theorem setDevice_of_ne (k : Kernel) {name other : String} (h : other ≠ name) (d : Option Device) :
    (k.setDevice name d).devices other = k.devices other := Function.update_of_ne h _ _

/-- A device that is taken down is one more of those that are gone. -/
theorem setDevice_none (k : Kernel) (name : String) (gone : List String) (other : String) :
    (if other ∈ gone then none else (k.setDevice name none).devices other) =
      if other ∈ name :: gone then none else k.devices other := by
  by_cases hgone : other ∈ gone
  · rw [if_pos hgone, if_pos (List.mem_cons_of_mem _ hgone)]
  · rw [if_neg hgone]
    by_cases hname : other = name
    · rw [hname, setDevice_self, if_pos List.mem_cons_self]
    · rw [setDevice_of_ne _ hname, if_neg fun h => (List.mem_cons.1 h).elim hname hgone]

theorem setDevice_exists {k : Kernel} {name other : String} (d : Device)
    (h : other ≠ name → ∃ d', k.devices other = some d') :
    ∃ d', (k.setDevice name (some d)).devices other = some d' := by
  by_cases hne : other = name
  · rw [hne, setDevice_self]
    exact ⟨d, rfl⟩
  · rw [setDevice_of_ne k hne]
    exact h hne

theorem setDevice_faultFree {k : Kernel} (h : k.FaultFree) (name : String) (d : Option Device) :
    (k.setDevice name d).FaultFree := h

@[simp] theorem setDevice_validName (k : Kernel) (name : String) (d : Option Device) :
    (k.setDevice name d).validName = k.validName := rfl

@[simp] theorem setDevice_driver (k : Kernel) (name : String) (d : Option Device) :
    (k.setDevice name d).driver = k.driver := rfl

@[simp] theorem setDevice_setDevice (k : Kernel) (name : String) (d d' : Option Device) :
    (k.setDevice name d).setDevice name d' = k.setDevice name d' := by
  unfold setDevice; simp

theorem setDevice_same {k : Kernel} {name : String} {d : Option Device} (h : k.devices name = d) :
    k.setDevice name d = k := by
  subst h
  unfold setDevice
  rw [Function.update_eq_self]

theorem linkAdd_ok {k : Kernel} (h : k.FaultFree) {name : String} (hne : name ≠ "") (hv : k.validName name = true)
    (hd : k.devices name = none) : linkAdd name k = (.ok (), k.setDevice name (some Device.new)) := by
  unfold linkAdd
  rw [if_neg hne, call_faultFree h, hv, if_neg (by decide), hd]

theorem linkAdd_err {k : Kernel} (h : k.FaultFree) {name : String} (hbad : name = "" ∨ k.validName name = false) :
    ∃ e, linkAdd name k = (.err e, k) := by
  unfold linkAdd
  by_cases hne : name = ""
  · rw [if_pos hne]; exact ⟨_, rfl⟩
  · rw [if_neg hne, call_faultFree h, hbad.resolve_left hne, if_pos rfl]; exact ⟨_, rfl⟩

section Batch

variable {k k' : Kernel} {name : String} {cfg : Config}

theorem configureBatch_of_valid (hip : ∀ p ∈ cfg.peers, ∀ n ∈ p.allowedIPs, isValidIP n.ip = true) :
    configureBatch name cfg = ask .notExist name (.configure cfg.attrs) := if_pos hip

/-- A batch goes through exactly if its addresses are valid and the kernel takes it. -/
theorem configureBatch_ok_iff (h : k.FaultFree) :
    configureBatch name cfg k = (.ok (), k') ↔ (∀ p ∈ cfg.peers, ∀ n ∈ p.allowedIPs, isValidIP n.ip = true) ∧
      ∃ d', k.Makes name (.configure cfg.attrs) d' ∧ k' = k.setDevice name (some d') := by
  unfold configureBatch
  split
  · rename_i hip
    rw [ask_ok_iff _ h]
    exact ⟨fun ho => ⟨hip, ho⟩, fun ho => ho.2⟩
  · rename_i hip
    exact ⟨fun ho => (by cases ho), fun ho => absurd ho.1 hip⟩

theorem configureBatch_absent (h : k.FaultFree) (hip : ∀ p ∈ cfg.peers, ∀ n ∈ p.allowedIPs, isValidIP n.ip = true)
    (hd : k.devices name = none) : configureBatch name cfg k = (.err .notExist, k) := by
  rw [configureBatch_of_valid hip]
  exact onDevice_none h hd

end Batch

theorem configureDevice_small (name : String) (cfg : Config) (hl : cfg.peers.length ≤ peerBatchChunk) (k : Kernel) :
    configureDevice name cfg k = configureBatch name cfg k := by
  unfold configureDevice buildBatches
  rw [if_pos hl]
  exact Proc.forEach_singleton _ _ _

end Kernel

end Wig.Gateway
