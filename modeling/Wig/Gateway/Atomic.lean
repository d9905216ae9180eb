/-
Calls of the gateway that return an error, whichever calls of the host below them fail. Such a call
should leave the maps and the sequence alone, and every known interface with its device and the peers
on it. A peer is indexed before it is configured, an updated interface loses its device, and a snapshot
takes all devices down before it makes its own.
-/
import Wig.Gateway.Sequence
import Wig.Gateway.Update

namespace Wig.Gateway

open Wig.Lib Wig.Net Wig.Model Wig.Crudlog Kernel

/-! ## Calls that fail without a trace -/

/-- The calls of the host fail as `faults` says. -/
def withFaults (g : Gateway) (faults : List Bool) : Gateway := { g with kernel := { g.kernel with faults := faults } }

structure Untouched (g g' : Gateway) : Prop where
  intfs : g'.intfs = g.intfs
  peerIndex : g'.peerIndex = g.peerIndex
  seq : g'.seq = g.seq
  devices : ∀ i ∈ g.intfs.rows, ∀ d, g.kernel.devices i.name = some d → ∃ d',
    g'.kernel.devices i.name = some d' ∧ d'.peers = d.peers

/-- Whatever fails, an error that is returned leaves the gateway as it was. -/
def Atomic (g : Gateway) (e : Event) : Prop :=
  ∀ faults err g', handle e (g.withFaults faults) = (.err err, g') → Untouched g g'

/-- The index has the peer on its interface already, or the interface is not known. -/
def IndexedAlready (g : Gateway) (p : Peer) : Prop :=
  g.intfs.find? p.interface = none ∨ g.peerIndex p.publicKey = some p.interface

def HarmlessOp (g : Gateway) : OpType → Value → Prop
  | .create, .peer p => g.IndexedAlready p
  -- a move from an interface that is not known ends the process
  | .update, .peer p => g.IndexedAlready p ∨ (g.Moves p ∧ g.intfs.find? (g.indexed p.publicKey) = none)
  | .update, .interface i => g.intfs.find? i.name = none ∨
    (g.intfs.find? i.name = some i ∧ g.kernel.devices i.name = none)
  | _, _ => True

/-- The calls that have nothing to lose. -/
def Harmless (g : Gateway) : Event → Prop
  | .apply op _ => g.HarmlessOp op.type op.value
  | .loadSnapshot snap => snapshotInterfaces snap.items = [] ∨ ∀ i ∈ g.intfs.rows, g.kernel.devices i.name = none

/-! ## Single calls of the host -/

section Kernel

variable {k k' : Kernel} {e : Error}

theorem call_err {f : Kernel → Except Error Kernel} (h : call f k = (.err e, k')) : k'.devices = k.devices := by
  unfold call at h
  split at h
  · cases h; rfl
  · split at h
    · cases h
    · cases h; rfl

theorem call_fault (f : Kernel → Except Error Kernel) (rest : List Bool) (h : k.faults = true :: rest) :
    call f k = (.err .netlink, { k with faults := rest }) := by
  unfold call
  rw [h, if_pos List.head?_cons]
  rfl

theorem call_next (f : Kernel → Except Error Kernel) (rest : List Bool) :
    call f { k with faults := false :: rest } =
      match f { k with faults := rest } with
      | .ok k' => (.ok (), k')
      | .error e => (.err e, { k with faults := rest }) := rfl

/-- The devices with other names. -/
def others (name : String) (k : Kernel) : { other : String // other ≠ name } → Option Device :=
  fun other => k.devices other

theorem call_others {name : String} {f : Kernel → Except Error Kernel}
    (hf : ∀ k k', f k = .ok k' → others name k' = others name k) : (call f).Leaves (others name) fun _ => True := by
  refine fun k => ⟨?_, fun _ _ => trivial⟩
  unfold call
  split
  · rfl
  · split
    · rename_i hok
      have hview := hf _ _ hok
      exact hview
    · rfl

theorem setDevice_others (name : String) (d : Option Device) (k : Kernel) :
    others name (k.setDevice name d) = others name k :=
  funext fun other => setDevice_of_ne k other.2 d

theorem onDevice_others (missing : Error) (name : String) (f : Kernel → Device → Option (Option Device)) :
    (onDevice missing name f).Leaves (others name) fun _ => True := by
  refine call_others fun k k' h => ?_
  split at h
  · cases h
  · split at h
    · cases h
    · cases h; exact setDevice_others name _ k

theorem ask_others (missing : Error) (name : String) (a : Ask) :
    (ask missing name a).Leaves (others name) fun _ => True := onDevice_others missing name _

theorem linkAdd_others (name : String) : (linkAdd name).Leaves (others name) fun _ => True := by
  unfold linkAdd
  split
  · exact Proc.leaves_fail trivial
  · refine call_others fun k k' h => ?_
    split at h
    · cases h
    · split at h
      · cases h
      · cases h; exact setDevice_others name _ k

theorem bringDown_others (name : String) : (bringDown name).Leaves (others name) fun _ => True := by
  refine Proc.Leaves.bind (onDevice_others _ name _).succeeds fun found => ?_
  split
  · exact (onDevice_others _ name _).bind fun _ => onDevice_others _ name _
  · exact Proc.leaves_pure ()

theorem configureDevice_others (name : String) (cfg : Config) :
    (configureDevice name cfg).Leaves (others name) fun _ => True := by
  refine Proc.Leaves.forEach (fun cfg => ?_) _
  unfold configureBatch
  split
  · exact ask_others _ name _
  · exact Proc.leaves_fail trivial

theorem newInterface_others (i : Interface) : (newInterface i).Leaves (others i.name) fun _ => True := by
  refine Proc.Leaves.bind ?_ fun _ => ?_
  · exact (bringDown_others i.name).bind fun _ => (linkAdd_others i.name).bind fun _ =>
      (Proc.Leaves.forEach (fun _ => ask_others _ i.name _) _).bind fun _ => ask_others _ i.name _
  · unfold initializeInterface
    split
    · exact Proc.leaves_fail trivial
    · exact configureDevice_others i.name _

theorem ask_err {missing : Error} {name : String} {a : Ask} (h : ask missing name a k = (.err e, k')) :
    k'.devices = k.devices := by
  unfold ask onDevice at h
  exact call_err h

theorem ask_fault (missing : Error) (name : String) (a : Ask) {rest : List Bool} (h : k.faults = true :: rest) :
    ask missing name a k = (.err .netlink, { k with faults := rest }) := by
  unfold ask onDevice
  exact call_fault _ rest h

theorem configureBatch_err {name : String} {cfg : Config} (h : configureBatch name cfg k = (.err e, k')) :
    k'.devices = k.devices := by
  unfold configureBatch at h
  split at h
  · exact ask_err h
  · cases h; rfl

theorem configureBatch_fault (name : String) (cfg : Config) (rest : List Bool) (h : k.faults = true :: rest) :
    ∃ e k', configureBatch name cfg k = (.err e, k') := by
  unfold configureBatch
  split
  · exact ⟨_, _, ask_fault _ _ _ h⟩
  · exact ⟨_, _, rfl⟩

theorem onDevice_absent (missing : Error) {name : String} (f : Kernel → Device → Option (Option Device))
    (h : k.devices name = none) :
    ∃ e k', onDevice missing name f k = (.err e, k') ∧ k'.devices = k.devices := by
  have hcall : ∃ e k', onDevice missing name f k = (.err e, k') := by
    unfold onDevice call
    simp only [h]
    split
    · exact ⟨_, _, rfl⟩
    · exact ⟨_, _, rfl⟩
  obtain ⟨e, k', hcall⟩ := hcall
  exact ⟨e, k', hcall, call_err hcall⟩

theorem bringDown_absent {name : String} (h : k.devices name = none) :
    ∃ k', bringDown name k = (.ok (), k') ∧ k'.devices = k.devices := by
  obtain ⟨e, k', hmissing, hdevices⟩ := onDevice_absent .netlink (fun _ d => some (some d)) h
  have hmissing : linkByName name k = (.err e, k') := hmissing
  unfold bringDown
  rw [Proc.bind_of_ok (Proc.succeeds_of_err hmissing)]
  exact ⟨k', rfl, hdevices⟩

theorem initializeInterface_fails {i : Interface} (h : k.devices i.name = none) :
    ∃ e k', initializeInterface i k = (.err e, k') ∧ k'.devices = k.devices := by
  unfold initializeInterface
  cases parseKey i.privateKey with
  | none => exact ⟨_, _, rfl, rfl⟩
  | some key =>
    show ∃ e k', configureDevice i.name (initialConfig i key) k = (.err e, k') ∧ _
    rw [configureDevice_small i.name _ (Nat.zero_le _)]
    unfold configureBatch
    split
    · exact onDevice_absent _ _ h
    · exact ⟨_, _, rfl, rfl⟩

end Kernel

/-! ## Peers -/

section Peers

variable {g g' : Gateway} {e : Error} {p : Peer}

theorem untouched_of_configuration (h : configuration g' = configuration g) : Untouched g g' := by
  simp only [configuration, Prod.mk.injEq] at h
  obtain ⟨hintfs, hindex, hdevices, hseq⟩ := h
  exact ⟨hintfs, hindex, hseq, fun i _ d hd => ⟨d, by rw [hdevices, hd], rfl⟩⟩

theorem apply_err_iff {op : Op Value} (fromLog : Bool) :
    apply op fromLog g = (.err e, g') ↔ dispatch op g = (.err e, g') := by
  rw [apply_eq]
  rcases h : dispatch op g with ⟨(_ | _ | _ | _), g₁⟩
  · rw [Proc.bind_of_ok h]
    exact iff_of_false (fun h => by cases h) (fun h => by cases h)
  · rw [Proc.bind_of_err h]
  · rw [Proc.bind_of_crash h]
  · rw [Proc.bind_of_block h]

/-- A peer is made a configuration, which goes to the device of its interface. -/
def configurePeer (p : Peer) (update remove : Bool) (wgi : Option Interface) : Proc Gateway Error Unit := do
  let cfg ← Proc.lift (peerToConfig p update remove)
  configureWGDevice wgi (peersConfig false [cfg])

theorem configurePeer_err {update remove : Bool} {wgi : Option Interface}
    (h : configurePeer p update remove wgi g = (.err e, g')) : configuration g' = configuration g := by
  unfold configurePeer at h
  cases hcfg : peerToConfig p update remove with
  | error e' =>
    rw [Proc.bind_of_err (by rw [Proc.lift_apply, hcfg]; rfl)] at h
    cases h; rfl
  | ok cfg =>
    rw [Proc.bind_of_ok (by rw [Proc.lift_apply, hcfg]; rfl)] at h
    cases wgi with
    | none => cases h
    | some i =>
      rw [configureWGDevice_one] at h
      obtain ⟨k, hbatch, rfl⟩ := onKernel_err h
      simp only [configuration, configureBatch_err hbatch]

theorem configurePeer_fault (p : Peer) (update remove : Bool) (i : Interface) {rest : List Bool}
    (h : g.kernel.faults = true :: rest) : ∃ e g', configurePeer p update remove (some i) g = (.err e, g') := by
  unfold configurePeer
  cases hcfg : peerToConfig p update remove with
  | error e' => exact ⟨e', g, rfl⟩
  | ok cfg =>
    rw [Proc.bind_of_ok (show Proc.lift (.ok cfg) g = (.ok cfg, g) from rfl)]
    obtain ⟨e, k, hbatch⟩ := configureBatch_fault i.name (peersConfig false [cfg]) rest h
    exact ⟨e, _, by rw [configureWGDevice_one]; exact onKernel_of_err hbatch⟩

/-- The end of a creation and of an update: the peer is indexed, and then configured. -/
def indexPeer (p : Peer) (update : Bool) (wgi : Option Interface) : Proc Gateway Error Unit := do
  setIndex p.publicKey p.interface
  configurePeer p update false wgi

theorem indexPeer_apply (update : Bool) (wgi : Option Interface) :
    indexPeer p update wgi g = configurePeer p update false wgi (g.withIndex p.publicKey p.interface) :=
  Proc.bind_of_ok (setIndex_apply _ _ g)

theorem withIndex_self (h : g.peerIndex p.publicKey = some p.interface) : g.withIndex p.publicKey p.interface = g := by
  unfold withIndex
  rw [← h, Function.update_eq_self]

/-- A peer that is indexed already has nothing to lose. -/
theorem indexPeer_untouched {update : Bool} {wgi : Option Interface} {faults : List Bool}
    (hindexed : g.peerIndex p.publicKey = some p.interface)
    (h : indexPeer p update wgi (g.withFaults faults) = (.err e, g')) : Untouched g g' := by
  rw [indexPeer_apply, withIndex_self (show (g.withFaults faults).peerIndex p.publicKey = _ from hindexed)] at h
  have hsame : configuration g' = configuration (g.withFaults faults) := configurePeer_err h
  exact untouched_of_configuration hsame

/-- The peer is in the index also if it cannot be configured. -/
theorem indexPeer_fault (update : Bool) (wgi : Interface) (rest : List Bool) :
    ∃ e g', indexPeer p update (some wgi) (g.withFaults (true :: rest)) = (.err e, g') ∧
      g'.peerIndex p.publicKey = some p.interface := by
  have hfaults : ((g.withFaults (true :: rest)).withIndex p.publicKey p.interface).kernel.faults = true :: rest := rfl
  obtain ⟨e, g', hg'⟩ := configurePeer_fault p update false wgi hfaults
  have hindex : g'.peerIndex = ((g.withFaults (true :: rest)).withIndex p.publicKey p.interface).peerIndex :=
    congrArg (fun c => c.2.1) (configurePeer_err hg')
  refine ⟨e, g', (indexPeer_apply update _).trans hg', ?_⟩
  rw [hindex]
  exact Function.update_self _ _ _

/-- The errors of an operation leave the gateway as it was. -/
def AtomicOp (g : Gateway) (x : Proc Gateway Error Unit) : Prop :=
  ∀ faults err g', x (g.withFaults faults) = (.err err, g') → Untouched g g'

theorem atomicOp_of_eq {x : Proc Gateway Error Unit}
    (h : ∀ faults, x (g.withFaults faults) = (.err e, g.withFaults faults)) : AtomicOp g x := by
  intro faults err g' herr
  rw [h] at herr
  cases herr
  exact untouched_of_configuration rfl

theorem createPeer_atomic_iff : AtomicOp g (applyPeer .create p) ↔ g.IndexedAlready p := by
  cases hi : g.intfs.find? p.interface with
  | none => exact iff_of_true (atomicOp_of_eq fun faults => applyPeer_create_missing hi) (.inl hi)
  | some wgi =>
    have hrun : ∀ faults, applyPeer .create p (g.withFaults faults) =
        indexPeer p false (some wgi) (g.withFaults faults) :=
      fun faults => applyPeer_create hi
    constructor
    · intro h
      obtain ⟨e, g', hg', hindex⟩ := indexPeer_fault (g := g) (p := p) false wgi []
      rw [(h _ _ _ ((hrun [true]).trans hg')).peerIndex] at hindex
      exact .inr hindex
    · intro h faults err g' herr
      have hindexed := h.resolve_left (by rw [hi]; exact Option.some_ne_none wgi)
      exact indexPeer_untouched hindexed ((hrun faults).symm.trans herr)

/-- A failure to take a peer off its previous interface is not noticed. -/
theorem ignoreErr_configure_fault {c : PeerConfig} (hc : c.allowedIPs = []) (w : Interface) {rest : List Bool}
    (h : g.kernel.faults = true :: rest) :
    Proc.ignoreErr (configureWGDevice (some w) (peersConfig false [c])) g = (.ok (), g.withFaults rest) := by
  have hvalid : ∀ p ∈ (peersConfig false [c]).peers, ∀ n ∈ p.allowedIPs, isValidIP n.ip = true := by
    intro p hp n hn
    rw [List.mem_singleton.1 hp, hc] at hn
    cases hn
  have hbatch : configureBatch w.name (peersConfig false [c]) g.kernel =
      (.err .netlink, { g.kernel with faults := rest }) := by
    rw [configureBatch_of_valid hvalid]
    exact ask_fault _ _ _ h
  rw [configureWGDevice_one]
  exact Proc.ignoreErr_of_err (onKernel_of_err hbatch)

theorem deconfigure_fault {w : Interface} {rest : List Bool} (hm : g.Moves p)
    (hw : g.intfs.find? (g.indexed p.publicKey) = some w)
    (h : g.kernel.faults = true :: rest) : deconfigure p g = (.ok (), g.withFaults rest) := by
  unfold deconfigure
  rw [Proc.bind_of_ok (Proc.get_apply g), if_pos (show _ ∧ _ from hm), hw]
  refine ignoreErr_configure_fault ?_ w h
  rw [peerToConfig_remove]
  cases parseKey p.publicKey <;> rfl

theorem deconfigure_crash (hm : g.Moves p) (hw : g.intfs.find? (g.indexed p.publicKey) = none) :
    deconfigure p g = (.crash, g) := by
  unfold deconfigure
  rw [Proc.bind_of_ok (Proc.get_apply g), if_pos (show _ ∧ _ from hm), hw]
  rfl

theorem not_moves (h : g.peerIndex p.publicKey = some p.interface) : ¬ g.Moves p := by
  rintro ⟨-, hne⟩
  unfold indexed at hne
  rw [h] at hne
  exact hne rfl

theorem updatePeer_atomic_iff : AtomicOp g (applyPeer .update p) ↔
    g.IndexedAlready p ∨ (g.Moves p ∧ g.intfs.find? (g.indexed p.publicKey) = none) := by
  cases hi : g.intfs.find? p.interface with
  | none => exact iff_of_true (atomicOp_of_eq fun faults => applyPeer_update_missing hi) (.inl (.inl hi))
  | some wgi =>
    have hrun : ∀ faults, applyPeer .update p (g.withFaults faults) =
        (do deconfigure p; indexPeer p true (some wgi) : Proc Gateway Error Unit) (g.withFaults faults) :=
          fun faults => applyPeer_update hi
    -- where the peer gets to the index, the next call of the host can fail
    have hfail : ∀ faults rest, deconfigure p (g.withFaults faults) = (.ok (), g.withFaults (true :: rest)) →
        AtomicOp g (applyPeer .update p) → g.peerIndex p.publicKey = some p.interface := by
      intro faults rest hdec h
      obtain ⟨e, g', hg', hindex⟩ := indexPeer_fault (g := g) (p := p) true wgi rest
      rwa [(h _ _ _ ((hrun faults).trans ((Proc.bind_of_ok hdec).trans hg'))).peerIndex] at hindex
    constructor
    · intro h
      by_cases hm : g.Moves p
      · cases hw : g.intfs.find? (g.indexed p.publicKey) with
        | none => exact .inr ⟨hm, rfl⟩
        | some w => exact .inl (.inr (hfail [true, true] [] (deconfigure_fault hm hw rfl) h))
      · exact .inl (.inr (hfail [true] [] (deconfigure_stays hm) h))
    · rintro (h | ⟨hm, hw⟩) faults err g' herr
      · have hindexed := h.resolve_left (by rw [hi]; exact Option.some_ne_none wgi)
        have hstays : deconfigure p (g.withFaults faults) = (.ok (), g.withFaults faults) :=
          deconfigure_stays (not_moves hindexed)
        rw [hrun, Proc.bind_of_ok hstays] at herr
        exact indexPeer_untouched hindexed herr
      · have hcrash : deconfigure p (g.withFaults faults) = (.crash, g.withFaults faults) := deconfigure_crash hm hw
        rw [hrun, Proc.bind_of_crash hcrash] at herr
        cases herr

end Peers

/-! ## Interfaces -/

section Interfaces

variable {g g' : Gateway} {e : Error} {i : Interface}

/-- A call whose error is ignored has none. -/
theorem ignoreErr_leaves {σ : Type} (x : Proc σ Error Unit) :
    (Proc.ignoreErr x).Leaves (fun _ => ()) fun _ => False := by
  have hx : x.Leaves (fun _ => ()) fun _ => True := fun _ => ⟨rfl, fun _ _ => trivial⟩
  exact hx.ignoreErr

theorem createInterface_atomic (g : Gateway) (i : Interface) : AtomicOp g (applyInterface .create i) := by
  cases hi : g.intfs.find? i.name with
  | some wgi => exact atomicOp_of_eq fun faults => applyInterface_create_exists hi
  | none =>
    intro faults err g' herr
    rw [applyInterface_create (show (g.withFaults faults).intfs.find? i.name = none from hi)] at herr
    rcases Proc.bind_err herr with herr | ⟨_, g₁, -, herr⟩
    · obtain ⟨k, hk, rfl⟩ := onKernel_err herr
      have hothers := (newInterface_others i (g.withFaults faults).kernel).1
      rw [hk] at hothers
      refine ⟨rfl, rfl, rfl, fun j hj d hd => ⟨d, ?_, rfl⟩⟩
      -- no known interface has the name of the new one
      have hne : j.name ≠ i.name := fun heq => Table.find?_eq_none.1 hi (heq ▸ Table.key_mem_keys hj)
      exact (congrFun hothers ⟨j.name, hne⟩).trans hd
    · cases herr

/-- The interface is replaced and its device is gone, also where the call fails. -/
theorem updateInterface_lost {wgi : Interface} (hi : g.intfs.find? i.name = some wgi)
    (h : AtomicOp g (applyInterface .update i)) : g.intfs.find? i.name = some i ∧ g.kernel.devices i.name = none := by
  have hmem := Table.mem_keys_iff_find?.2 ⟨wgi, hi⟩
  have huntouched := h [] _ _ (applyInterface_update_eq rfl hmem)
  have hsame : g.intfs.find? i.name = some i := by
    rw [← huntouched.intfs]
    exact (Table.find?_replace g.intfs i i.name).trans (by simp [hi])
  refine ⟨hsame, ?_⟩
  cases hd : g.kernel.devices i.name with
  | none => rfl
  | some d =>
    obtain ⟨d', hd', -⟩ := huntouched.devices i (Table.find?_eq_some.1 hsame).1 d hd
    have hgone : none = some d' := (setDevice_self (g.withFaults []).kernel i.name none).symm.trans hd'
    cases hgone

/-- An update of an interface to itself, without a device to lose. -/
theorem updateInterface_atomic (hi : g.intfs.find? i.name = some i) (hd : g.kernel.devices i.name = none) :
    AtomicOp g (applyInterface .update i) := by
  intro faults err g' herr
  have hd : (g.withFaults faults).kernel.devices i.name = none := hd
  obtain ⟨k₁, hstop, hdevices⟩ := bringDown_absent hd
  obtain ⟨e', k₂, hinit, hdevices'⟩ := initializeInterface_fails (i := i) (k := k₁) (by rw [hdevices, hd])
  have hstop : stopInterface i (g.withFaults faults).kernel = (.ok (), k₁) := hstop
  rw [applyInterface_update (show (g.withFaults faults).intfs.find? i.name = some i from hi)] at herr
  unfold reconfigure at herr
  rw [Proc.bind_of_ok (onKernel_of_ok hstop), Proc.bind_of_ok (Proc.modify_apply _ _),
    Proc.bind_of_err (onKernel_of_err hinit)] at herr
  cases herr
  have hreplace : g.intfs.replace i = g.intfs := Table.replace_of_mem (Table.find?_eq_some.1 hi).1
  refine untouched_of_configuration ?_
  simp only [configuration, withFaults, hreplace, hdevices', hdevices]

theorem updateInterface_atomic_iff : AtomicOp g (applyInterface .update i) ↔
    g.intfs.find? i.name = none ∨ (g.intfs.find? i.name = some i ∧ g.kernel.devices i.name = none) := by
  cases hi : g.intfs.find? i.name with
  | none => exact iff_of_true (atomicOp_of_eq fun faults => applyInterface_update_missing hi) (.inl rfl)
  | some wgi =>
    constructor
    · intro h
      obtain ⟨hsame, hd⟩ := updateInterface_lost hi h
      exact .inr ⟨hi.symm.trans hsame, hd⟩
    · rintro (h | ⟨h, hd⟩)
      · cases h
      · cases h
        exact updateInterface_atomic hi hd

theorem deleteInterface_atomic (g : Gateway) (i : Interface) : AtomicOp g (applyInterface .delete i) := by
  cases hi : g.intfs.find? i.name with
  | none => exact atomicOp_of_eq fun faults => applyInterface_delete_missing hi
  | some wgi =>
    intro faults err g' herr
    rw [applyInterface_delete (show (g.withFaults faults).intfs.find? i.name = some wgi from hi)] at herr
    rcases Proc.bind_err herr with herr | ⟨_, g₁, -, herr⟩
    · exact ((ignoreErr_leaves _ (g.withFaults faults)).2 err (by rw [herr])).elim
    · cases herr

end Interfaces

/-! ## Snapshots -/

section Snapshots

variable {g g' : Gateway} {k : Kernel}

theorem onDevice_step (missing : Error) {name : String} (f : Device → Option Device) (rest : List Bool) {d : Device}
    (hd : k.devices name = some d) :
    onDevice missing name (fun _ d => some (f d)) { k with faults := false :: rest } =
      (.ok (), { k.setDevice name (f d) with faults := rest }) := by
  unfold onDevice
  rw [call_next]
  simp only [hd]
  rfl

/-- An interface that is stopped without a fault is gone after some number of calls. -/
theorem stopInterface_steps (i : Interface) (k : Kernel) : ∃ n, ∀ rest,
    stopInterface i
      { k with faults := List.replicate n false ++ rest } = (.ok (),
        { k.setDevice i.name none with faults := rest }) := by
  unfold stopInterface bringDown
  cases hd : k.devices i.name with
  | none =>
    refine ⟨1, fun rest => ?_⟩
    have hmissing : linkByName i.name { k with faults := false :: rest } =
      (.err .netlink, { k with faults := rest }) := by
      unfold linkByName onDevice
      rw [call_next]
      simp only [hd]
    rw [List.replicate_one, List.singleton_append, Proc.bind_of_ok (Proc.succeeds_of_err hmissing), setDevice_same hd]
    rfl
  | some d =>
    refine ⟨3, fun rest => ?_⟩
    have hfound : linkByName i.name { k with faults := false :: false :: false :: rest } =
        (.ok (), { k.setDevice i.name (some d) with faults := false :: false :: rest }) := onDevice_step _ some _ hd
    rw [setDevice_same hd] at hfound
    have hdown : linkSetDown i.name { k with faults := false :: false :: rest } =
        (.ok (), { k.setDevice i.name (some { d with up := false }) with faults := false :: rest }) :=
      onDevice_step _ (fun d => some { d with up := false }) _ hd
    have hdel : linkDel i.name { k.setDevice i.name (some { d with up := false }) with faults := false :: rest } =
        (.ok (), { (k.setDevice i.name (some { d with up := false })).setDevice i.name none with faults := rest }) :=
      onDevice_step _ (fun _ => none) _ (setDevice_self k i.name _)
    show (Proc.succeeds (linkByName i.name) >>= _) { k with faults := false :: false :: false :: rest } = _
    rw [Proc.bind_of_ok (Proc.succeeds_of_ok hfound)]
    show (linkSetDown i.name >>= fun _ => linkDel i.name) { k with faults := false :: false :: rest } = _
    rw [Proc.bind_of_ok hdown, hdel, setDevice_setDevice]

/-- So are all of them. -/
theorem closeAllInterfaces_steps : ∀ (intfs : List Interface) (k : Kernel), ∃ (n : Nat) (k' : Kernel),
    (∀ name, k'.devices name = if name ∈ intfs.map Interface.name then none else k.devices name) ∧
      ∀ rest, closeAllInterfaces intfs { k with faults := List.replicate n false ++ rest } =
        (.ok (), { k' with faults := rest })
  | [], k => ⟨0, k, fun _ => rfl, fun _ => rfl⟩
  | i :: intfs, k => by
    obtain ⟨n, hn⟩ := stopInterface_steps i k
    obtain ⟨m, k', hdevices, hm⟩ := closeAllInterfaces_steps intfs (k.setDevice i.name none)
    refine ⟨n + m, k', fun name => ?_, fun rest => ?_⟩
    · rw [hdevices, setDevice_none]
      rfl
    · rw [List.replicate_add, List.append_assoc]
      exact (Proc.bind_of_ok (Proc.ignoreErr_of_ok (hn _))).trans (hm rest)

/-- A new interface can fail before anything is done for it. -/
theorem newInterface_fault (i : Interface) (k : Kernel) :
    ∃ (e : Error) (k' : Kernel), newInterface i { k with faults := [true, true] } = (.err e, k') ∧
      k'.devices = k.devices := by
  have hfound : linkByName i.name { k with faults := [true, true] } = (.err .netlink, { k with faults := [true] }) := by
    unfold linkByName onDevice
    exact call_fault _ [true] rfl
  have hdown : bringDown i.name { k with faults := [true, true] } = (.ok (), { k with faults := [true] }) := by
    unfold bringDown
    rw [Proc.bind_of_ok (Proc.succeeds_of_err hfound)]
    rfl
  have hadd : ∃ (e : Error) (k' : Kernel), linkAdd i.name { k with faults := [true] } = (.err e, k') ∧
    k'.devices = k.devices := by
    unfold linkAdd
    split
    · exact ⟨_, _, rfl, rfl⟩
    · exact ⟨_, _, call_fault _ [] rfl, rfl⟩
  obtain ⟨e, k', hadd, hdevices⟩ := hadd
  refine ⟨e, k', Proc.bind_of_err ?_, hdevices⟩
  unfold startInterface
  rw [Proc.bind_of_ok hdown, Proc.bind_of_err hadd]

/-- A snapshot that is not loaded has interfaces, and only the devices may have changed. -/
theorem loadSnapshot_err {snap : Snapshot Value} {e : Error} (h : loadSnapshot snap g = (.err e, g')) :
    snapshotInterfaces snap.items ≠ [] ∧ g'.intfs = g.intfs ∧ g'.peerIndex = g.peerIndex ∧ g'.seq = g.seq := by
  unfold loadSnapshot at h
  rw [Proc.bind_of_ok (Proc.get_apply g)] at h
  rcases Proc.bind_err h with hclose | ⟨_, g₁, hclose, h⟩
  · obtain ⟨k, hclose, -⟩ := onKernel_err hclose
    have hnone : (closeAllInterfaces g.intfs.rows).Leaves (fun _ => ()) fun _ => False :=
      Proc.Leaves.forEach (fun i => ignoreErr_leaves _) _
    exact ((hnone g.kernel).2 e (by rw [hclose])).elim
  · obtain ⟨k₁, -, rfl⟩ := onKernel_ok hclose
    rcases Proc.bind_err h with hload | ⟨_, g₂, -, h⟩
    · obtain ⟨k₂, hload, rfl⟩ := onKernel_err hload
      refine ⟨fun hnil => ?_, rfl, rfl, rfl⟩
      rw [hnil] at hload
      cases hload
    · cases h

/-- All interfaces can be stopped before the first of the snapshot fails. -/
theorem loadSnapshot_fault {snap : Snapshot Value} (h : snapshotInterfaces snap.items ≠ []) :
    ∃ faults e g', loadSnapshot snap (g.withFaults faults) = (.err e, g') ∧ ∀ i ∈ g.intfs.rows,
      g'.kernel.devices i.name = none := by
  obtain ⟨intf, intfs, hintfs⟩ := List.exists_cons_of_ne_nil h
  obtain ⟨n, k', hdevices, hclose⟩ := closeAllInterfaces_steps g.intfs.rows g.kernel
  obtain ⟨e, k'', hnew, hdevices'⟩ := newInterface_fault intf k'
  refine ⟨List.replicate n false ++ [true, true], e, { g with kernel := k'' }, ?_, fun i hi => ?_⟩
  · unfold loadSnapshot
    rw [Proc.bind_of_ok (Proc.get_apply _), Proc.bind_of_ok (onKernel_of_ok (hclose [true, true])), hintfs]
    exact Proc.bind_of_err (onKernel_of_err (Proc.bind_of_err hnew))
  · show k''.devices i.name = none
    rw [hdevices', hdevices, if_pos (List.mem_map_of_mem hi)]

theorem loadSnapshot_atomic_iff {snap : Snapshot Value} : AtomicOp g (loadSnapshot snap) ↔
    snapshotInterfaces snap.items = [] ∨ ∀ i ∈ g.intfs.rows, g.kernel.devices i.name = none := by
  constructor
  · intro h
    by_cases hintfs : snapshotInterfaces snap.items = []
    · exact .inl hintfs
    · obtain ⟨faults, e, g', herr, hgone⟩ := loadSnapshot_fault (g := g) hintfs
      refine .inr fun i hi => ?_
      cases hd : g.kernel.devices i.name with
      | none => rfl
      | some d =>
        obtain ⟨d', hd', -⟩ := (h _ _ _ herr).devices i hi d hd
        cases (hgone i hi).symm.trans hd'
  · intro h faults err g' herr
    obtain ⟨hne, hintfs, hindex, hseq⟩ := loadSnapshot_err herr
    have hnone := h.resolve_left hne
    refine ⟨hintfs, hindex, hseq, fun i hi d hd => ?_⟩
    rw [hnone i hi] at hd
    cases hd

end Snapshots

/-! ## All calls -/

theorem atomicOp_of_ok {g : Gateway} {x : Proc Gateway Error Unit} (h : ∀ g, x g = (.ok (), g)) : AtomicOp g x := by
  intro faults err g' herr
  rw [h] at herr
  cases herr

/-- The errors of a call leave the gateway as it was, whatever fails, just if the call has nothing to lose. -/
theorem atomic_iff (g : Gateway) (e : Event) : Atomic g e ↔ Harmless g e := by
  cases e with
  | loadSnapshot snap => exact loadSnapshot_atomic_iff
  | apply op fromLog =>
    obtain ⟨seq, type, ts, v⟩ := op
    have hop : Atomic g (.apply ⟨seq, type, ts, v⟩ fromLog) ↔ AtomicOp g (dispatch ⟨seq, type, ts, v⟩) :=
      forall₃_congr fun _ _ _ => imp_congr_left (apply_err_iff fromLog)
    rw [hop]
    cases v with
    | token t => exact iff_of_true (atomicOp_of_ok fun _ => rfl) (by cases type <;> trivial)
    | other => exact iff_of_true (atomicOp_of_ok fun _ => rfl) (by cases type <;> trivial)
    | interface i =>
      cases type with
      | create => exact iff_of_true (createInterface_atomic g i) trivial
      | update => exact updateInterface_atomic_iff
      | delete => exact iff_of_true (deleteInterface_atomic g i) trivial
      | unknown c =>
        refine iff_of_true (atomicOp_of_ok fun g => ?_) trivial
        show applyInterface (.unknown c) i g = (.ok (), g)
        unfold applyInterface
        rw [Proc.bind_of_ok (Proc.get_apply g)]
        cases g.intfs.find? i.name <;> rfl
    | peer p =>
      cases type with
      | create => exact createPeer_atomic_iff
      | update => exact updatePeer_atomic_iff
      | delete =>
        refine iff_of_true (fun faults err g' herr => ?_) trivial
        have hpeer : configurePeer p false true _ (g.withFaults faults) = (.err err, g') :=
          (applyPeer_delete _ p).symm.trans herr
        have hsame : configuration g' = configuration (g.withFaults faults) := configurePeer_err hpeer
        exact untouched_of_configuration hsame
      | unknown c =>
        refine iff_of_true (fun faults err g' herr => ?_) trivial
        have hcrash := (applyPeer_unknown c p (g.withFaults faults)).symm.trans herr
        cases hcrash

/-- A snapshot with one interface, whose key does not parse. -/
def badSnapshot : Event := .loadSnapshot ⟨3, [.interface { sampleInterface "wg1" with privateKey := "" }]⟩

/-- The gateway has an interface with a peer. A snapshot that cannot be loaded takes its device away. -/
theorem failed_snapshot_loses_device : ∃ g, system.run (new sampleHost) updateRun = some g ∧ g.intfs.keys = ["wg0"] ∧
    (∃ d, g.kernel.devices "wg0" = some d) ∧ (handle badSnapshot g).1 = .err .parseKey ∧
    (handle badSnapshot g).2.intfs.keys = ["wg0"] ∧ (handle badSnapshot g).2.kernel.devices "wg0" = none ∧
      ¬ Atomic g badSnapshot := by
  have hrun : (system.run (new sampleHost) updateRun).map
    (fun g => decide (g.kernel.faults = [] ∧ g.intfs.keys = ["wg0"] ∧
      (g.kernel.devices "wg0").isSome = true ∧ (handle badSnapshot g).1 = .err .parseKey ∧
        (handle badSnapshot g).2.intfs.keys = ["wg0"] ∧
      ((handle badSnapshot g).2.kernel.devices "wg0").isNone = true)) = some true := by
    decide +kernel
  obtain ⟨g, hg, hstate⟩ := Option.map_eq_some_iff.1 hrun
  obtain ⟨hfaults, hkeys, hdevice, herr, hkeys', hgone⟩ := of_decide_eq_true hstate
  rw [Option.isSome_iff_exists] at hdevice
  rw [Option.isNone_iff_eq_none] at hgone
  refine ⟨g, hg, hkeys, hdevice, herr, hkeys', hgone, fun h => ?_⟩
  have hself : g.withFaults [] = g := by
    unfold withFaults
    rw [← hfaults]
  have huntouched := h [] .parseKey (handle badSnapshot g).2 (by rw [hself]; exact Prod.ext herr rfl)
  obtain ⟨i, hi, hname⟩ := Table.mem_keys.1 (show "wg0" ∈ g.intfs.keys by rw [hkeys]; exact .head _)
  obtain ⟨d, hd⟩ := hdevice
  obtain ⟨d', hd', -⟩ := huntouched.devices i hi d (hname ▸ hd)
  rw [hname, hgone] at hd'
  cases hd'

end Wig.Gateway
