/-
Operations that the primary accepts and no gateway can take. A gateway that comes to one in the log
stops there; it starts again at the beginning and comes to it again, and since it is never ahead of the
primary no snapshot takes it past. Every gateway stays before the first such operation, whatever is
written later, and whatever the kernel makes of the calls, as long as none of them fails for reasons of its
own.
-/
import Wig.Gateway.Effects
import Wig.Gateway.Follow
import Wig.Gateway.Replay

namespace Wig.Gateway

open Wig.Lib Wig.Net Wig.Model Wig.Crudlog Wig.Store Kernel

variable {validName : String → Bool}

/-! ## The host -/

/-- The kernel's calls have no faults of their own, and it takes these names. -/
structure Host (validName : String → Bool) (k : Kernel) : Prop where
  faultFree : k.FaultFree
  names : k.validName = validName

theorem call_host {f : Kernel → Except Error Kernel}
    (hf : ∀ k k', Host validName k → f k = .ok k' → Host validName k') : (call f).Preserves (Host validName) := by
  intro k hk
  rw [call_faultFree hk.faultFree]
  cases h : f k with
  | ok k' => exact hf k k' hk h
  | error e => exact hk

theorem onDevice_host (missing : Error) (name : String) (f : Kernel → Device → Option (Option Device)) :
    (onDevice missing name f).Preserves (Host validName) := by
  refine call_host fun k k' hk h => ?_
  split at h
  · cases h
  · split at h <;> cases h
    exact ⟨hk.faultFree, hk.names⟩

theorem ask_host (missing : Error) (name : String) (a : Ask) : (ask missing name a).Preserves (Host validName) :=
  onDevice_host missing name _

theorem linkAdd_host (name : String) : (linkAdd name).Preserves (Host validName) := by
  unfold linkAdd
  split
  · exact Proc.preserves_fail _
  · refine call_host fun k k' hk h => ?_
    split at h
    · cases h
    · split at h <;> cases h
      exact ⟨hk.faultFree, hk.names⟩

theorem bringDown_host (name : String) : (bringDown name).Preserves (Host validName) := by
  refine (onDevice_host _ name _).succeeds.bind fun found => ?_
  split
  · exact (onDevice_host _ name _).bind fun _ => onDevice_host _ name _
  · exact Proc.preserves_pure ()

theorem configureDevice_host (name : String) (cfg : Config) :
    (configureDevice name cfg).Preserves (Host validName) := by
  refine Proc.Preserves.forEach (fun cfg => ?_) _
  unfold configureBatch
  split
  · exact ask_host _ name _
  · exact Proc.preserves_fail _

theorem startInterface_host (i : Interface) : (startInterface i).Preserves (Host validName) :=
  (bringDown_host i.name).bind fun _ => (linkAdd_host i.name).bind fun _ =>
    (Proc.Preserves.forEach (fun _ => ask_host _ i.name _) _).bind fun _ => ask_host _ i.name _

theorem initializeInterface_host (i : Interface) : (initializeInterface i).Preserves (Host validName) := by
  unfold initializeInterface
  split
  · exact Proc.preserves_fail _
  · exact configureDevice_host i.name _

theorem closeAllInterfaces_host (intfs : List Interface) : (closeAllInterfaces intfs).Preserves (Host validName) :=
  Proc.Preserves.forEach (fun i => (bringDown_host i.name).ignoreErr) intfs

/-- The gateway runs on such a host. -/
def Hosted (validName : String → Bool) (g : Gateway) : Prop := Host validName g.kernel

theorem onKernel_hosted {α : Type} {x : Proc Kernel Error α} (hx : x.Preserves (Host validName)) :
    (onKernel x).Preserves (Hosted validName) := hx.zoom (fun _ h => h) fun _ _ _ h => h

theorem configureWGDevice_hosted (wgi : Option Interface) (cfg : Config) :
    (configureWGDevice wgi cfg).Preserves (Hosted validName) := by
  cases wgi with
  | none => exact Proc.preserves_crash
  | some i => exact onKernel_hosted (configureDevice_host i.name cfg)

theorem applyInterface_hosted (ty : OpType) (i : Interface) : (applyInterface ty i).Preserves (Hosted validName) := by
  refine Proc.preserves_get.bind fun g => ?_
  split
  · exact Proc.preserves_fail _
  · exact (onKernel_hosted ((startInterface_host i).bind fun _ => initializeInterface_host i)).bind fun _ =>
      Proc.preserves_modify fun _ h => h
  · exact Proc.preserves_fail _
  · exact (onKernel_hosted (bringDown_host _)).bind fun _ =>
      Proc.Preserves.bind (Proc.preserves_modify fun _ h => h) fun _ =>
      (onKernel_hosted (initializeInterface_host i)).bind fun _ => onKernel_hosted (startInterface_host i)
  · exact Proc.preserves_fail _
  · exact (onKernel_hosted (bringDown_host _)).ignoreErr.bind fun _ => Proc.preserves_modify fun _ h => h
  · exact Proc.preserves_pure ()

theorem deconfigure_hosted (p : Peer) : (deconfigure p).Preserves (Hosted validName) := by
  refine Proc.preserves_get.bind fun g => ?_
  simp only
  split
  · exact (configureWGDevice_hosted _ _).ignoreErr
  · exact Proc.preserves_pure _

theorem applyPeer_hosted (ty : OpType) (p : Peer) : (applyPeer ty p).Preserves (Hosted validName) := by
  have hset : (setIndex p.publicKey p.interface).Preserves (Hosted validName) := Proc.preserves_modify fun _ h => h
  refine Proc.preserves_get.bind fun g => ?_
  split
  · exact Proc.preserves_fail _
  · exact hset.bind fun _ => (Proc.preserves_lift _).bind fun _ => configureWGDevice_hosted _ _
  · exact Proc.preserves_fail _
  · exact (deconfigure_hosted p).bind fun _ => hset.bind fun _ => (Proc.preserves_lift _).bind fun _ =>
      configureWGDevice_hosted _ _
  · exact (Proc.preserves_lift _).bind fun _ => configureWGDevice_hosted _ _
  · exact configureWGDevice_hosted _ _

theorem dispatch_hosted (op : Op Value) : (dispatch op).Preserves (Hosted validName) := by
  unfold dispatch
  split
  · exact applyPeer_hosted op.type _
  · exact applyInterface_hosted op.type _
  · exact Proc.preserves_pure ()
  · exact Proc.preserves_pure ()

theorem apply_hosted (op : Op Value) (fromLog : Bool) : (apply op fromLog).Preserves (Hosted validName) := by
  intro g hg
  have hseq : (Proc.modify fun g : Gateway => { g with seq := op.seq } : Proc Gateway Error Unit).Preserves
    (Hosted validName) :=
    Proc.preserves_modify fun _ h => h
  rw [apply_eq]
  exact (dispatch_hosted op).bind (fun _ => hseq) g hg

/-! ## Operations that no gateway takes -/

/-- An operation that no gateway takes: any update of an interface, the creation of one whose name the
kernel does not take or whose private key does not parse, and what cannot be made a configuration of a
peer. -/
def Indigestible (validName : String → Bool) (op : Op Value) : Prop :=
  match op.value, op.type with
  | .interface i, .create => i.name = "" ∨ validName i.name = false ∨ parseKey i.privateKey = none
  | .interface _, .update => True
  | .peer p, .create => ¬ ∃ key, Usable p key
  | .peer p, .update => ¬ ∃ key, Usable p key
  | .peer p, .delete => parseKey p.publicKey = none
  | .peer _, .unknown _ => True
  | _, _ => False

theorem Indigestible.refused {op : Op Value} (hbad : Indigestible validName op) {g g' : Gateway}
    (hg : g.Hosted validName) (fromLog : Bool) : apply op fromLog g ≠ (.ok (), g') := by
  intro h
  obtain ⟨g₁, hd, -⟩ := apply_ok_iff.1 h
  obtain ⟨seq, ty, ts, v⟩ := op
  cases v with
  | interface i =>
    cases ty with
    | create =>
      obtain ⟨-, d, hnew, -⟩ := (applyInterface_create_iff hg.faultFree).1 hd
      obtain ⟨hne, hv, ⟨key, hkey⟩, -⟩ := newInterface_ok hg.faultFree hnew
      rcases hbad with hname | hname | hparse
      · exact hne hname
      · rw [hg.names] at hv
        exact Bool.false_ne_true (hname.symm.trans hv)
      · rw [hparse] at hkey
        cases hkey
    | update => exact applyInterface_update_fails hg.faultFree hd
    | delete => exact hbad
    | unknown c => exact hbad
  | peer p =>
    cases ty with
    | create =>
      obtain ⟨-, key, -, hu, -⟩ := (applyPeer_create_iff hg.faultFree).1 hd
      exact hbad ⟨key, hu⟩
    | update =>
      obtain ⟨-, -, key, -, hu, -⟩ := (applyPeer_update_iff hg.faultFree).1 hd
      exact hbad ⟨key, hu⟩
    | delete =>
      obtain ⟨-, key, -, hkey, -⟩ := (applyPeer_delete_ok_iff hg.faultFree).1 hd
      have hnone : parseKey p.publicKey = none := hbad
      rw [hnone] at hkey
      cases hkey
    | unknown c =>
      have hd : applyPeer (.unknown c) p g = (.ok (), g₁) := hd
      rw [applyPeer_unknown] at hd
      cases hd
  | token k => cases ty <;> exact hbad
  | other => cases ty <;> exact hbad

/-! ## Runs -/

namespace Deployment

variable {stack : Nat} {untyped : Value → Value} {x : Deployment}

/-- No call of the host fails for reasons of its own. -/
def Steady : Event → Prop
  | .faults _ => False
  | _ => True

/-- The gateway has not got past an operation that it cannot take. -/
structure Wedged (stack : Nat) (validName : String → Bool) (x : Deployment) : Prop extends x.Fed stack where
  hosted : x.gateway.Hosted validName
  stuck : ∀ k row op, x.primary.ahead.log.rows[k]? = some row → row.decode encoding = .ok op →
    Indigestible validName op →
    x.gateway.seq ≤ k

namespace Wedged

theorem fresh (stack : Nat) (validName : String → Bool) (driver : Driver) :
    (Deployment.fresh validName driver).Wedged stack validName :=
  ⟨.fresh stack validName driver, ⟨rfl, rfl⟩, fun _ _ _ _ _ _ => Nat.zero_le _⟩

theorem started (h : x.Wedged stack validName) {k : Kernel} (hk : Host validName k) :
    (x.started k).Wedged stack validName :=
  ⟨h.toFed.started k, hk, fun _ _ _ _ _ _ => Nat.zero_le _⟩

theorem delivered (h : x.Wedged stack validName) {op : Op Value} {row : OpSerialized} {ch : Nat}
    {wire : List (Op Value)} {up : Bool} {x' : Deployment} (hfed : x'.Fed stack)
    (hrow : x.primary.ahead.log.rows[x.gateway.seq]? = some row) (hdec : row.decode encoding = .ok op)
    (hs : x.returned (fun x => { x with phase := .following ch wire up }) (apply op true x.gateway) = some x') :
    x'.Wedged stack validName := by
  have hhost := apply_hosted op true x.gateway h.hosted
  have hseq := apply_seq op true x.gateway
  rcases ho : apply op true x.gateway with ⟨(_ | e | _ | _), g'⟩ <;> rw [ho] at hs hhost <;> cases hs
  · refine ⟨hfed, hhost, fun k row' op' hrow' hdec' hbad => ?_⟩
    have hle := h.stuck k row' op' hrow' hdec' hbad
    -- it is not this one that it has taken
    have hne : k ≠ x.gateway.seq := by
      rintro rfl
      have hrow' : x.primary.ahead.log.rows[x.gateway.seq]? = some row' := hrow'
      rw [hrow, Option.some.injEq] at hrow'
      subst hrow'
      rw [hdec, Except.ok.injEq] at hdec'
      subst hdec'
      exact hbad.refused h.hosted true ho
    have hg : g'.seq = x.gateway.seq + 1 :=
      ((hseq g').1 ho).trans ((Database.decode_seq hdec).symm.trans (h.origin.timeline.seq_eq hrow))
    show g'.seq ≤ k
    omega
  · refine ⟨hfed, hhost, fun k row' op' hrow' hdec' hbad => ?_⟩
    show g'.seq ≤ k
    rw [(hseq g').2 e ho]
    exact h.stuck k row' op' hrow' hdec' hbad
  · exact h.started hhost

theorem step (h : x.Wedged stack validName) {e : Event} (ha : x.Admitted e) (hsteady : Steady e) {x' : Deployment}
    (hs : Deployment.step stack untyped x e = some x') : x'.Wedged stack validName := by
  obtain ⟨hfed, hst⟩ := h.toFed.step ha hs
  cases hst with
  | moved e x' ho hahead hg =>
    refine ⟨hfed, hg ▸ h.hosted, ?_⟩
    rw [hahead, hg]
    exact h.stuck
  | wrote op row x' hm hr ho hg =>
    refine ⟨hfed, hg ▸ h.hosted, fun k row' op' hrow' hdec hbad => ?_⟩
    rw [hr.rows, List.getElem?_append] at hrow'
    rw [hg]
    split at hrow'
    · exact h.stuck k row' op' hrow' hdec hbad
    · -- the new operation is behind everything that the gateway has
      have hlen := h.length_rows
      have hle := h.le
      omega
  | delivered op row ch wire up x' hph hrow hdec hret => exact h.delivered hfed hrow hdec hret
  | faulted faults => exact hsteady.elim
  | stopped => exact h.started (closeAllInterfaces_host _ _ h.hosted)
  | killed => exact h.started h.hosted

end Wedged

/-- The events of a deployment whose host has no faults. -/
def SteadyRun (x : Deployment) (e : Event) : Prop := x.Admitted e ∧ Steady e

/-- In every such run, with whatever is written to the primary, however often the gateway is stopped or
killed, and whatever the kernel makes of the devices, the gateway has not got to the number of an operation
of the log that no gateway takes. -/
theorem gateway_wedged (stack : Nat) (untyped : Value → Value) (validName : String → Bool)
    (driver : Driver) {x : Deployment} (h : (system stack untyped).Reach SteadyRun (fresh validName driver) x)
    {row : OpSerialized} (hrow : row ∈ x.primary.ahead.log.rows) {op : Op Value} (hdec : row.decode encoding = .ok op)
    (hbad : Indigestible validName op) : x.gateway.seq < row.seq ∧ row.seq ≤ x.primary.ahead.sequence := by
  have hw : x.Wedged stack validName :=
    h.invariant (.fresh stack validName driver) fun _ _ _ hi he hs => hi.step he.1 he.2 hs
  obtain ⟨hpos, hle, hget⟩ := hw.origin.timeline.getElem?_row hrow
  have hstuck := hw.stuck _ row op hget hdec hbad
  exact ⟨by omega, hle⟩

/-- An interface is created and updated, and the gateway follows. -/
def updatedInterface : List Event :=
  writing (.create (.interface (sampleInterface "wg0"))) ++ writing (.update (.interface (sampleInterface "wg0"))) ++
    [.start, .subscribe] ++ round 0 ++ round 0

theorem updatedInterface_steady :
    (system 8 id).Along SteadyRun (fresh (fun _ => true) Driver.documented) updatedInterface := by
  refine ⟨⟨⟨rfl, _, _, rfl⟩, trivial⟩, fun _ _ => ⟨⟨rfl, trivial⟩, fun _ _ => ⟨⟨⟨rfl, _, _, rfl⟩, trivial⟩, fun _ _ =>
    ⟨⟨rfl, trivial⟩, fun _ _ => ⟨⟨trivial, trivial⟩, fun _ _ => ⟨⟨trivial, trivial⟩, fun _ _ => ?_⟩⟩⟩⟩⟩⟩
  exact ⟨⟨trivial, trivial⟩,
    fun _ _ => ⟨⟨trivial, trivial⟩, fun _ _ => ⟨⟨trivial, trivial⟩, fun _ _ => ⟨⟨trivial, trivial⟩,
    fun _ _ => ⟨⟨trivial, trivial⟩, fun _ _ => ⟨⟨trivial, trivial⟩, fun _ _ => trivial⟩⟩⟩⟩⟩⟩

theorem gateway_wedged_updatedInterface : ∃ x row,
    (system 8 id).run (fresh (fun _ => true) Driver.documented) updatedInterface = some x ∧
    row ∈ x.primary.ahead.log.rows ∧ x.primary.ahead.sequence = 2 ∧ x.gateway.seq < row.seq ∧ row.seq ≤ 2 := by
  have h : ((system 8 id).run (fresh (fun _ => true) Driver.documented) updatedInterface).map (fun x =>
      (x.primary.ahead.sequence, x.primary.ahead.log.rows.map (OpSerialized.decode encoding))) =
      some (2, [.ok (logged 1 (.create (.interface (sampleInterface "wg0")))),
        .ok (logged 2 (.update (.interface (sampleInterface "wg0"))))]) := by decide +kernel
  obtain ⟨x, hx, heq⟩ := Option.map_eq_some_iff.1 h
  rw [Prod.mk.injEq] at heq
  obtain ⟨hseq, hrows⟩ := heq
  obtain ⟨row, hrow, hdec⟩ : ∃ row ∈ x.primary.ahead.log.rows, row.decode encoding =
      .ok (logged 2 (.update (.interface (sampleInterface "wg0")))) :=
    List.mem_map.1 (by rw [hrows]; exact List.mem_cons_of_mem _ List.mem_cons_self)
  obtain ⟨hlt, hle⟩ := gateway_wedged 8 id (fun _ => true) Driver.documented
    ⟨updatedInterface, updatedInterface_steady, hx⟩ hrow hdec trivial
  exact ⟨x, row, hx, hrow, hseq, hlt, hseq ▸ hle⟩

end Deployment

end Wig.Gateway
