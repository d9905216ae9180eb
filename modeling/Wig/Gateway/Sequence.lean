/-
The gateway as a sink: what `Apply` does to the sequence number, and the errors it can return.
-/
import Wig.Crudlog.Sink
import Wig.Gateway.Wireguard

namespace Wig.Gateway

open Wig.Lib Wig.Net Wig.Model Wig.Crudlog Kernel

def latestSequence (g : Gateway) : Nat := g.seq

/-- What of a gateway an operation may change: its maps, its devices and its sequence. -/
def configuration (g : Gateway) : Table Interface.name × (String → Option String) × (String → Option Device) × Nat :=
  (g.intfs, g.peerIndex, g.kernel.devices, g.seq)

/-! ## The kernel's errors -/

/-- The errors that are the gateway's own business. -/
def Ordinary (e : Error) : Prop := e ≠ .outOfSequence

instance : DecidablePred Ordinary := fun e => inferInstanceAs (Decidable (e ≠ .outOfSequence))

section Kernel

/-- Of the kernel nothing need stay; its calls matter for their errors. -/
def anything : Kernel → Unit := fun _ => ()

theorem call_leaves {f : Kernel → Except Error Kernel} (hf : ∀ k e, f k = .error e → Ordinary e) :
    (call f).Leaves anything Ordinary := by
  refine fun k => ⟨rfl, fun e he => ?_⟩
  unfold call at he
  split at he
  · cases he; decide
  · split at he
    · cases he
    · rename_i herr
      cases he
      exact hf _ _ herr

theorem onDevice_leaves {missing : Error} (hm : Ordinary missing) (name : String)
    (f : Kernel → Device → Option (Option Device)) : (onDevice missing name f).Leaves anything Ordinary := by
  refine call_leaves fun k e he => ?_
  split at he
  · cases he; exact hm
  · split at he <;> cases he
    decide

theorem ask_leaves {missing : Error} (hm : Ordinary missing) (name : String) (a : Ask) :
    (ask missing name a).Leaves anything Ordinary := onDevice_leaves hm name _

theorem linkAdd_leaves (name : String) : (linkAdd name).Leaves anything Ordinary := by
  unfold linkAdd
  split
  · exact Proc.leaves_fail (by decide)
  · refine call_leaves fun k e he => ?_
    split at he
    · cases he; decide
    · split at he <;> cases he
      decide

theorem bringDown_leaves (name : String) : (bringDown name).Leaves anything Ordinary := by
  refine Proc.Leaves.bind (onDevice_leaves (by decide) name _).succeeds fun found => ?_
  split
  · exact (onDevice_leaves (by decide) name _).bind fun _ => onDevice_leaves (by decide) name _
  · exact Proc.leaves_pure ()

theorem configureDevice_leaves (name : String) (cfg : Config) :
    (configureDevice name cfg).Leaves anything Ordinary := by
  refine Proc.Leaves.forEach (fun cfg => ?_) _
  unfold configureBatch
  split
  · exact ask_leaves (by decide) name _
  · exact Proc.leaves_fail (by decide)

theorem startInterface_leaves (i : Interface) : (startInterface i).Leaves anything Ordinary :=
  (bringDown_leaves i.name).bind fun _ => (linkAdd_leaves i.name).bind fun _ =>
    (Proc.Leaves.forEach (fun _ => ask_leaves (by decide) i.name _) _).bind fun _ =>
      ask_leaves (by decide) i.name _

theorem initializeInterface_leaves (i : Interface) : (initializeInterface i).Leaves anything Ordinary := by
  unfold initializeInterface
  split
  · exact Proc.leaves_fail (by decide)
  · exact configureDevice_leaves i.name _

end Kernel

/-! ## The gateway's errors -/

theorem onKernel_leaves {α : Type} {x : Proc Kernel Error α} (hx : x.Leaves anything Ordinary) :
    (onKernel x).Leaves latestSequence Ordinary := hx.zoom fun _ _ => rfl

theorem configureWGDevice_leaves (wgi : Option Interface) (cfg : Config) :
    (configureWGDevice wgi cfg).Leaves latestSequence Ordinary := by
  cases wgi with
  | none => exact Proc.leaves_crash
  | some i => exact onKernel_leaves (configureDevice_leaves i.name cfg)

theorem peerToConfig_leaves (p : Peer) (update remove : Bool) :
    (Proc.lift (peerToConfig p update remove)).Leaves latestSequence Ordinary := by
  refine Proc.leaves_lift fun e he => ?_
  unfold peerToConfig at he
  split at he
  · cases he; decide
  · simp only at he
    split at he
    · cases he
    · split at he <;> cases he
      decide

theorem applyInterface_leaves (ty : OpType) (i : Interface) : (applyInterface ty i).Leaves latestSequence Ordinary := by
  refine Proc.leaves_get.bind fun g => ?_
  split
  · exact Proc.leaves_fail (by decide)
  · exact (onKernel_leaves ((startInterface_leaves i).bind fun _ => initializeInterface_leaves i)).bind fun _ =>
      Proc.leaves_modify fun _ => rfl
  · exact Proc.leaves_fail (by decide)
  · exact (onKernel_leaves (bringDown_leaves _)).bind fun _ =>
      Proc.Leaves.bind (Proc.leaves_modify fun _ => rfl) fun _ =>
      (onKernel_leaves (initializeInterface_leaves i)).bind fun _ => onKernel_leaves (startInterface_leaves i)
  · exact Proc.leaves_fail (by decide)
  · exact (onKernel_leaves (bringDown_leaves _)).ignoreErr.bind fun _ => Proc.leaves_modify fun _ => rfl
  · exact Proc.leaves_pure ()

theorem deconfigure_leaves (p : Peer) : (deconfigure p).Leaves latestSequence Ordinary := by
  refine Proc.leaves_get.bind fun g => ?_
  simp only
  split
  · exact (configureWGDevice_leaves _ _).ignoreErr
  · exact Proc.leaves_pure _

theorem applyPeer_leaves (ty : OpType) (p : Peer) : (applyPeer ty p).Leaves latestSequence Ordinary := by
  have hset : (setIndex p.publicKey p.interface).Leaves latestSequence Ordinary := Proc.leaves_modify fun _ => rfl
  refine Proc.leaves_get.bind fun g => ?_
  split
  · exact Proc.leaves_fail (by decide)
  · exact hset.bind fun _ => (peerToConfig_leaves p false false).bind fun _ => configureWGDevice_leaves _ _
  · exact Proc.leaves_fail (by decide)
  · exact (deconfigure_leaves p).bind fun _ => hset.bind fun _ =>
      (peerToConfig_leaves p true false).bind fun _ => configureWGDevice_leaves _ _
  · exact (peerToConfig_leaves p false true).bind fun _ => configureWGDevice_leaves _ _
  · exact configureWGDevice_leaves _ _

theorem dispatch_leaves (op : Op Value) : (dispatch op).Leaves latestSequence Ordinary := by
  unfold dispatch
  split
  · exact applyPeer_leaves op.type _
  · exact applyInterface_leaves op.type _
  · exact Proc.leaves_pure ()
  · exact Proc.leaves_pure ()

/-- `Apply` never returns `ErrOutOfSequence`. -/
theorem apply_leaves (op : Op Value) (fromLog : Bool) :
    (apply op fromLog).Leaves (fun _ => ()) fun e => e ≠ .outOfSequence := by
  refine fun g => ⟨rfl, fun e he => ?_⟩
  rw [apply_eq] at he
  have hd := (dispatch_leaves op g).2
  rcases h : dispatch op g with ⟨(u | e' | _ | _), g'⟩
  · rw [Proc.bind_of_ok h] at he; cases he
  · rw [Proc.bind_of_err h] at he; rw [h] at hd; cases he; exact hd _ rfl
  · rw [Proc.bind_of_crash h] at he; cases he
  · rw [Proc.bind_of_block h] at he; cases he

/-- The sequence is stored last, and only when everything before went well. -/
theorem apply_seq (op : Op Value) (fromLog : Bool) (g g' : Gateway) :
    (apply op fromLog g = (.ok (), g') → g'.seq = op.seq) ∧ ∀ e, apply op fromLog g = (.err e, g') →
      g'.seq = g.seq := by
  rw [apply_eq]
  have hd := (dispatch_leaves op g).1
  rcases h : dispatch op g with ⟨(u | e' | _ | _), g₁⟩
  · rw [Proc.bind_of_ok h]
    exact ⟨fun heq => by cases heq; rfl, fun e heq => by cases heq⟩
  · rw [Proc.bind_of_err h]
    rw [h] at hd
    exact ⟨fun heq => (by cases heq), fun e heq => by cases heq; exact hd⟩
  · rw [Proc.bind_of_crash h]
    exact ⟨fun heq => (by cases heq), fun e heq => by cases heq⟩
  · rw [Proc.bind_of_block h]
    exact ⟨fun heq => (by cases heq), fun e heq => by cases heq⟩

theorem system_step (g : Gateway) (e : Event) : system.step g e = (System.ofCalls handle).step g e := by
  show step g e = _
  rcases h : handle e g with ⟨(_ | _ | _ | _), _⟩ <;> simp only [step, System.ofCalls, h]

theorem stepwise_apply {g : Gateway} {op : Op Value} (hop : op.seq = nextNumber g.latestSequence) (fromLog : Bool) :
    Stepwise system latestSequence g (.apply op fromLog) := by
  intro g' hg'
  rw [system_step] at hg'
  rcases System.ofCalls_step hg' with ⟨_, h⟩ | ⟨e, h⟩
  · exact .inr (((apply_seq op fromLog g g').1 h).trans hop)
  · exact .inl ((apply_seq op fromLog g g').2 e h)

end Wig.Gateway
