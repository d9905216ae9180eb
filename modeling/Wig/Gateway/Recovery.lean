/-
A gateway that follows a plain log, whose tables its host can have, shows the tables the primary had at the
gateway's number, in every run of the deployment. A gateway that was killed leaves its devices behind.
`startInterface` takes down what it finds under its name, so a gateway started again among the devices of an
earlier one takes the log as on a clean host, as long as no port goes from one interface to another, and
every device of the earlier one is gone when it has caught up.
-/
import Wig.Gateway.Follow
import Wig.Gateway.Snapshot

namespace Wig.Gateway.Deployment

open Wig.Lib Wig.Net Wig.Model Wig.Crudlog Wig.Store Kernel

variable {stack : Nat} {untyped : Value → Value} {validName : String → Bool} {τ : Terms} {x : Deployment}

/-! ## Interfaces of the history -/

/-- An interface that the primary has after more than `k` operations. -/
def Ahead (hist : List (Database Tables)) (k : Nat) (name : String) : Prop :=
  ∃ (j : Nat) (y : Database Tables), k < j ∧ hist[j]? = some y ∧ name ∈ y.tables.interfaces.keys

/-- What can be left on the host by an earlier gateway: the device of an interface ahead, on a port that the
interface had at some time. -/
def Left (hist : List (Database Tables)) (k : Nat) (name : String) (port : Nat) : Prop :=
  Ahead hist k name ∧ ∃ y ∈ hist, ∃ r ∈ y.tables.interfaces.rows, r.name = name ∧ port16 r.port = port

/-- No port of the tables is one that an interface of another name has had. -/
def PortsKept (hist : List (Database Tables)) (t : Tables) : Prop :=
  ∀ y ∈ hist, ∀ r ∈ y.tables.interfaces.rows, ∀ r' ∈ t.interfaces.rows,
  port16 r'.port = port16 r.port → r'.name = r.name

instance (hist : List (Database Tables)) (t : Tables) : Decidable (PortsKept hist t) :=
  inferInstanceAs (Decidable (∀ y ∈ hist, ∀ r ∈ y.tables.interfaces.rows, ∀ r' ∈ t.interfaces.rows,
    port16 r'.port = port16 r.port → r'.name = r.name))

section History

variable {hist : List (Database Tables)} {k : Nat} {name : String} {port : Nat}

theorem Ahead.extend (h : Ahead hist k name) (more : List (Database Tables)) : Ahead (hist ++ more) k name := by
  obtain ⟨j, y, hj, hy, hmem⟩ := h
  exact ⟨j, y, hj, (List.getElem?_append_left (List.getElem?_eq_some_iff.1 hy).1).trans hy, hmem⟩

/-- An interface that is not ahead any more is one of the next tables. -/
theorem Ahead.next {z : Database Tables} (hz : hist[k + 1]? = some z) (hname : name ∉ z.tables.interfaces.keys)
    (h : Ahead hist k name) : Ahead hist (k + 1) name := by
  obtain ⟨j, y, hj, hy, hmem⟩ := h
  have hne : j ≠ k + 1 := by
    rintro rfl
    rw [hz, Option.some.injEq] at hy
    exact hname (hy ▸ hmem)
  exact ⟨j, y, by omega, hy, hmem⟩

theorem Left.extend (h : Left hist k name port) (more : List (Database Tables)) : Left (hist ++ more) k name port := by
  obtain ⟨hahead, y, hy, hr⟩ := h
  exact ⟨hahead.extend more, y, List.mem_append_left _ hy, hr⟩

theorem Left.from_start (h : Left hist k name port) : Left hist 0 name port := by
  obtain ⟨⟨j, y, hj, hy⟩, hport⟩ := h
  exact ⟨⟨j, y, by omega, hy⟩, hport⟩

/-- A created interface is on a port that no device left over has. -/
theorem PortsKept.clear {c : Call Value} {t t' : Tables} (h : PortsKept hist t') (hc : call t c = .ok t') :
    Clear (Left hist k) c := by
  cases c with
  | create v =>
    cases v with
    | interface i =>
      rintro name _ hne ⟨-, y, hy, r, hr, rfl, rfl⟩ heq
      obtain ⟨hins, -⟩ := call_create_interface hc
      exact hne (h y hy r hr i.row ((Table.mem_insert hins).2 (.inr rfl)) heq.symm).symm
    | _ => trivial
  | _ => trivial

end History

/-! ## The invariant -/

/-- The primary is written with calls that make a plain log, the host can have the tables they leave, and no
port goes from one interface to another; and no call of the host fails for reasons of its own. -/
def HostedWrite (validName : String → Bool) (τ : Terms) (x : Deployment) : Event → Prop
  | .primary (.apply op _) => ∃ (c : Call Value) (now : Time), op = c.newOp now ∧ Plain x.primary.store.db.tables c ∧
      ∀ t', call x.primary.store.db.tables c = .ok t' → Hostable validName τ t' ∧ PortsKept x.history t'
  | .faults _ => False
  | _ => True

/-- Every operation of the history is a plain call, and its row gives it back. -/
def Written (hist : List (Database Tables)) (rows : List OpSerialized) : Prop :=
  ∀ (k : Nat) x y row, hist[k]? = some x → hist[k + 1]? = some y → rows[k]? = some row →
    ∃ c : Call Value, call x.tables c = .ok y.tables ∧ Plain x.tables c ∧ row.decode encoding = .ok (logged (k + 1) c)

structure Consistent (stack : Nat) (validName : String → Bool) (τ : Terms) (x : Deployment) :
    Prop extends x.Fed stack where
  written : Written x.operations x.primary.ahead.log.rows
  hostable : ∀ y ∈ x.operations, Hostable validName τ y.tables
  ports : ∀ y ∈ x.operations, PortsKept x.operations y.tables
  first : ∀ y, x.operations[0]? = some y → y.tables = Tables.empty
  gateway : ∀ y, x.operations[x.gateway.seq]? = some y →
    Refines validName τ (Left x.operations x.gateway.seq) y.tables x.gateway

/-- One more plain call. -/
theorem Written.concat {hist : List (Database Tables)} {rows : List OpSerialized}
    {d d' : Database Tables} {row : OpSerialized} (h : Written hist rows) (hh : History (crud stack) encoding hist d)
    (hlen : rows.length = d.sequence) (hc : ∃ c : Call Value, call d.tables c = .ok d'.tables ∧ Plain d.tables c ∧
      row.decode encoding = .ok (logged (d.sequence + 1) c)) : Written (hist ++ [d']) (rows ++ [row]) := by
  intro k x y row' hx hy hrow
  have hhist := hh.length
  by_cases hk : k < d.sequence
  · rw [List.getElem?_append_left (by omega)] at hx hy hrow
    exact h k x y row' hx hy hrow
  · -- the last operation: no database comes after the next one
    have hlt := (List.getElem?_eq_some_iff.1 hrow).1
    rw [List.length_append, List.length_singleton] at hlt
    have hk : k = d.sequence := by omega
    subst hk
    rw [List.getElem?_append_left (by omega), hh.last, Option.some.injEq] at hx
    rw [← hhist, List.getElem?_concat_length, Option.some.injEq] at hy
    rw [← hlen, List.getElem?_concat_length, Option.some.injEq] at hrow
    subst hx hy hrow
    exact hc

/-- One database more, on the ports there are. -/
theorem ports_concat {hist : List (Database Tables)} {d : Database Tables} (h : ∀ y ∈ hist, PortsKept hist y.tables)
    (hd : PortsKept hist d.tables)
    (hself : ∀ r ∈ d.tables.interfaces.rows, ∀ r' ∈ d.tables.interfaces.rows,
      port16 r.port = port16 r'.port → r.name = r'.name) :
    ∀ y ∈ hist ++ [d], PortsKept (hist ++ [d]) y.tables := by
  intro y hy z hz r hr r' hr' heq
  rcases List.mem_append.1 hy with hy | hy <;> rcases List.mem_append.1 hz with hz | hz
  · exact h y hy z hz r hr r' hr' heq
  · rw [List.mem_singleton.1 hz] at hr
    exact (hd y hy r' hr' r hr heq.symm).symm
  · rw [List.mem_singleton.1 hy] at hr'
    exact hd z hz r hr r' hr' heq
  · rw [List.mem_singleton.1 hz] at hr
    rw [List.mem_singleton.1 hy] at hr'
    exact hself r' hr' r hr heq

namespace Consistent

theorem fresh (stack : Nat) (validName : String → Bool) {driver : Driver} (hl : driver.Lawful τ) :
    (Deployment.fresh validName driver).Consistent stack validName τ := by
  have hops : (Deployment.fresh validName driver).operations = [Database.fresh Tables.empty] := rfl
  refine ⟨.fresh stack validName driver, ?_, ?_, ?_, ?_, ?_⟩
  · intro k x y row _ hy
    simp [hops] at hy
  · intro y hy
    rw [hops, List.mem_singleton] at hy
    subst hy
    refine ⟨?_, ?_, ?_, ?_, ?_⟩ <;> exact fun _ hr => (List.not_mem_nil hr).elim
  · intro y hy z _ _ _ r' hr'
    rw [hops, List.mem_singleton] at hy
    subst hy
    exact (List.not_mem_nil hr').elim
  · intro y hy
    cases hy
    rfl
  · intro y hy
    cases hy
    exact .start rfl rfl hl fun _ _ hd => by cases hd

/-- Every device of the host is of an interface that the primary had at some time. -/
theorem device_left (h : x.Consistent stack validName τ) {name : String} {d : Device}
    (hd : x.gateway.kernel.devices name = some d) : Left x.operations 0 name d.listenPort := by
  obtain ⟨y, hy, -⟩ := h.behind
  have hr := h.gateway y hy
  by_cases hmem : name ∈ y.tables.interfaces.keys
  · rw [hr.hosts.devices name hmem] at hd
    obtain ⟨r, hrow, hname, hport, -⟩ := deviceOf_row hd
    refine ⟨⟨x.gateway.seq, y, Nat.pos_of_ne_zero fun hzero => ?_, hy, hmem⟩, y,
      List.mem_of_getElem? hy, r, hrow, hname, hport.symm⟩
    rw [hzero] at hy
    rw [h.first y hy] at hmem
    exact List.not_mem_nil hmem
  · exact (hr.hosts.leftover name hmem d hd).from_start

/-- A gateway started again, on a host whose devices are of interfaces that the primary had at some time. -/
theorem started (h : x.Consistent stack validName τ) {k : Kernel} (hf : k.FaultFree) (hv : k.validName = validName)
    (hl : k.driver.Lawful τ) (hk : ∀ name d, k.devices name = some d → Left x.operations 0 name d.listenPort) :
    (x.started k).Consistent stack validName τ := by
  refine ⟨h.toFed.started k, h.written, h.hostable, h.ports, h.first, fun y hy => ?_⟩
  rw [h.first y hy]
  exact .start hf hv hl hk

/-- The gateway is stopped in an orderly way: the devices of its interfaces go. -/
theorem closed (h : x.Consistent stack validName τ) :
    (x.started (closeAllInterfaces x.gateway.intfs.rows x.gateway.kernel).2).Consistent stack validName τ := by
  obtain ⟨y, hy, -⟩ := h.behind
  have hr := h.gateway y hy
  obtain ⟨k, ho, hf, hv, hdrv, hd⟩ := closeAllInterfaces_eq x.gateway.intfs.rows hr.faultFree
  rw [ho]
  refine h.started hf (hv.trans hr.names) (hdrv ▸ hr.lawful) fun name d hdev => ?_
  rw [hd] at hdev
  split at hdev
  · cases hdev
  · exact h.device_left hdev

/-- The primary's next operation is a plain call. -/
theorem recorded (h : x.Consistent stack validName τ) (hm : x.primary.emission = none) {c : Call Value}
    (hp : Plain x.primary.store.db.tables c)
    (ht : ∀ t', call x.primary.store.db.tables c = .ok t' → Hostable validName τ t' ∧ PortsKept x.history t')
    {now : Time} {row : OpSerialized} {x' : Deployment}
    (hr : Database.Recorded (crud stack) encoding ((c.newOp now).assign false x.primary.ahead) row
      x.primary.ahead x'.primary.ahead)
    (ho : x'.operations = x.operations ++ [x'.primary.ahead]) (hg : x'.gateway = x.gateway) (hfed : Fed stack x') :
    Consistent stack validName τ x' := by
  have hassign : (c.newOp now).assign false x.primary.ahead =
      (c.newOp now).withSequence (x.primary.ahead.sequence + 1) := by
    show (c.newOp now).withSequence x.primary.ahead.getNextSequence = _
    rw [Database.getNextSequence_eq]
  have hops : x.operations = x.history := Node.known_of_none hm _
  have hcall : call x.primary.ahead.tables c = .ok x'.primary.ahead.tables :=
    call_of_applyOp stack (hassign ▸ hr.applied)
  rw [← Node.ahead_of_none hm] at hp ht
  obtain ⟨hhost, hports⟩ := ht _ hcall
  have hlen : x.operations.length = x.primary.ahead.sequence + 1 := h.origin.timeline.history.length
  have hle := h.le
  have hold : ∀ {k : Nat}, k ≤ x.primary.ahead.sequence → ∀ y, x'.operations[k]? = some y →
      x.operations[k]? = some y := by
    intro k hk y hy
    rw [ho, List.getElem?_append_left (by omega)] at hy
    exact hy
  refine ⟨hfed, ?_, ?_, ?_, fun y hy => h.first y (hold (Nat.zero_le _) y hy), ?_⟩
  · rw [ho, hr.rows]
    exact h.written.concat h.origin.timeline.history h.length_rows
      ⟨c, hcall, hp, decode_logged (hassign ▸ hr.serialized)⟩
  · intro y hy
    rw [ho] at hy
    rcases List.mem_append.1 hy with hy | hy
    · exact h.hostable y hy
    · rw [List.mem_singleton.1 hy]
      exact hhost
  · rw [ho]
    exact ports_concat h.ports (hops ▸ hports) hhost.ports
  · rw [hg]
    intro y hy
    refine (h.gateway y (hold hle y hy)).mono fun _ _ _ hleft => ?_
    rw [ho]
    exact hleft.extend _

/-- The operation of the gateway's next row is a plain call, and the gateway takes it. -/
theorem takes (h : x.Consistent stack validName τ) {op : Op Value} {row : OpSerialized}
    (hrow : x.primary.ahead.log.rows[x.gateway.seq]? = some row) (hdec : row.decode encoding = .ok op) :
    ∃ z g', x.operations[x.gateway.seq + 1]? = some z ∧ apply op true x.gateway = (.ok (), g') ∧
      g'.seq = x.gateway.seq + 1 ∧ Refines validName τ (Left x.operations (x.gateway.seq + 1)) z.tables g' := by
  obtain ⟨y, hy, -⟩ := h.behind
  have hlt := (List.getElem?_eq_some_iff.1 hrow).1
  have hlen := h.length_rows
  have hhist : x.operations.length = x.primary.ahead.sequence + 1 := h.origin.timeline.history.length
  obtain ⟨z, hz⟩ : ∃ z, x.operations[x.gateway.seq + 1]? = some z := ⟨_, List.getElem?_eq_getElem (by omega)⟩
  have hmem := List.mem_of_getElem? hz
  obtain ⟨c, hcall, hp, hlog⟩ := h.written _ y z row hy hz hrow
  rw [hlog, Except.ok.injEq] at hdec
  subst hdec
  obtain ⟨g₁, hd, hr⟩ :=
    (h.gateway y hy).step hcall hp (h.hostable z hmem) ((h.ports z hmem).clear hcall) (x.gateway.seq + 1)
  refine ⟨z, _, hz, apply_ok_iff.2 ⟨g₁, hd, rfl⟩, rfl, (hr.setSeq _).mono fun name hname port hleft => ?_⟩
  exact ⟨hleft.1.next hz hname, hleft.2⟩

theorem step (h : x.Consistent stack validName τ) {e : Event} (ha : x.Admitted e) (hp : x.HostedWrite validName τ e)
    {x' : Deployment} (hs : Deployment.step stack untyped x e = some x') : x'.Consistent stack validName τ := by
  obtain ⟨hfed, hst⟩ := h.toFed.step ha hs
  cases hst with
  | moved e x' ho hahead hg =>
    refine ⟨hfed, ?_, ?_, ?_, ?_, ?_⟩ <;> rw [ho]
    · rw [hahead]
      exact h.written
    · exact h.hostable
    · exact h.ports
    · exact h.first
    · rw [hg]
      exact h.gateway
  | wrote op row x' hm hr ho hg =>
    obtain ⟨c, now, rfl, hplain, htables⟩ := hp
    exact h.recorded hm hplain htables hr ho hg hfed
  | delivered op row ch wire up x' hph hrow hdec hret =>
    obtain ⟨z, g', hz, ho, hseq, hg'⟩ := h.takes hrow hdec
    rw [ho] at hret
    cases hret
    refine ⟨hfed, h.written, h.hostable, h.ports, h.first, fun y hy => ?_⟩
    have hy : x.operations[g'.seq]? = some y := hy
    show Refines validName τ (Left x.operations g'.seq) y.tables g'
    rw [hseq] at hy ⊢
    rw [hz, Option.some.injEq] at hy
    exact hy ▸ hg'
  | faulted faults => exact hp.elim
  | stopped => exact h.closed
  | killed =>
    obtain ⟨y, hy, -⟩ := h.behind
    have hr := h.gateway y hy
    exact h.started hr.faultFree hr.names hr.lawful fun _ _ hd => h.device_left hd

/-- A gateway that has caught up shows the primary's tables. -/
theorem shows (h : x.Consistent stack validName τ) (hseq : x.gateway.seq = x.primary.ahead.sequence) :
    Shows x.primary.ahead.tables x.gateway := by
  have hlast : x.operations[x.gateway.seq]? = some x.primary.ahead := hseq ▸ h.origin.timeline.history.last
  refine (h.gateway _ hlast).shows ?_
  rintro name port ⟨⟨j, y, hj, hy, -⟩, -⟩
  have := h.origin.timeline.history.lt hy
  omega

end Consistent

/-- The events of a deployment whose primary is written with a plain log that the gateway's host can have. -/
def HostedRun (validName : String → Bool) (τ : Terms) (x : Deployment) (e : Event) : Prop :=
  x.Admitted e ∧ x.HostedWrite validName τ e

theorem Consistent.reach {driver : Driver} (hl : driver.Lawful τ)
    (h : (system stack untyped).Reach (HostedRun validName τ) (Deployment.fresh validName driver) x) :
    x.Consistent stack validName τ :=
  h.invariant (.fresh stack validName hl) fun _ _ _ hi he hs => hi.step he.1 he.2 hs

/-- An interface is created, and the gateway takes it. -/
def oneInterface : List Event :=
  writing (.create (.interface (sampleInterface "wg0"))) ++ [.start, .subscribe] ++ round 0

section Round

variable (untyped)
variable {ch : Nat} {op : Op Value} {preload : List (Op Value)}

end Round

end Wig.Gateway.Deployment
