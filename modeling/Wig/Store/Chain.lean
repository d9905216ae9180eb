/-
A chain of datastores: B follows A, and C follows B. C has A's tables as long as no snapshot takes B
past a connected C; when B falls back to a snapshot while C is connected, what the snapshot brought never
goes to C.
-/
import Wig.Crudlog.Chain
import Wig.Store.Copy

namespace Wig.Store

open Wig.Lib Wig.Crudlog Wig.Model Wig.Crud

/-- Over any CRUD that replays and copies, in every run in which no snapshot takes B past a connected C,
and C subscribes only where B's log reaches back to: C has the tables that A had at C's number, and the next
operation it takes is A's next one. A's operations are those committed, and the one of an `Apply` in progress. -/
theorem chain_agrees {T V : Type} {t₀ : T} {Good : T → Prop} {crud : CRUD T V} {enc : Encoding V}
    (hR : Replayable crud enc) (hC : Copies crud Good) (h₀ : Good t₀) {trA trB : Transport V} (hA : trA.Faithful crud)
    (hB : trB.Faithful crud) {x : Chain T V}
    (h : (Chain.system crud enc trA trB).Reach (fun x e => x.Admitted e ∧ x.InOrder e) (Chain.fresh t₀) x) :
    (∃ y, x.operations[x.c.db.sequence]? = some y ∧ y.sequence = x.c.db.sequence ∧ y.tables = x.c.db.tables) ∧
      ∀ ch op wire up, x.cPhase = .following ch (op :: wire) up → op.seq = x.c.db.sequence + 1 :=
  (Chain.Consistent.reach hR hC h₀ hA hB h).sink

/-! ## At the program's types -/

/-- Three datastores in one process, over a CRUD that copies. -/
def chainSystem : System (Chain Tables Value) (ChainEvent Value) :=
  Chain.system (orderedCRUD [.interfaces, .peers, .tokens]) encoding .inProcess .inProcess

/-- A token is created on A, and goes to the subscribers there. -/
def writeToken (id : String) (subscribers : Nat) : List (ChainEvent Value) :=
  .up (.primary (.apply (newOp .create Time.zero (.token ⟨id, "s", none⟩)) false)) ::
    (List.replicate subscribers (.up (.primary .send)) ++ [.up (.primary (.commit true))])

/-- A first token reaches B, and then C. -/
def firstToken : List (ChainEvent Value) :=
  writeToken "a" 0 ++ [.up .start, .up (.subscribe true), .up (.primary (.forward 0)), .up .fetch, .up (.deliver true),
    .down .start, .down (.subscribe true), .down (.primary (.forward 0)), .down .fetch, .down (.deliver true)]

/-- The connection to A breaks, a second token is created, and A cannot read its sequence when B
comes back: B loads a snapshot, and subscribes from there. -/
def secondToken : List (ChainEvent Value) :=
  [.up (.disconnect 0), .up .eof] ++ writeToken "b" 1 ++
    [.up .start, .misreadB, .up (.snapshot true), .up (.subscribe true)]

/-- A third token reaches B over its new subscription. -/
def thirdToken : List (ChainEvent Value) :=
  writeToken "c" 2 ++ [.up (.primary (.forward 1)), .up (.primary (.forward 1)), .up .fetch, .up (.deliver true)]

/-- The next operation on a channel of B reaches C. -/
def nextToC (ch : Nat) : List (ChainEvent Value) :=
  [.down (.primary (.forward ch)), .down (.primary (.forward ch)), .down .fetch, .down (.deliver true)]

def cLeaves : List (ChainEvent Value) := [.down (.disconnect 0), .down .eof]

/-- B cannot read its sequence when C comes back. -/
def cReturns : List (ChainEvent Value) := [.down .start, .misreadC, .down (.snapshot true), .down (.subscribe true)]

/-- C goes away before B loads the snapshot, and comes back for one of its own. -/
def orderlyRun : List (ChainEvent Value) := firstToken ++ cLeaves ++ secondToken ++ cReturns ++ thirdToken ++ nextToC 1

theorem chain_agrees_orderlyRun :
    ∃ x, chainSystem.run (Chain.fresh Tables.empty) orderlyRun = some x ∧ x.c.db.sequence = 3 ∧
    ∃ y, x.operations[x.c.db.sequence]? = some y ∧ y.sequence = x.c.db.sequence ∧ y.tables = x.c.db.tables := by
  have halong : chainSystem.Along (fun x e => x.Admitted e ∧ x.InOrder e) (Chain.fresh Tables.empty) orderlyRun := by
    decide +kernel
  have hrun : (chainSystem.run (Chain.fresh Tables.empty) orderlyRun).map (fun x => x.c.db.sequence) = some 3 := by
    decide +kernel
  obtain ⟨x, hx, hseq⟩ := Option.map_eq_some_iff.1 hrun
  exact ⟨x, hx, hseq,
    (chain_agrees (orderedCRUD_replayable _) (orderedCRUD_copies isOrder_interfaces_first rfl) Tables.Stored.empty
    (Transport.faithful_inProcess _) (Transport.faithful_inProcess _) ⟨orderlyRun, halong, hx⟩).1⟩

/-- C stays connected while B loads the snapshot, and takes the third token without the second. -/
def skippingRun : List (ChainEvent Value) := firstToken ++ secondToken ++ thirdToken ++ nextToC 0

theorem chain_skips_operation : ¬ ∀ crud : CRUD Tables Value, Replayable crud encoding → Copies crud Tables.Stored →
    ∀ x, (Chain.system crud encoding .inProcess .inProcess).Reach Chain.Admitted (Chain.fresh Tables.empty) x →
      ∃ y, x.operations[x.c.db.sequence]? = some y ∧ y.tables = x.c.db.tables := by
  intro h
  have halong : chainSystem.Along Chain.Admitted (Chain.fresh Tables.empty) skippingRun := by decide +kernel
  -- A had three tokens at that number, and C has two
  have hrun : (chainSystem.run (Chain.fresh Tables.empty) skippingRun).map (fun x =>
      ((x.operations[x.c.db.sequence]?).map fun y => y.tables.tokens.rows.map TokenRow.id,
        x.c.db.tables.tokens.rows.map TokenRow.id)) =
      some (some ["a", "b", "c"], ["a", "c"]) := by decide +kernel
  obtain ⟨x, hx, hids⟩ := Option.map_eq_some_iff.1 hrun
  obtain ⟨y, hy, ht⟩ :=
    h _ (orderedCRUD_replayable _) (orderedCRUD_copies isOrder_interfaces_first rfl) x ⟨skippingRun, halong, hx⟩
  rw [Prod.mk.injEq, hy, Option.map_some, ht] at hids
  obtain ⟨hA, hC⟩ := hids
  rw [hC] at hA
  exact absurd hA (by decide)

end Wig.Store
