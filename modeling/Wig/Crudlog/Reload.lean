/-
Emptying a registry before a snapshot is loaded. `dispatcher.DeleteAll` goes over the registered types
and calls itself for each of them, so that the one registry it returns on is the empty one.
-/
import Wig.Crudlog.Calls
import Wig.Model.Registered

namespace Wig.Crud.Registry

open Wig.Lib

variable {T V Ty ρ : Type} [DecidableEq Ty] (typeOf : V → Ty)

/-- The registry after some types were registered, one after another. -/
def ofTypes (ms : List (ObjType T V)) : Registry T V Ty := ms.foldl (fun r m => r.register typeOf m) empty

theorem byName_register_ne (r : Registry T V Ty) (m : ObjType T V) : (r.register typeOf m).byName ≠ [] :=
  List.cons_ne_nil _ _

theorem foldl_register_ne : ∀ (ms : List (ObjType T V)) (r : Registry T V Ty), r.byName ≠ [] →
    (ms.foldl (fun r m => r.register typeOf m) r).byName ≠ []
  | [], _, h => h
  | m :: ms, r, _ => foldl_register_ne ms _ (byName_register_ne typeOf r m)

theorem byName_ofTypes_eq_nil {ms : List (ObjType T V)} : (ofTypes typeOf ms).byName = [] ↔ ms = [] := by
  cases ms with
  | nil => simp [ofTypes, empty]
  | cons m ms =>
    refine ⟨fun h => absurd h ?_, fun h => by cases h⟩
    exact foldl_register_ne typeOf ms _ (byName_register_ne typeOf empty m)

/-- The same registry, its names iterated in another order. -/
structure Reordered (r r' : Registry T V Ty) : Prop where
  byType : r'.byType = r.byType
  byName : r'.byName.Perm r.byName

/-- With enough room on the stack `DeleteAll` returns, and if it returns nil then the tables of all
registered types are empty. `rows` are the rows of the table of a type. -/
def Empties (r : Registry T V Ty) (rows : String → T → List ρ) (t : T) : Prop :=
  ∃ n, ∀ stack ≥ n, (r.deleteAll stack t).1.Returned ∧
    ((r.deleteAll stack t).1 = .ok () → ∀ m ∈ r.byName, rows m.1 (r.deleteAll stack t).2 = [])

omit [DecidableEq Ty] in
/-- However much room there is, `DeleteAll` uses it up. -/
theorem not_empties {r : Registry T V Ty} (h : r.byName ≠ []) (rows : String → T → List ρ) (t : T) :
    ¬ r.Empties rows t := by
  rintro ⟨n, hn⟩
  have hreturned := (hn n le_rfl).1
  rw [deleteAll_crash h] at hreturned
  exact hreturned

omit [DecidableEq Ty] in
theorem deleteAll_of_nil {r : Registry T V Ty} (h : r.byName = []) (stack : Nat) (t : T) :
    r.deleteAll (stack + 1) t = (.ok (), t) := by
  rw [deleteAll, h]
  rfl

theorem create_of_nil {r : Registry T V Ty} (h : r.byType = []) (obj : V) :
    r.create typeOf obj = .fail .unknownType := by
  have hget : r.getType typeOf obj = none := by rw [getType, h]; rfl
  rw [create, hget]

end Wig.Crud.Registry

namespace Wig.Crudlog

open Wig.Lib Wig.Crud

variable {T V : Type}

/-! ## Loading returns with the tables' part of it -/

theorem Database.setSequence_returned (seq : Nat) (d : Database T) : (setSequence seq d).1.Returned := by
  unfold setSequence
  split <;> trivial

theorem Datastore.withTransaction_returned {α : Type} {f : Proc (Datastore T V) Error α} {s : Datastore T V}
    (h : (f s).1.Returned) (commit : Bool) : (withTransaction commit f s).1.Returned := by
  rcases hf : f s with ⟨(a | e | _ | _), s'⟩
  · rw [withTransaction_ok hf]
    cases commit <;> trivial
  · rw [withTransaction_err hf]; trivial
  · rw [hf] at h; exact h.elim
  · rw [hf] at h; exact h.elim

theorem Datastore.loadSnapshot_returned {crud : CRUD T V} {snap : Snapshot V} {s : Datastore T V}
    (h : (reload crud snap.items s.db.tables).1.Returned) (commit : Bool) :
    (loadSnapshot crud snap commit s).1.Returned := by
  refine withTransaction_returned ?_ commit
  rw [loadSnapshotTx_eq, onDB_apply]
  exact Proc.bind_returned h fun _ d' _ => Database.setSequence_returned snap.seq d'

/-! ## When `DeleteAll` returns -/

section Registry

variable {Ty ρ : Type} [DecidableEq Ty] {typeOf : V → Ty}

/-- Loading into a registry without types fails at the first object, if there is one. -/
theorem reload_returned {r : Registry T V Ty} (hname : r.byName = []) (htype : r.byType = []) (stack : Nat)
    (items : List V) (t : T) : (Datastore.reload (r.crud typeOf (stack + 1)) items t).1.Returned := by
  have hdel : (r.crud typeOf (stack + 1)).deleteAll t = (.ok (), t) := Registry.deleteAll_of_nil hname stack t
  unfold Datastore.reload
  rw [Proc.bind_of_ok hdel]
  cases items with
  | nil => trivial
  | cons v items =>
    have hcreate : (r.crud typeOf (stack + 1)).create v t = (.err .unknownType, t) := by
      show r.create typeOf v t = _
      rw [Registry.create_of_nil typeOf htype]
      rfl
    rw [Proc.forEach_cons, Proc.bind_of_err hcreate]
    trivial

/-- `DeleteAll` returns, and so does every `LoadSnapshot`, just if no type is registered: whatever the
types, the order they are met in and what the tables hold. -/
theorem deleteAll_returns_iff {ms : List (ObjType T V)} {r : Registry T V Ty}
    (hr : (Registry.ofTypes typeOf ms).Reordered r) (rows : String → T → List ρ) (s : Datastore T V) :
    (r.Empties rows s.db.tables ∧ ∀ (snap : Snapshot V) (commit : Bool), ∃ n, ∀ stack ≥ n,
      (s.loadSnapshot (r.crud typeOf stack) snap commit).1.Returned) ↔ ms = [] := by
  constructor
  · rintro ⟨h, -⟩
    by_contra hms
    have hne : r.byName ≠ [] := fun hnil =>
      hms ((Registry.byName_ofTypes_eq_nil typeOf).1 (List.nil_perm.1 (hnil ▸ hr.byName)))
    exact Registry.not_empties hne rows _ h
  · rintro rfl
    have hname : r.byName = [] := List.perm_nil.1 hr.byName
    refine ⟨⟨1, fun stack hs => ?_⟩, fun snap commit => ⟨1, fun stack hs => ?_⟩⟩
    · obtain ⟨stack, rfl⟩ := Nat.exists_eq_add_of_le' hs
      rw [Registry.deleteAll_of_nil hname, hname]
      exact ⟨trivial, fun _ _ hm => (List.not_mem_nil hm).elim⟩
    · obtain ⟨stack, rfl⟩ := Nat.exists_eq_add_of_le' hs
      exact Datastore.loadSnapshot_returned (reload_returned hname hr.byType stack snap.items _) commit

end Registry

theorem deleteAll_returns_untyped :
    (Registry.ofTypes Model.Value.typeOf []).Empties (fun _ (t : Model.Tables) => t.tokens.rows) Model.Tables.empty ∧
      ∀ (snap : Snapshot Model.Value) (commit : Bool), ∃ n, ∀ stack ≥ n,
        ((Datastore.wrap (Database.fresh Model.Tables.empty)).loadSnapshot
          ((Registry.ofTypes Model.Value.typeOf []).crud Model.Value.typeOf stack) snap commit).1.Returned :=
  (deleteAll_returns_iff ⟨rfl, .refl _⟩ _ (Datastore.wrap (Database.fresh Model.Tables.empty))).2 rfl

/-- With the three types of the model, `DeleteAll` does not return even on empty tables. -/
theorem deleteAll_overflows :
    ¬ ∀ t : Model.Tables, ∃ n, ∀ stack ≥ n, (Model.registry.deleteAll stack t).1.Returned := by
  intro h
  obtain ⟨n, hn⟩ := h Model.Tables.empty
  have hreturned := hn n le_rfl
  rw [Registry.deleteAll_crash (List.cons_ne_nil _ _)] at hreturned
  exact hreturned

end Wig.Crudlog
