/-
A snapshot taken from one datastore and loaded into another. The objects come grouped by type, in
the order a Go map is iterated in, and the foreign key of the peers is checked at every insert.
-/
import Wig.Model.Stored
import Wig.Store.Accepted

namespace Wig.Store

open Wig.Lib Wig.Crud Wig.Model Wig.Crudlog

/-! ## A CRUD that copies -/

/-- A registered type whose `Each` visits the rows of its table. -/
def visitingType (n : TableName) : ObjType Tables Value :=
  let m := match n with
    | .interfaces => interfaceType
    | .peers => peerType
    | .tokens => tokenType
  { m with each := fun t => (.ofExcept (t.visit n), t) }

/-- The registry, its names iterated in the given order. -/
def orderedRegistry (order : List TableName) : Registry Tables Value GoType :=
  { registry with byName := order.map fun n => ((visitingType n).name, visitingType n) }

/-- The model's CRUD with a `DeleteAll` that empties all tables and an `Each` that visits every row,
type by type in the given order. -/
def orderedCRUD (order : List TableName) : CRUD Tables Value :=
  { create := registry.create Value.typeOf
    update := registry.update Value.typeOf
    delete := registry.delete Value.typeOf
    deleteAll := .modify fun _ => Tables.empty
    each := (orderedRegistry order).each }

/-- The objects of some types, in order. -/
def visitAll (t : Tables) : List TableName → Except Error (List Value)
  | [] => .ok []
  | n :: order => do return (← t.visit n) ++ (← visitAll t order)

theorem foldlM_each (t : Tables) : ∀ (order : List TableName) (objs : List Value),
    (order.map fun n => ((visitingType n).name, visitingType n)).foldlM
        (fun objs m => do return objs ++ (← m.2.each) : List Value → String × ObjType Tables Value →
          Proc Tables Error (List Value))
        objs t =
      (.ofExcept ((visitAll t order).map (objs ++ ·)), t)
  | [], objs => by simp [visitAll, Except.map]
  | n :: order, objs => by
    have heach : (visitingType n).each t = (.ofExcept (t.visit n), t) := rfl
    rw [List.map_cons, List.foldlM_cons]
    cases hv : t.visit n with
    | error e =>
      rw [hv, Outcome.ofExcept_error] at heach
      have hstep : (do return objs ++ (← (visitingType n).each) : Proc Tables Error (List Value)) t = (.err e, t) :=
        Proc.bind_of_err heach
      rw [Proc.bind_of_err hstep, visitAll, hv]
      rfl
    | ok l =>
      rw [hv, Outcome.ofExcept_ok] at heach
      have hstep : (do return objs ++ (← (visitingType n).each) : Proc Tables Error (List Value)) t =
          (.ok (objs ++ l), t) := by
        rw [Proc.bind_of_ok heach]; rfl
      rw [Proc.bind_of_ok hstep, foldlM_each t order (objs ++ l), visitAll, hv]
      cases visitAll t order <;> simp [Except.map, bind, Except.bind, pure, Except.pure]

theorem orderedCRUD_each (order : List TableName) (t : Tables) :
    (orderedCRUD order).each t = (.ofExcept (visitAll t order), t) := by
  refine (foldlM_each t order []).trans ?_
  cases visitAll t order <;> rfl

/-! ## Loading rows -/

/-- Insert rows, up to the first that is refused. -/
def insertAll : List Row → Tables → Except Error Tables
  | [], u => .ok u
  | r :: rows, u => (u.insert r).bind (insertAll rows)

theorem insertAll_append : ∀ (rows rows' : List Row) (u : Tables),
    insertAll (rows ++ rows') u = (insertAll rows u).bind (insertAll rows')
  | [], _, _ => rfl
  | r :: rows, rows', u => by
    rw [List.cons_append, insertAll, insertAll]
    cases u.insert r with
    | error e => rfl
    | ok u' => exact insertAll_append rows rows' u'

/-- Creating objects inserts their rows. -/
theorem forEach_create (order : List TableName) :
    ∀ {objs : List Value} {rows : List Row}, objs.map Value.row = rows.map .ok →
    ∀ u : Tables, (∀ u', insertAll rows u = .ok u' → Proc.forEach (orderedCRUD order).create objs u = (.ok (), u')) ∧
      ∀ e, insertAll rows u = .error e → ∃ u', Proc.forEach (orderedCRUD order).create objs u = (.err e, u')
  | [], [], _, u => ⟨fun u' h => by cases h; rfl, fun e h => by cases h⟩
  | [], _ :: _, h, _ => by cases h
  | _ :: _, [], h, _ => by cases h
  | v :: objs, r :: rows, h, u => by
    simp only [List.map_cons, List.cons.injEq] at h
    obtain ⟨hv, hrest⟩ := h
    have hcreate : (orderedCRUD order).create v = namedExec .insert v := crud_create 0 v
    rw [insertAll, Proc.forEach_cons, hcreate]
    cases hi : u.insert r with
    | error e =>
      refine ⟨fun u' hu => (by cases hu), fun e' he' => ⟨u, ?_⟩⟩
      cases he'
      have hexec : u.exec (.insert r) = .error e := hi
      rw [Proc.bind_of_err (namedExec_of_error hv hexec)]
    | ok t' =>
      have hexec : u.exec (.insert r) = .ok t' := hi
      rw [Proc.bind_of_ok (namedExec_of_ok hv hexec)]
      exact forEach_create order hrest t'

/-! ## Loading a table -/

/-- Rows with keys of their own go into a table one after another, if each of them may, given what
is in the other tables. -/
theorem insertAll_of {ρ κ δ : Type} {key : ρ → κ} {mk : ρ → Row} {view : Tables → List ρ} {others : Tables → δ}
    {P : ρ → δ → Prop} (hins : ∀ u r, P r (others u) → key r ∉ (view u).map key →
      ∃ u', u.insert (mk r) = .ok u' ∧ view u' = view u ++ [r] ∧ others u' = others u) :
    ∀ (rows : List ρ) (u : Tables), (∀ r ∈ rows, P r (others u)) → ((view u ++ rows).map key).Nodup →
      ∃ u', insertAll (rows.map mk) u = .ok u' ∧ view u' = view u ++ rows ∧ others u' = others u
  | [], u, _, _ => ⟨u, rfl, (List.append_nil _).symm, rfl⟩
  | r :: rows, u, hP, hnd => by
    have hfresh : key r ∉ (view u).map key := by
      rw [List.map_append, List.map_cons, List.nodup_append] at hnd
      exact fun h => hnd.2.2 _ h _ List.mem_cons_self rfl
    obtain ⟨u₁, h₁, hv₁, ho₁⟩ := hins u r (hP r List.mem_cons_self) hfresh
    obtain ⟨u', h', hv', ho'⟩ := insertAll_of hins rows u₁ (fun x hx => ho₁ ▸ hP x (List.mem_cons_of_mem _ hx))
      (by rw [hv₁, List.append_assoc]; exact hnd)
    refine ⟨u', ?_, by rw [hv', hv₁, List.append_assoc]; rfl, ho'.trans ho₁⟩
    rw [List.map_cons, insertAll, h₁]
    exact h'

theorem insert_interface {u : Tables} {r : InterfaceRow} (h : r.name ∉ u.interfaces.keys) :
    ∃ u', u.insert (.interface r) = .ok u' ∧ u'.interfaces.rows = u.interfaces.rows ++ [r] ∧
      (u'.peers, u'.tokens) = (u.peers, u.tokens) := by
  obtain ⟨tab, hi, hrows⟩ := Table.insert_of_not_mem h
  simp only [Tables.insert]
  split
  · rename_i hn; rw [hi] at hn; cases hn
  · rename_i hs; rw [hi] at hs; cases hs; exact ⟨_, rfl, hrows, rfl⟩

theorem insert_peer {u : Tables} {r : PeerRow} (hi : r.interface ∈ u.interfaces.keys) (h : r.publicKey ∉ u.peers.keys) :
    ∃ u', u.insert (.peer r) = .ok u' ∧ u'.peers.rows = u.peers.rows ++ [r] ∧
      (u'.interfaces, u'.tokens) = (u.interfaces, u.tokens) := by
  obtain ⟨tab, ht, hrows⟩ := Table.insert_of_not_mem h
  simp only [Tables.insert]
  split
  · rename_i hn; rw [ht] at hn; cases hn
  · rename_i hs
    rw [ht] at hs
    cases hs
    rw [dif_pos hi]
    exact ⟨_, rfl, hrows, rfl⟩

theorem insert_peer_refused {u : Tables} {r : PeerRow} (hi : r.interface ∉ u.interfaces.keys)
    (h : r.publicKey ∉ u.peers.keys) : u.insert (.peer r) = .error .foreignKey := by
  obtain ⟨tab, ht, -⟩ := Table.insert_of_not_mem h
  simp only [Tables.insert]
  split
  · rename_i hn; rw [ht] at hn; cases hn
  · rw [dif_neg hi]

theorem insert_token {u : Tables} {r : TokenRow} (h : r.id ∉ u.tokens.keys) :
    ∃ u', u.insert (.token r) = .ok u' ∧ u'.tokens.rows = u.tokens.rows ++ [r] ∧
      (u'.interfaces, u'.peers) = (u.interfaces, u.peers) := by
  obtain ⟨tab, hi, hrows⟩ := Table.insert_of_not_mem h
  simp only [Tables.insert, hi]
  exact ⟨_, rfl, hrows, rfl⟩

/-- The tables named so far have been copied from `t`, and the others are empty. -/
structure Copied (t : Tables) (names : List TableName) (u : Tables) : Prop where
  interfaces : u.interfaces.rows = if .interfaces ∈ names then t.interfaces.rows else []
  peers : u.peers.rows = if .peers ∈ names then t.peers.rows else []
  tokens : u.tokens.rows = if .tokens ∈ names then t.tokens.rows else []

theorem Copied.empty (t : Tables) : Copied t [] Tables.empty := ⟨rfl, rfl, rfl⟩

/-- A table not copied yet can be, unless it is the one of the peers and its interfaces are missing. -/
theorem Copied.next {t u : Tables} {names : List TableName} (h : Copied t names u) {n : TableName} (hn : n ∉ names)
    (hfk : n = .peers → t.peers.rows = [] ∨ .interfaces ∈ names) :
    ∃ u', insertAll (t.rowsOf n) u = .ok u' ∧ Copied t (n :: names) u' := by
  cases n with
  | interfaces =>
    have hempty : u.interfaces.rows = [] := by rw [h.interfaces, if_neg hn]
    obtain ⟨u', hu', hrows, hothers⟩ :=
      insertAll_of (P := fun (_ : InterfaceRow) (_ : Table PeerRow.publicKey × _) => True)
      (fun u r _ hr => insert_interface hr) t.interfaces.rows u (fun _ _ => trivial)
      (by rw [hempty, List.nil_append]; exact t.interfaces.nodup)
    simp only [Prod.mk.injEq] at hothers
    refine ⟨u', hu', ?_, ?_, ?_⟩
    · rw [hrows, hempty]; simp
    · rw [hothers.1, h.peers]; simp
    · rw [hothers.2, h.tokens]; simp
  | peers =>
    have hempty : u.peers.rows = [] := by rw [h.peers, if_neg hn]
    have hkeys : ∀ r ∈ t.peers.rows, r.interface ∈ u.interfaces.keys := by
      intro r hr
      rcases hfk rfl with hnone | hmem
      · rw [hnone] at hr; cases hr
      · have hk := t.foreignKey r hr
        unfold Table.keys at hk ⊢
        rwa [h.interfaces, if_pos hmem]
    obtain ⟨u', hu', hrows, hothers⟩ := insertAll_of
      (P := fun (r : PeerRow) (o : Table InterfaceRow.name × Table TokenRow.id) => r.interface ∈ o.1.keys)
      (fun u r hi hr => insert_peer hi hr) t.peers.rows u hkeys
      (by rw [hempty, List.nil_append]; exact t.peers.nodup)
    simp only [Prod.mk.injEq] at hothers
    refine ⟨u', hu', ?_, ?_, ?_⟩
    · rw [hothers.1, h.interfaces]; simp
    · rw [hrows, hempty]; simp
    · rw [hothers.2, h.tokens]; simp
  | tokens =>
    have hempty : u.tokens.rows = [] := by rw [h.tokens, if_neg hn]
    obtain ⟨u', hu', hrows, hothers⟩ := insertAll_of (P := fun (_ : TokenRow) (_ : Table InterfaceRow.name × _) => True)
      (fun u r _ hr => insert_token hr) t.tokens.rows u (fun _ _ => trivial)
      (by rw [hempty, List.nil_append]; exact t.tokens.nodup)
    simp only [Prod.mk.injEq] at hothers
    refine ⟨u', hu', ?_, ?_, ?_⟩
    · rw [hothers.1, h.interfaces]; simp
    · rw [hothers.2, h.peers]; simp
    · rw [hrows, hempty]; simp

/-- Peers come before their interfaces: the first is refused. -/
theorem Copied.refused {t u : Tables} {names : List TableName} (h : Copied t names u) (hp : .peers ∉ names)
    (hi : .interfaces ∉ names) (hne : t.peers.rows ≠ []) : insertAll (t.rowsOf .peers) u = .error .foreignKey := by
  obtain ⟨r, rows, hr⟩ := List.exists_cons_of_ne_nil hne
  have hkeys : u.interfaces.keys = [] := by unfold Table.keys; rw [h.interfaces, if_neg hi]; rfl
  have hpeers : u.peers.keys = [] := by unfold Table.keys; rw [h.peers, if_neg hp]; rfl
  have hins : u.insert (.peer r) = .error .foreignKey :=
    insert_peer_refused (by rw [hkeys]; exact List.not_mem_nil) (by rw [hpeers]; exact List.not_mem_nil)
  rw [Tables.rowsOf, hr, List.map_cons, insertAll, hins]
  rfl

/-! ## Loading in order -/

/-- The interfaces are visited before the peers, if both are. -/
def interfacesFirst : List TableName → Bool
  | [] => true
  | .interfaces :: _ => true
  | .peers :: _ => false
  | .tokens :: order => interfacesFirst order

/-- Once the interfaces are there, or if no peers come, every table is copied. -/
theorem Copied.run {t : Tables} : ∀ {order names : List TableName} {u : Tables}, Copied t names u →
    (order ++ names).Nodup → t.peers.rows = [] ∨ .interfaces ∈ names →
    ∃ u', insertAll (order.flatMap t.rowsOf) u = .ok u' ∧ Copied t (order.reverse ++ names) u'
  | [], names, u, h, _, _ => ⟨u, rfl, h⟩
  | n :: order, names, u, h, hnd, hready => by
    rw [List.cons_append, List.nodup_cons] at hnd
    obtain ⟨u₁, hu₁, h₁⟩ := h.next (fun hn => hnd.1 (List.mem_append_right _ hn)) fun _ => hready
    have hnd' : (order ++ n :: names).Nodup := List.perm_middle.symm.nodup (List.nodup_cons.2 hnd)
    obtain ⟨u', hu', h'⟩ := h₁.run hnd' (hready.imp_right (List.mem_cons_of_mem _))
    refine ⟨u', ?_, by simpa using h'⟩
    rw [List.flatMap_cons, insertAll_append, hu₁]
    exact hu'

/-- Before that, it depends on which of the two comes first. -/
theorem Copied.run_iff {t : Tables} (hne : t.peers.rows ≠ []) : ∀ {order names : List TableName} {u : Tables},
    Copied t names u → (order ++ names).Nodup → .interfaces ∉ names →
    (interfacesFirst order = true ∧
      ∃ u', insertAll (order.flatMap t.rowsOf) u = .ok u' ∧ Copied t (order.reverse ++ names) u') ∨
    interfacesFirst order = false ∧ insertAll (order.flatMap t.rowsOf) u = .error .foreignKey
  | [], names, u, h, _, _ => .inl ⟨rfl, u, rfl, h⟩
  | n :: order, names, u, h, hnd, hi => by
    have hn : n ∉ names := fun hn => (List.nodup_cons.1 hnd).1 (List.mem_append_right _ hn)
    have hnd' : (order ++ n :: names).Nodup := List.perm_middle.symm.nodup hnd
    cases n with
    | peers =>
      refine .inr ⟨rfl, ?_⟩
      rw [List.flatMap_cons, insertAll_append, h.refused hn hi hne]
      rfl
    | interfaces =>
      obtain ⟨u₁, hu₁, h₁⟩ := h.next hn fun hp => nomatch hp
      obtain ⟨u', hu', h'⟩ := h₁.run hnd' (.inr List.mem_cons_self)
      refine .inl ⟨rfl, u', ?_, by simpa using h'⟩
      rw [List.flatMap_cons, insertAll_append, hu₁]
      exact hu'
    | tokens =>
      obtain ⟨u₁, hu₁, h₁⟩ := h.next hn fun hp => nomatch hp
      have hstep : insertAll ((TableName.tokens :: order).flatMap t.rowsOf) u =
          insertAll (order.flatMap t.rowsOf) u₁ := by
        rw [List.flatMap_cons, insertAll_append, hu₁]
        rfl
      rw [hstep]
      refine (h₁.run_iff hne hnd' fun h => ?_).imp_left ?_
      · rcases List.mem_cons.1 h with h | h
        · cases h
        · exact hi h
      · rintro ⟨hfirst, u', hu', h'⟩
        exact ⟨hfirst, u', hu', by simpa using h'⟩

/-- With every table copied, the tables are the same. -/
theorem Copied.eq {t u : Tables} {names : List TableName} (h : Copied t names u) (hall : ∀ n, n ∈ names) : u = t := by
  have hi := h.interfaces
  have hp := h.peers
  have ht := h.tokens
  rw [if_pos (hall _)] at hi hp ht
  exact Tables.ext (Table.ext hi) (Table.ext hp) (Table.ext ht)

theorem visitAll_rows {t : Tables} (h : t.Stored) : ∀ order : List TableName,
    ∃ objs, visitAll t order = .ok objs ∧ objs.map Value.row = (order.flatMap t.rowsOf).map .ok
  | [] => ⟨[], rfl, rfl⟩
  | n :: order => by
    obtain ⟨objs, ho, hrows⟩ := h.visit n
    obtain ⟨objs', ho', hrows'⟩ := visitAll_rows h order
    refine ⟨objs ++ objs', by rw [visitAll, ho, ho']; rfl, ?_⟩
    rw [List.map_append, hrows, hrows', List.flatMap_cons, List.map_append]

/-! ## Copies -/

/-- The primary's snapshot, taken in an order of the types, loads into the target and makes its
tables the primary's. -/
def LoadsCopy (order : List TableName) (primary target : Datastore Tables Value) : Prop :=
  ∃ snap target', primary.snapshot (orderedCRUD order) = .ok snap ∧
    target.loadSnapshot (orderedCRUD order) snap true = (.ok (), target') ∧ target'.db.tables = primary.db.tables

/-- The orders in which the three types can be visited. -/
def IsOrder (order : List TableName) : Prop := order.Perm [.peers, .interfaces, .tokens]

theorem IsOrder.nodup {order : List TableName} (h : IsOrder order) : order.Nodup := h.symm.nodup (by decide)

theorem IsOrder.mem {order : List TableName} (h : IsOrder order) (n : TableName) : n ∈ order :=
  h.mem_iff.2 (by cases n <;> decide)

theorem isOrder_interfaces_first : IsOrder [.interfaces, .peers, .tokens] := by
  unfold IsOrder
  decide

/-- What loading the snapshot comes to, in terms of the rows. -/
theorem loadSnapshot_ordered (order : List TableName) {primary : Datastore Tables Value}
    (hst : primary.db.tables.Stored) (target : Datastore Tables Value) :
    ∃ snap, primary.snapshot (orderedCRUD order) = .ok snap ∧
      (∀ u, insertAll (order.flatMap primary.db.tables.rowsOf) Tables.empty = .ok u →
        ∃ target', target.loadSnapshot (orderedCRUD order) snap true = (.ok (), target') ∧ target'.db.tables = u) ∧
      ∀ e, insertAll (order.flatMap primary.db.tables.rowsOf) Tables.empty = .error e →
        (target.loadSnapshot (orderedCRUD order) snap true).1 = .err e := by
  obtain ⟨objs, hobjs, hrows⟩ := visitAll_rows hst order
  have hsnap : primary.snapshot (orderedCRUD order) = .ok ⟨primary.db.getSequence, objs⟩ := by
    unfold Datastore.snapshot
    rw [orderedCRUD_each, hobjs]
    rfl
  have hempty : (orderedCRUD order).deleteAll target.db.tables = (.ok (), Tables.empty) := rfl
  obtain ⟨hok, herr⟩ := forEach_create order hrows Tables.empty
  refine ⟨_, hsnap, fun u hu => ?_, fun e he => ?_⟩
  · have hload : Datastore.reload (orderedCRUD order) objs target.db.tables = (.ok (), u) := by
      unfold Datastore.reload
      rw [Proc.bind_of_ok hempty, hok u hu]
    exact ⟨_, Datastore.loadSnapshot_of_ok hload primary.db.sequence_lt, rfl⟩
  · obtain ⟨u, hu⟩ := herr e he
    have hload : Datastore.reload (orderedCRUD order) objs target.db.tables = (.err e, u) := by
      unfold Datastore.reload
      rw [Proc.bind_of_ok hempty, hu]
    rw [Datastore.loadSnapshot_of_err hload]

theorem loadsCopy_iff {order : List TableName} (horder : IsOrder order) {primary : Datastore Tables Value}
    (hst : primary.db.tables.Stored) (target : Datastore Tables Value) :
    LoadsCopy order primary target ↔ primary.db.tables.peers.rows = [] ∨ interfacesFirst order = true := by
  obtain ⟨snap, hsnap, hok, herr⟩ := loadSnapshot_ordered order hst target
  have hnd : (order ++ []).Nodup := by rw [List.append_nil]; exact horder.nodup
  have hall : ∀ n, n ∈ order.reverse ++ [] := fun n => by simpa using horder.mem n
  have hcopy : ∀ u, insertAll (order.flatMap primary.db.tables.rowsOf) Tables.empty = .ok u →
      Copied primary.db.tables (order.reverse ++ []) u → LoadsCopy order primary target := by
    intro u hu hcopied
    obtain ⟨target', hload, htab⟩ := hok u hu
    exact ⟨snap, target', hsnap, hload, htab.trans (hcopied.eq hall)⟩
  by_cases hp : primary.db.tables.peers.rows = []
  · obtain ⟨u, hu, hcopied⟩ := (Copied.empty primary.db.tables).run hnd (.inl hp)
    exact ⟨fun _ => .inl hp, fun _ => hcopy u hu hcopied⟩
  · rcases (Copied.empty primary.db.tables).run_iff hp hnd List.not_mem_nil with ⟨hfirst, u,
      hu, hcopied⟩ | ⟨hlate, hfail⟩
    · exact ⟨fun _ => .inr hfirst, fun _ => hcopy u hu hcopied⟩
    · refine ⟨?_, fun h => absurd (h.resolve_left hp) (by rw [hlate]; decide)⟩
      rintro ⟨snap', target', hsnap', hload, -⟩
      rw [hsnap] at hsnap'
      cases hsnap'
      have hbad := herr _ hfail
      rw [hload] at hbad
      cases hbad

theorem applyOp_stored (stack : Nat) {op : Op Value} {t t' : Tables} (ht : t.Stored)
    (h : applyOp (crud stack) op t = (.ok (), t')) : t'.Stored := by
  obtain ⟨seq, ty, ts, v⟩ := op
  have hrow : ∀ {stmt : Row → Stmt}, namedExec stmt v t = (.ok (), t') → ∃ r, v.row = .ok r ∧
      t.exec (stmt r) = .ok t' := by
    intro stmt hexec
    have hbind := namedExec_ok hexec
    cases hr : v.row with
    | error e => rw [hr] at hbind; cases hbind
    | ok r => rw [hr] at hbind; exact ⟨r, rfl, hbind⟩
  cases ty with
  | create =>
    change (crud stack).create v t = _ at h
    rw [crud_create] at h
    obtain ⟨r, hr, hexec⟩ := hrow h
    exact ht.insert hr hexec
  | update =>
    change (crud stack).update v t = _ at h
    rw [crud_update] at h
    obtain ⟨r, hr, hexec⟩ := hrow h
    exact ht.update hr hexec
  | delete =>
    change (crud stack).delete v t = _ at h
    rw [crud_delete] at h
    obtain ⟨r, hr, hexec⟩ := hrow h
    cases hexec
    exact ht.delete r
  | unknown code => cases h

theorem requests_stored (stack : Nat) (reqs : List (Request Value)) :
    (Datastore.requests (crud stack) encoding reqs fresh).2.db.tables.Stored :=
  Datastore.requests_tables (model_replayable stack) (fun _ _ _ ht h => applyOp_stored stack ht h) reqs (s := fresh)
    Pubsub.Quiet.new Tables.Stored.empty

/-- In an order that visits the interfaces first, the CRUD copies. -/
theorem orderedCRUD_copies {order : List TableName} (horder : IsOrder order) (hfirst : interfacesFirst order = true) :
    Copies (orderedCRUD order) Tables.Stored where
  applied _ _ _ ht h := applyOp_stored 0 ht h
  copied t ht := by
    obtain ⟨objs, hobjs, hrows⟩ := visitAll_rows ht order
    have hnd : (order ++ []).Nodup := by rw [List.append_nil]; exact horder.nodup
    have hall : ∀ n, n ∈ order.reverse ++ [] := fun n => by simpa using horder.mem n
    obtain ⟨u, hu, hcopied⟩ : ∃ u, insertAll (order.flatMap t.rowsOf) Tables.empty = .ok u ∧
      Copied t (order.reverse ++ []) u := by
      by_cases hp : t.peers.rows = []
      · exact (Copied.empty t).run hnd (.inl hp)
      · rcases (Copied.empty t).run_iff hp hnd List.not_mem_nil with ⟨-, hcopy⟩ | ⟨hlate, -⟩
        · exact hcopy
        · rw [hfirst] at hlate; cases hlate
    refine ⟨objs, by rw [orderedCRUD_each, hobjs]; rfl, fun w => ?_⟩
    have hempty : (orderedCRUD order).deleteAll w = (.ok (), Tables.empty) := rfl
    unfold Datastore.reload
    rw [Proc.bind_of_ok hempty, (forEach_create order hrows Tables.empty).1 u hu, hcopied.eq hall]

theorem orderedCRUD_replayable (order : List TableName) : Replayable (orderedCRUD order) encoding where
  reread v b h := (model_replayable 0).reread v b h
  returned v t := (model_replayable 0).returned v t

/-- The snapshot of a primary loads into any datastore, whatever it held, and copies the tables, just
if the primary has no peers or the order visits the interfaces before them. -/
theorem snapshot_copies_iff (stack : Nat) (reqs : List (Request Value)) {order : List TableName}
    (horder : IsOrder order) (target : Datastore Tables Value) :
    LoadsCopy order (Datastore.requests (crud stack) encoding reqs fresh).2 target ↔
      (Datastore.requests (crud stack) encoding reqs fresh).2.db.tables.peers.rows = [] ∨
        interfacesFirst order = true :=
  loadsCopy_iff horder (requests_stored stack reqs) target

/-- A primary with an interface and a peer on it. -/
def onePeer : List (Request Value) :=
  [⟨.create (.interface ⟨"wg0", 51820, none, none, 0, "", ""⟩), Time.zero, true⟩,
    ⟨.create (.peer ⟨"pk", "wg0", none, none, Time.zero⟩), Time.zero, true⟩]

theorem snapshot_copies_onePeer :
    LoadsCopy [.interfaces, .tokens, .peers] (Datastore.requests (crud 8) encoding onePeer fresh).2 fresh ∧
      ¬ LoadsCopy [.tokens, .peers, .interfaces] (Datastore.requests (crud 8) encoding onePeer fresh).2 fresh := by
  have hpeers : (Datastore.requests (crud 8) encoding onePeer fresh).2.db.tables.peers.rows ≠ [] := by decide +kernel
  constructor
  · exact (snapshot_copies_iff 8 onePeer (by unfold IsOrder; decide) fresh).2 (.inr rfl)
  · intro h
    rcases (snapshot_copies_iff 8 onePeer (by unfold IsOrder; decide) fresh).1 h with hnone | hfirst
    · exact hpeers hnone
    · cases hfirst

/-- The peers come first in some iteration of the map, and then the load fails. -/
theorem snapshot_depends_on_order : ¬ ∀ (stack : Nat) (reqs : List (Request Value)) (order : List TableName)
    (target : Datastore Tables Value), IsOrder order →
    LoadsCopy order (Datastore.requests (crud stack) encoding reqs fresh).2 target := by
  intro h
  have hpeers : (Datastore.requests (crud 8) encoding onePeer fresh).2.db.tables.peers.rows ≠ [] := by decide +kernel
  have horder : IsOrder [.peers, .interfaces, .tokens] := List.Perm.refl _
  rcases (loadsCopy_iff horder (requests_stored 8 onePeer) fresh).1 (h 8 onePeer _ fresh horder) with hnone | hfirst
  · exact hpeers hnone
  · cases hfirst

end Wig.Store
