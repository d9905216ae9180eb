/-
The migrations of a database. An open runs those that its version has not had yet, in one transaction with
the new version, so that a history of upgrades leaves what a new installation would have.
-/
import Wig.Model.Basic
import Mathlib.Tactic

namespace Wig.Sqlite

variable {C : Type}

/-! ## The code -/

/-- A `Migration`: what it makes of the schema and the data, or the error it returns. -/
abbrev Migration (C : Type) : Type := C → Except Error C

/-- `Statement`, with the engine that runs a text. -/
def statement (exec : String → C → Except Error C) (idl : List String) : Migration C := fun c =>
  idl.foldlM (fun c stmt => exec stmt c) c

/-- A database: schema and data, and what `PRAGMA user_version` keeps. -/
structure DB (C : Type) where
  content : C
  userVersion : Nat

inductive MigrateError where
  | begin
  /-- "getting latest applied migration" -/
  | version
  /-- "database is at version %d, which is more recent than this binary understands" -/
  | newer (idx : Nat)
  /-- "migration to version %d failed": the number counts from the first migration of this open. -/
  | failed (number : Nat) (err : Error)
  /-- "recording new DB version" -/
  | record
  | commit

/-- What else the database lets happen in an open. -/
structure Faults where
  begins : Bool
  reads : Bool
  records : Bool
  commits : Bool

/-- How an open ends, and the positions in the list of the migrations it called. -/
structure Opened (C : Type) where
  err : Option MigrateError
  db : DB C
  called : List Nat

/-- The loop over the migrations, with how many of them it called. -/
def applyAll : List (Migration C) → Nat → C → Nat × Except MigrateError C
  | [], _, c => (0, .ok c)
  | f :: fs, i, c =>
    match f c with
    | .error e => (1, .error (.failed (i + 1) e))
    | .ok c' => ((applyAll fs (i + 1) c').1 + 1, (applyAll fs (i + 1) c').2)

/-- The body of the transaction. -/
def migrateTx (faults : Faults) (migrations : List (Migration C)) (tx : DB C) : List Nat × Except MigrateError (DB C) :=
  if faults.reads then
    if tx.userVersion = migrations.length then ([], .ok tx)
    else if migrations.length < tx.userVersion then ([], .error (.newer tx.userVersion))
    else
      let applied := applyAll (migrations.drop tx.userVersion) 0 tx.content
      (List.range' tx.userVersion applied.1, applied.2.bind fun c =>
        if 0 < migrations.length then
          if faults.records then .ok ⟨c, migrations.length⟩ else .error .record
        else .ok { tx with content := c })
  else ([], .error .version)

/-- `WithTx`. -/
def withTx (faults : Faults) (f : DB C → List Nat × Except MigrateError (DB C)) (db : DB C) : Opened C :=
  if faults.begins then
    match f db with
    | (called, .error e) => ⟨some e, db, called⟩
    | (called, .ok db') => if faults.commits then ⟨none, db', called⟩ else ⟨some .commit, db, called⟩
  else ⟨some .begin, db, []⟩

def migrate (faults : Faults) (migrations : List (Migration C)) : DB C → Opened C :=
  withTx faults (migrateTx faults migrations)

/-- The opens of a history, one after the other. -/
def opens : List (Faults × List (Migration C)) → DB C → List (Opened C) × DB C
  | [], db => ([], db)
  | (faults, migrations) :: os, db =>
    let opened := migrate faults migrations db
    let rest := opens os opened.db
    (opened :: rest.1, rest.2)

/-! ## What migrations come to -/

/-- The content after all of some migrations, if they all succeed. -/
def installed : List (Migration C) → C → Option C
  | [], c => some c
  | f :: fs, c => (f c).toOption.bind (installed fs)

theorem installed_append :
    ∀ (fs gs : List (Migration C)) (c : C), installed (fs ++ gs) c = (installed fs c).bind (installed gs)
  | [], _, _ => rfl
  | f :: fs, gs, c => by
    rw [List.cons_append, installed, installed]
    cases f c with
    | error e => rfl
    | ok c' => exact installed_append fs gs c'

/-- Migrations that are statements come to their texts, one after the other. -/
theorem installed_statements (exec : String → C → Except Error C) : ∀ (idls : List (List String)) (c : C),
    installed (idls.map (statement exec)) c = (idls.flatten.foldlM (fun c stmt => exec stmt c) c).toOption
  | [], _ => rfl
  | idl :: idls, c => by
    rw [List.map_cons, installed, List.flatten_cons, List.foldlM_append, statement]
    cases idl.foldlM (fun c stmt => exec stmt c) c with
    | error e => rfl
    | ok c' => exact installed_statements exec idls c'

/-- The loop calls all its migrations, or fails with one. -/
theorem applyAll_cases : ∀ (fs : List (Migration C)) (i : Nat) (c : C),
    (∃ c', applyAll fs i c = (fs.length, .ok c') ∧ installed fs c = some c') ∨
      ∃ k e, applyAll fs i c = (k, .error e) ∧ installed fs c = none
  | [], _, c => .inl ⟨c, rfl, rfl⟩
  | f :: fs, i, c => by
    rw [applyAll, installed]
    cases f c with
    | error e => exact .inr ⟨1, _, rfl, rfl⟩
    | ok c₁ =>
      rcases applyAll_cases fs (i + 1) c₁ with ⟨c', happly, hinst⟩ | ⟨k, e, happly, hinst⟩
      · refine .inl ⟨c', ?_, hinst⟩
        simp only [happly, List.length_cons]
      · refine .inr ⟨k + 1, e, ?_, hinst⟩
        simp only [happly]

/-! ## One open -/

variable {faults : Faults} {ms : List (Migration C)} {db : DB C}

/-- An open that succeeds has called the migrations behind its version. -/
structure Upgraded (ms : List (Migration C)) (db : DB C) (opened : Opened C) : Prop where
  known : db.userVersion ≤ ms.length
  version : opened.db.userVersion = ms.length
  content : installed (ms.drop db.userVersion) db.content = some opened.db.content
  called : opened.called = List.range' db.userVersion (ms.length - db.userVersion)

/-- How the body of the transaction ends. -/
theorem migrateTx_cases (faults : Faults) (ms : List (Migration C)) (db : DB C) :
    (∃ db', migrateTx faults ms db = (List.range' db.userVersion (ms.length - db.userVersion), .ok db') ∧
      db.userVersion ≤ ms.length ∧
      db'.userVersion = ms.length ∧ installed (ms.drop db.userVersion) db.content = some db'.content) ∨
    ∃ called e, migrateTx faults ms db = (called, .error e) ∧
      (faults.reads = true → faults.records = true → ms.length < db.userVersion ∨
        installed (ms.drop db.userVersion) db.content = none) := by
  unfold migrateTx
  split
  · split
    · rename_i heq
      refine .inl ⟨db, ?_, heq.le, heq, ?_⟩
      · simp [heq]
      · rw [heq, List.drop_length]
        rfl
    · split
      · rename_i hnewer
        exact .inr ⟨[], _, rfl, fun _ _ => .inl hnewer⟩
      · rename_i hne hnot
        have hlt : db.userVersion < ms.length := by omega
        have hpos : 0 < ms.length := by omega
        rcases applyAll_cases (ms.drop db.userVersion) 0 db.content with ⟨c', happly, hinst⟩ | ⟨k, e, happly, hinst⟩
        · cases hrecords : faults.records with
          | true =>
            refine .inl ⟨⟨c', ms.length⟩, ?_, hlt.le, rfl, hinst⟩
            simp only [happly, List.length_drop, Except.bind, if_pos hpos, if_true]
          | false =>
            refine .inr ⟨List.range' db.userVersion (ms.drop db.userVersion).length, .record, ?_,
              fun _ h => absurd h (by decide)⟩
            simp only [happly, Except.bind, if_pos hpos]
            rfl
        · refine .inr ⟨List.range' db.userVersion k, e, ?_, fun _ _ => .inr hinst⟩
          simp only [happly, Except.bind]
  · rename_i hreads
    exact .inr ⟨[], _, rfl, fun h => absurd h hreads⟩

theorem migrate_cases (faults : Faults) (ms : List (Migration C)) (db : DB C) :
    ((migrate faults ms db).err = none ∧ Upgraded ms db (migrate faults ms db)) ∨
      ((migrate faults ms db).err ≠ none ∧ (migrate faults ms db).db = db) := by
  unfold migrate withTx
  split
  · rcases migrateTx_cases faults ms db with ⟨db', htx, hknown, hversion, hinst⟩ | ⟨called, e, htx, -⟩
    · rw [htx]
      cases faults.commits with
      | true => exact .inl ⟨rfl, hknown, hversion, hinst, rfl⟩
      | false => exact .inr ⟨Option.some_ne_none _, rfl⟩
    · rw [htx]
      exact .inr ⟨Option.some_ne_none _, rfl⟩
  · exact .inr ⟨Option.some_ne_none _, rfl⟩

/-- Nothing but the migrations fails. -/
def Faults.none : Faults := ⟨true, true, true, true⟩

/-- Then an open succeeds just if the binary knows the version and the migrations behind it succeed. -/
theorem migrate_none_err_iff : (migrate .none ms db).err = none ↔
    db.userVersion ≤ ms.length ∧ (installed (ms.drop db.userVersion) db.content).isSome = true := by
  constructor
  · intro h
    rcases migrate_cases .none ms db with ⟨-, hup⟩ | ⟨herr, -⟩
    · exact ⟨hup.known, by rw [hup.content]; rfl⟩
    · exact absurd h herr
  · rintro ⟨hknown, hsome⟩
    unfold migrate withTx
    rcases migrateTx_cases .none ms db with ⟨db', htx, -⟩ | ⟨called, e, htx, hwhy⟩
    · rw [htx]
      rfl
    · rcases hwhy rfl rfl with hnewer | hnone
      · omega
      · rw [hnone] at hsome
        cases hsome

/-- An open with the list of the database's version does nothing. -/
theorem migrate_current (h : db.userVersion = ms.length) (faults : Faults) :
    (migrate faults ms db).db = db ∧ (migrate faults ms db).called = [] := by
  obtain ⟨begins, reads, records, commits⟩ := faults
  cases begins <;> cases reads <;> cases commits <;> simp [migrate, withTx, migrateTx, h]

/-- A database beyond the list is refused. -/
theorem migrate_newer (h : ms.length < db.userVersion) (faults : Faults) :
    (migrate faults ms db).err ≠ none ∧ (migrate faults ms db).db = db ∧ (migrate faults ms db).called = [] := by
  have hne : db.userVersion ≠ ms.length := h.ne'
  obtain ⟨begins, reads, records, commits⟩ := faults
  cases begins <;> cases reads <;> simp [migrate, withTx, migrateTx, hne, h]

/-! ## A history of opens -/

/-- The migrations whose effect an open left in the database. -/
def Opened.committed (opened : Opened C) : List Nat := if opened.err.isNone then opened.called else []

/-- The database has had the first migrations of a list, as many as its version says, from the content `c₀`. -/
structure Reached (c₀ : C) (ns : List (Migration C)) (db : DB C) : Prop where
  known : db.userVersion ≤ ns.length
  content : installed (ns.take db.userVersion) c₀ = some db.content

/-- One more open, with a list that `ns` extends. -/
theorem Reached.step {c₀ : C} {ns : List (Migration C)} (h : Reached c₀ ns db) (hms : ms <+: ns) (faults : Faults) :
    Reached c₀ ns (migrate faults ms db).db ∧ db.userVersion ≤ (migrate faults ms db).db.userVersion ∧
      (migrate faults ms db).committed =
        List.range' db.userVersion ((migrate faults ms db).db.userVersion - db.userVersion) := by
  rcases migrate_cases faults ms db with ⟨herr, hup⟩ | ⟨herr, hdb⟩
  · have htake : ns.take ms.length = ms := (List.prefix_iff_eq_take.1 hms).symm
    refine ⟨⟨?_, ?_⟩, ?_, ?_⟩
    · rw [hup.version]
      exact hms.length_le
    · have hfirst : ns.take db.userVersion = ms.take db.userVersion := by
        rw [← htake, List.take_take, Nat.min_eq_left hup.known]
      have happend := installed_append (ms.take db.userVersion) (ms.drop db.userVersion) c₀
      rw [List.take_append_drop, ← hfirst, h.content] at happend
      rw [hup.version, htake, happend]
      exact hup.content
    · rw [hup.version]
      exact hup.known
    · rw [Opened.committed, herr, hup.called, hup.version]
      rfl
  · refine ⟨?_, ?_, ?_⟩
    · rw [hdb]
      exact h
    · rw [hdb]
    · rw [hdb, Nat.sub_self, Opened.committed, if_neg (by simpa using herr)]
      rfl

theorem range'_append_range' {a b c : Nat} (hab : a ≤ b) (hbc : b ≤ c) :
    List.range' a (b - a) ++ List.range' b (c - b) = List.range' a (c - a) := by
  have h := List.range'_append_1 (s := a) (m := b - a) (n := c - b)
  rw [show a + (b - a) = b by omega, show b - a + (c - b) = c - a by omega] at h
  exact h

/-- A whole history. -/
theorem Reached.run {c₀ : C} {ns : List (Migration C)} :
    ∀ {os : List (Faults × List (Migration C))} {db : DB C}, Reached c₀ ns db →
    (∀ o ∈ os, o.2 <+: ns) → Reached c₀ ns (opens os db).2 ∧ db.userVersion ≤ (opens os db).2.userVersion ∧
      (opens os db).1.flatMap Opened.committed =
        List.range' db.userVersion ((opens os db).2.userVersion - db.userVersion)
  | [], db, h, _ => ⟨h, Nat.le_refl _, by simp [opens]⟩
  | (faults, ms) :: os, db, h, hos => by
    obtain ⟨hnext, hle, hcommitted⟩ := h.step (hos _ (.head _)) faults
    obtain ⟨hlast, hle', hrest⟩ := Reached.run hnext fun o ho => hos o (.tail _ ho)
    refine ⟨hlast, hle.trans hle', ?_⟩
    rw [opens, List.flatMap_cons, hcommitted, hrest]
    exact range'_append_range' hle hle'

theorem opens_concat (o : Faults × List (Migration C)) : ∀ (os : List (Faults × List (Migration C))) (db : DB C),
    opens (os ++ [o]) db = ((opens os db).1 ++ [migrate o.1 o.2 (opens os db).2], (migrate o.1 o.2 (opens os db).2).db)
  | [], _ => rfl
  | (faults, ms) :: os, db => by
    rw [List.cons_append, opens, opens_concat o os, opens]
    rfl

theorem flatMap_committed {rs : List (Opened C)} (h : ∀ r ∈ rs, r.err = none) :
    rs.flatMap Opened.called = rs.flatMap Opened.committed := by
  refine List.flatMap_congr fun r hr => ?_
  rw [Opened.committed, h r hr]
  rfl

theorem Reached.start (c₀ : C) (ns : List (Migration C)) : Reached c₀ ns ⟨c₀, 0⟩ := ⟨Nat.zero_le _, rfl⟩

theorem Reached.unique {c₀ : C} {ns : List (Migration C)} {db' : DB C} (h : Reached c₀ ns db) (h' : Reached c₀ ns db')
    (hversion : db.userVersion = db'.userVersion) : db = db' := by
  obtain ⟨content, version⟩ := db
  obtain ⟨content', version'⟩ := db'
  cases hversion
  have hcontent := h.content.symm.trans h'.content
  cases hcontent
  rfl

theorem upgraded_of_err (h : (migrate faults ms db).err = none) : Upgraded ms db (migrate faults ms db) := by
  rcases migrate_cases faults ms db with ⟨-, hup⟩ | ⟨herr, -⟩
  · exact hup
  · exact absurd h herr

/-! ## The laws -/

section

variable (c₀ : C) (ms ns : List (Migration C))

/-- The database of an upgrade is the one of an installation, also if the first open failed. -/
theorem upgrade_db {f g h : Faults} (hsecond : (migrate g (ms ++ ns) (migrate f ms ⟨c₀, 0⟩).db).err = none)
    (hinstall : (migrate h (ms ++ ns) ⟨c₀, 0⟩).err = none) :
    (migrate g (ms ++ ns) (migrate f ms ⟨c₀, 0⟩).db).db = (migrate h (ms ++ ns) ⟨c₀, 0⟩).db := by
  have hstart := Reached.start c₀ (ms ++ ns)
  have hms := (hstart.step (List.prefix_append ms ns) f).1
  have hup := (hms.step (List.prefix_refl _) g).1
  have hnew := (hstart.step (List.prefix_refl _) h).1
  exact hup.unique hnew ((upgraded_of_err hsecond).version.trans (upgraded_of_err hinstall).version.symm)

/-- The opens of an upgrade succeed just if the one of an installation does. -/
theorem upgrade_err_iff :
    (migrate .none ms ⟨c₀, 0⟩).err = none ∧ (migrate .none (ms ++ ns) (migrate .none ms ⟨c₀, 0⟩).db).err = none ↔
    (migrate .none (ms ++ ns) ⟨c₀, 0⟩).err = none := by
  have hinstall : (migrate .none (ms ++ ns) ⟨c₀, 0⟩).err = none ↔ (installed (ms ++ ns) c₀).isSome = true := by
    rw [migrate_none_err_iff]
    exact and_iff_right (Nat.zero_le _)
  have hfirst : (migrate .none ms ⟨c₀, 0⟩).err = none ↔ (installed ms c₀).isSome = true := by
    rw [migrate_none_err_iff]
    exact and_iff_right (Nat.zero_le _)
  have hsecond (h : (migrate .none ms ⟨c₀, 0⟩).err = none) :
      (migrate .none (ms ++ ns) (migrate .none ms ⟨c₀, 0⟩).db).err = none ↔
        (installed (ms ++ ns) c₀).isSome = true := by
    have hup := upgraded_of_err h
    have hcontent : installed ms c₀ = some (migrate .none ms ⟨c₀, 0⟩).db.content := hup.content
    rw [migrate_none_err_iff, hup.version, List.drop_left, installed_append, hcontent]
    exact and_iff_right (by simp)
  rw [hinstall]
  constructor
  · rintro ⟨hone, htwo⟩
    exact (hsecond hone).1 htwo
  · intro hall
    have hone : (migrate .none ms ⟨c₀, 0⟩).err = none := by
      rw [hfirst]
      rw [installed_append] at hall
      exact Option.isSome_of_isSome_bind hall
    exact ⟨hone, (hsecond hone).2 hall⟩

end

/-- Upgrading equals installing. With or without the faults that an open can have: an upgrade from an empty
database and an installation leave the same, and succeed for the same lists; over a series of opens whose lists
the last one extends, the migrations that took effect are the first ones of that list, each once and in order,
and if every open succeeded no other calls were made; an open with the list that was installed changes nothing;
a database beyond the list is refused unchanged; and after any failure all is as before. -/
theorem upgrade_equals_install (c₀ : C) :
    (∀ ms ns : List (Migration C),
      ((migrate .none ms ⟨c₀, 0⟩).err = none ∧ (migrate .none (ms ++ ns) (migrate .none ms ⟨c₀, 0⟩).db).err = none ↔
        (migrate .none (ms ++ ns) ⟨c₀, 0⟩).err = none) ∧
      ∀ f g h : Faults, (migrate g (ms ++ ns) (migrate f ms ⟨c₀, 0⟩).db).err = none →
        (migrate h (ms ++ ns) ⟨c₀, 0⟩).err = none →
        (migrate g (ms ++ ns) (migrate f ms ⟨c₀, 0⟩).db).db = (migrate h (ms ++ ns) ⟨c₀, 0⟩).db) ∧
    (∀ (os : List (Faults × List (Migration C))) (f : Faults) (ns : List (Migration C)), (∀ o ∈ os, o.2 <+: ns) →
      Reached c₀ ns (opens (os ++ [(f, ns)]) ⟨c₀, 0⟩).2 ∧
      (opens (os ++ [(f, ns)]) ⟨c₀, 0⟩).1.flatMap Opened.committed =
        List.range (opens (os ++ [(f, ns)]) ⟨c₀, 0⟩).2.userVersion ∧
      ((∀ opened ∈ (opens (os ++ [(f, ns)]) ⟨c₀, 0⟩).1, opened.err = none) →
        (opens (os ++ [(f, ns)]) ⟨c₀, 0⟩).1.flatMap Opened.called = List.range ns.length)) ∧
    (∀ (f g : Faults) (ms : List (Migration C)) (db : DB C), (migrate f ms db).err = none →
      (migrate g ms (migrate f ms db).db).db = (migrate f ms db).db ∧ (migrate g ms (migrate f ms db).db).called = []) ∧
    (∀ (f : Faults) (ms : List (Migration C)) (db : DB C), ms.length < db.userVersion →
      (migrate f ms db).err ≠ none ∧ (migrate f ms db).db = db ∧ (migrate f ms db).called = []) ∧
    (∀ (f : Faults) (ms : List (Migration C)) (db : DB C), (migrate f ms db).err ≠ none →
      (migrate f ms db).db = db) := by
  refine ⟨fun ms ns => ⟨upgrade_err_iff c₀ ms ns, fun f g h => upgrade_db c₀ ms ns⟩, fun os f ns hos => ?_,
    fun f g ms db herr => ?_, fun f ms db hnewer => migrate_newer hnewer f, fun f ms db herr => ?_⟩
  · have hall : ∀ o ∈ os ++ [(f, ns)], o.2 <+: ns := by
      intro o ho
      rcases List.mem_append.1 ho with ho | ho
      · exact hos o ho
      · cases List.mem_singleton.1 ho
        exact List.prefix_refl _
    obtain ⟨hreached, -, hcommitted⟩ := (Reached.start c₀ ns).run hall
    rw [Nat.sub_zero, ← List.range_eq_range'] at hcommitted
    refine ⟨hreached, hcommitted, fun hsucceeded => ?_⟩
    rw [flatMap_committed hsucceeded, hcommitted]
    have hlast : (migrate f ns (opens os ⟨c₀, 0⟩).2).err = none := hsucceeded _ (by rw [opens_concat]; simp)
    rw [opens_concat]
    exact congrArg List.range (upgraded_of_err hlast).version
  · exact migrate_current (upgraded_of_err herr).version g
  · rcases migrate_cases f ms db with ⟨hnone, -⟩ | ⟨-, hdb⟩
    · exact absurd hnone herr
    · exact hdb

end Wig.Sqlite
