/-
The SQL tables of the data model and the statements the program runs on them. Every peer's interface
is a row of the interfaces table, which the foreign key checks on insert and update and keeps by
deleting the peers of a deleted interface. An update or a delete that matches no row succeeds.
-/
import Wig.Lib.Table
import Wig.Model.Object

namespace Wig.Model

open Wig.Lib

structure Tables where
  interfaces : Table InterfaceRow.name
  peers : Table PeerRow.publicKey
  tokens : Table TokenRow.id
  foreignKey : ∀ p ∈ peers.rows, p.interface ∈ interfaces.keys

/-- The table a statement is about. -/
inductive TableName where
  | interfaces
  | peers
  | tokens
  deriving DecidableEq, Repr

inductive Row where
  | interface (r : InterfaceRow)
  | peer (r : PeerRow)
  | token (r : TokenRow)
  deriving DecidableEq, Repr

inductive Stmt where
  | insert (r : Row)
  | update (r : Row)
  | delete (r : Row)
  | deleteAll (t : TableName)
  deriving DecidableEq, Repr

namespace Tables

/-- The tables a migration creates. -/
def empty : Tables := ⟨Table.empty, Table.empty, Table.empty, fun _ h => by cases h⟩

theorem ext {t u : Tables} (hi : t.interfaces = u.interfaces) (hp : t.peers = u.peers) (ht : t.tokens = u.tokens) :
    t = u := by
  cases t; cases u; simp only at hi hp ht; subst hi; subst hp; subst ht; rfl

theorem foreignKey_insertInterface {t : Tables} {r : InterfaceRow} {u : Table InterfaceRow.name}
    (h : t.interfaces.insert r = some u) : ∀ p ∈ t.peers.rows, p.interface ∈ u.keys := by
  intro p hp
  rw [Table.keys_insert h]
  exact List.mem_append_left _ (t.foreignKey p hp)

theorem foreignKey_insertPeer {t : Tables} {r : PeerRow} {u : Table PeerRow.publicKey}
    (h : t.peers.insert r = some u) (hr : r.interface ∈ t.interfaces.keys) :
    ∀ p ∈ u.rows, p.interface ∈ t.interfaces.keys := by
  intro p hp
  rcases (Table.mem_insert h).1 hp with hp | rfl
  · exact t.foreignKey p hp
  · exact hr

theorem foreignKey_updatePeer {t : Tables} {r : PeerRow}
    (hr : r.publicKey ∈ t.peers.keys → r.interface ∈ t.interfaces.keys) :
    ∀ p ∈ (t.peers.replace r).rows, p.interface ∈ t.interfaces.keys := by
  intro p hp
  rcases Table.mem_replace.1 hp with ⟨rfl, hk⟩ | ⟨hp, -⟩
  · exact hr hk
  · exact t.foreignKey p hp

theorem foreignKey_deleteInterface (t : Tables) (name : String) :
    ∀ p ∈ (t.peers.filter fun p => decide (p.interface ≠ name)).rows, p.interface ∈ (t.interfaces.erase name).keys := by
  intro p hp
  obtain ⟨hp, hne⟩ := Table.mem_filter.1 hp
  exact Table.mem_keys_erase.2 ⟨t.foreignKey p hp, by simpa using hne⟩

theorem foreignKey_filterPeers (t : Tables) (f : PeerRow → Bool) :
    ∀ p ∈ (t.peers.filter f).rows, p.interface ∈ t.interfaces.keys :=
  fun p hp => t.foreignKey p (Table.mem_filter.1 hp).1

/-! ## Statements -/

def insert (t : Tables) : Row → Except Error Tables
  | .interface r =>
    match h : t.interfaces.insert r with
    | none => .error .uniqueConstraint
    | some u => .ok { t with interfaces := u, foreignKey := foreignKey_insertInterface h }
  | .peer r =>
    match h : t.peers.insert r with
    | none => .error .uniqueConstraint
    | some u =>
      if hr : r.interface ∈ t.interfaces.keys then
        .ok { t with peers := u, foreignKey := foreignKey_insertPeer h hr }
      else .error .foreignKey
  | .token r =>
    match t.tokens.insert r with
    | none => .error .uniqueConstraint
    | some u => .ok { t with tokens := u }

def update (t : Tables) : Row → Except Error Tables
  | .interface r =>
    .ok { t with
      interfaces := t.interfaces.replace r
      foreignKey := fun p hp => by rw [Table.keys_replace]; exact t.foreignKey p hp }
  | .peer r =>
    if hr : r.publicKey ∈ t.peers.keys → r.interface ∈ t.interfaces.keys then
      .ok { t with peers := t.peers.replace r, foreignKey := foreignKey_updatePeer hr }
    else .error .foreignKey
  | .token r => .ok { t with tokens := t.tokens.replace r }

/-- Only the key of the row matters. -/
def delete (t : Tables) : Row → Tables
  | .interface r =>
    { t with
      interfaces := t.interfaces.erase r.name
      peers := t.peers.filter fun p => decide (p.interface ≠ r.name)
      foreignKey := foreignKey_deleteInterface t r.name }
  | .peer r => { t with peers := t.peers.erase r.publicKey, foreignKey := foreignKey_filterPeers t _ }
  | .token r => { t with tokens := t.tokens.erase r.id }

def deleteAll (t : Tables) : TableName → Tables
  | .interfaces => { t with interfaces := Table.empty, peers := Table.empty, foreignKey := fun _ h => by cases h }
  | .peers => { t with peers := Table.empty, foreignKey := fun _ h => by cases h }
  | .tokens => { t with tokens := Table.empty }

def exec (t : Tables) : Stmt → Except Error Tables
  | .insert r => t.insert r
  | .update r => t.update r
  | .delete r => .ok (t.delete r)
  | .deleteAll n => .ok (t.deleteAll n)

end Tables

end Wig.Model
