/-
Registrations interleaved with writes to the datastore, and what they are for: a peer that is
returned is recorded, and its addresses are its own. `RegisterNewPeer` reads the database and never
writes the peer, so this holds where no peer is returned, and hardly anywhere else.
-/
import Wig.Registration.Allocate
import Wig.Model.Carried
import Wig.Crudlog.Integrity
import Wig.Lib.System
import Wig.Store.Primary

namespace Wig.Registration

open Wig.Lib Wig.Net Wig.Model Wig.Crudlog

/-! ## Runs -/

/-- The datastore, and the peers that calls have returned without an error. -/
structure Registrar where
  store : Datastore Tables Value
  returned : List Peer

inductive Event where
  | register (c : Call)
  | write (r : Request Value)

/-- A call of `RegisterNewPeer` on a datastore; its transaction writes nothing. -/
def register (contains : List IPNet → IP → Bool) (c : Call)
    (s : Datastore Tables Value) : (Peer × Option Error) × Datastore Tables Value :=
  (registerNewPeer contains c s.db.tables, s)

def Registrar.after (contains : List IPNet → IP → Bool) (stack : Nat) (s : Registrar) : Event → Registrar
  | .register c =>
    match register contains c s.store with
    | ((peer, none), store) => ⟨store, s.returned ++ [peer]⟩
    | ((_, some _), store) => ⟨store, s.returned⟩
  | .write r => { s with store := (Datastore.request (crud stack) encoding r s.store).2 }

def system (contains : List IPNet → IP → Bool) (stack : Nat) : System Registrar Event :=
  ⟨fun s e => some (s.after contains stack e)⟩

/-- Every event can happen. -/
theorem system_runs (contains : List IPNet → IP → Bool) (stack : Nat) : ∀ (es : List Event) (s : Registrar),
    ∃ s', (system contains stack).run s es = some s'
  | [], s => ⟨s, rfl⟩
  | e :: es, s => system_runs contains stack es (s.after contains stack e)

/-- No peer has been returned yet. -/
def start (d : Database Tables) : Registrar := ⟨Datastore.wrap d, []⟩

/-! ## What a call is for -/

def ranges (p : Peer) : List IPNet := networks p.ip ++ networks p.ip6

/-- No address of one peer is an address of the other. -/
def DisjointRanges (p q : Peer) : Prop := ∀ n ∈ ranges p, ∀ m ∈ ranges q, n.Apart m

/-- The log has the creation of the peer. -/
def Logged (d : Database Tables) (p : Peer) : Prop :=
  ∃ row ∈ d.log.rows, ∃ op : Op Value, row.decode encoding = .ok op ∧ op.type = .create ∧
    op.value.row = .ok (.peer p.row)

/-- A peer that was returned is in the table and in the log when the call returns. Its ranges are
disjoint from those of the peers that were stored on its interface, and of those returned before. -/
structure Recorded (s : Registrar) (store : Datastore Tables Value) (peer : Peer) : Prop where
  stored : peer.row ∈ store.db.tables.peers.rows
  logged : Logged store.db peer
  disjoint : ∀ r ∈ s.store.db.tables.peers.rows, r.interface = peer.interface → ∀ p,
    r.scan = .ok p → DisjointRanges peer p
  apart : ∀ p ∈ s.returned, p.interface = peer.interface → DisjointRanges peer p

/-- A call without an error records its peer, and one with an error leaves the database as it was. -/
def SoundCall (s : Registrar) (store : Datastore Tables Value) : Peer × Option Error → Prop
  | (peer, none) => Recorded s store peer
  | (_, some _) => store.db = s.store.db

def Sound (contains : List IPNet → IP → Bool) (s : Registrar) : Event → Prop
  | .register c => SoundCall s (register contains c s.store).2 (register contains c s.store).1
  | .write _ => True

/-- The interface has no network, and the very peer is there already. -/
structure Preempted (s : Datastore Tables Value) (c : Call) : Prop where
  bare : Bare s.db.tables c
  stored : c.peer.row ∈ s.db.tables.peers.rows
  logged : Logged s.db c.peer

/-- The calls that keep to it. -/
def Kept (contains : List IPNet → IP → Bool) (s : Registrar) : Event → Prop
  | .register c => Refused contains c s.store.db.tables ∨ Preempted s.store c
  | .write _ => True

/-! ## A peer that has an address -/

/-- A stored peer with an address is not disjoint from itself. -/
theorem not_disjoint_self {p : Peer} {n : CIDR} (hn : n.ipnet.WellFormed) (hip : p.ip = some n) (hip6 : p.ip6 = none) :
    ∃ q, p.row.scan = .ok q ∧ ¬ DisjointRanges p q := by
  have hnil := CIDR.isNil_eq_false hn
  have hnone : NoneEmpty p.ip p.ip6 := by
    rintro c (hc | hc)
    · rw [hip] at hc; cases hc; exact hnil
    · rw [hip6] at hc; cases hc
  refine ⟨p.reread, Peer.scan_row hnone, fun h => ?_⟩
  have hmem : n.ipnet ∈ ranges p := by simp [ranges, networks, hip, hnil]
  have hmem' : n.reread.ipnet ∈ ranges p.reread := by simp [ranges, networks, Peer.reread, hip, hnil]
  have hcontains := hn.contains_ip
  refine h _ hmem _ hmem' n.ipnet.ip ⟨hcontains, ?_⟩
  unfold IPNet.contains at hcontains ⊢
  rwa [CIDR.reread_network hn]

theorem sound_iff (contains : List IPNet → IP → Bool) (s : Registrar) (e : Event) :
    Sound contains s e ↔ Kept contains s e := by
  cases e with
  | write r => exact Iff.rfl
  | register c =>
    show SoundCall s s.store (registerNewPeer contains c s.store.db.tables) ↔ Refused contains c s.store.db.tables ∨
      Preempted s.store c
    have hcase := registerNewPeer_cases contains c s.store.db.tables
    revert hcase
    generalize registerNewPeer contains c s.store.db.tables = res
    rintro (⟨peer, e, href⟩ | ⟨hnot, hbare⟩ | ⟨n, hn, hnot, hbare⟩)
    · exact iff_of_true rfl (.inl href)
    · have hnone : ranges c.peer = [] := rfl
      have hdisjoint : ∀ p, DisjointRanges c.peer p := fun p n hn => by rw [hnone] at hn; cases hn
      constructor
      · intro h
        exact .inr ⟨hbare, h.stored, h.logged⟩
      · rintro (h | h)
        · exact absurd h hnot
        · exact ⟨h.stored, h.logged, fun _ _ _ p _ => hdisjoint p, fun p _ _ => hdisjoint p⟩
    · refine iff_of_false (fun h => ?_) ?_
      · obtain ⟨q, hq, hnd⟩ := not_disjoint_self (p := { c.peer with ip := some n }) hn rfl rfl
        exact hnd (h.disjoint _ h.stored rfl q hq)
      · rintro (h | h)
        · exact hnot h
        · exact hbare h.bare

/-- In a run from any database, every registration is sound just if each of them is refused, or is for
a peer that is there already, on an interface without networks. -/
theorem registrations_sound_iff (contains : List IPNet → IP → Bool) (stack : Nat)
    (d : Database Tables) (es : List Event) :
    (system contains stack).Along (Sound contains) (start d) es ↔
      (system contains stack).Along (Kept contains) (start d) es :=
  System.along_congr (sound_iff contains) es (start d)

/-! ## A peer that nobody stores -/

/-- 10.0.0.0/24. -/
def tenNet : CIDR :=
  ⟨⟨v4InV6Prefix ++ [10, 0, 0, 0], cidrMask 24 32⟩, .inr (.inl ⟨[10, 0, 0, 0], rfl, rfl, 24, by decide, rfl⟩)⟩

def createInterface : Event :=
  .write ⟨.create (.interface ⟨"wg0", 51820, some tenNet, none, 0, "", ""⟩), Time.zero, true⟩

def registerKey (publicKey : String) : Call := ⟨"wg0", publicKey, 0, Time.zero, true, true⟩

def Event.publicKey : Event → Option String
  | .register c => some c.publicKey
  | .write _ => none

/-- A peer is returned, and the table has none. -/
theorem registration_stores_nothing :
    ¬ ∀ (contains : List IPNet → IP → Bool) (stack : Nat) (d : Database Tables) (es : List Event),
    (es.filterMap Event.publicKey).Nodup → (system contains stack).Along (Sound contains) (start d) es := by
  intro h
  have hrun := h bruteContains 8 Store.fresh.db [createInterface, .register (registerKey "a")] (by decide)
  have hsound : SoundCall _ ((start Store.fresh.db).after bruteContains 8 createInterface).store
    (registerNewPeer bruteContains
      (registerKey "a")
        ((start Store.fresh.db).after bruteContains 8 createInterface).store.db.tables) := (hrun.2 _ rfl).1
  have hnone : (registerNewPeer bruteContains (registerKey "a")
      ((start Store.fresh.db).after bruteContains 8 createInterface).store.db.tables).2 = none := by decide +kernel
  have hempty : ((start Store.fresh.db).after bruteContains 8 createInterface).store.db.tables.peers.rows = [] := by
    decide +kernel
  rcases hres : registerNewPeer bruteContains (registerKey "a")
    ((start Store.fresh.db).after bruteContains 8 createInterface).store.db.tables with ⟨peer, err⟩
  rw [hres] at hsound hnone
  cases hnone
  have hstored := hsound.stored
  rw [hempty] at hstored
  cases hstored

end Wig.Registration
