/-
The TTL of a registration. The seconds of the request are turned into a duration of 64 bits before their sign
decides whether the peer expires, so a TTL of some centuries wraps around.
-/
import Wig.Httptransport.Transport
import Wig.Registration.Allocate

namespace Wig.Registration

open Wig.Lib Wig.Net Wig.Model Wig.Httptransport

/-! ## The handler -/

structure RegisterPeerRequest where
  interface : String
  publicKey : String
  ttl : Int64

def RegisterPeerRequest.unmarshalJSON (doc : Json) : Except Error RegisterPeerRequest := do
  let doc ← doc.decodeStruct
  return ⟨← Json.decodeString (doc.field "interface"), ← Json.decodeString (doc.field "public_key"),
    ← Json.decodeInt (doc.field "ttl")⟩

/-- `time.Second`. -/
def second : Int64 := 1000000000

/-- The call of `RegisterNewPeer`; its TTL is `time.Second*time.Duration(rr.TTL)`. -/
def RegisterPeerRequest.call (rr : RegisterPeerRequest) (now : Time) (opens commits : Bool) : Call :=
  ⟨rr.interface, rr.publicKey, (second * rr.ttl).toInt, now, opens, commits⟩

def handleRegisterPeer (contains : List IPNet → IP → Bool) (now : Time) (opens commits : Bool) :
    Except Error Json → Proc Tables Error Reply :=
  serveJSON RegisterPeerRequest.unmarshalJSON fun rr t =>
    match registerNewPeer contains (rr.call now opens commits) t with
    | (peer, none) => (.ok (some peer.marshalJSON), t)
    | (_, some e) => (.err e, t)

/-! ## The expiry of a peer -/

/-- Addresses aside, the peer is the one of the call. -/
theorem registerNewPeer_expire {contains : List IPNet → IP → Bool} {c : Call} {t : Tables} {peer : Peer}
    (h : registerNewPeer contains c t = (peer, none)) : peer.expire = c.peer.expire := by
  have hcase := registerNewPeer_cases contains c t
  rw [h] at hcase
  cases hcase with
  | bare => rfl
  | ranged => rfl

/-- The nanoseconds of a TTL. -/
def nanos (ttl : Int64) : Int := 10 ^ 9 * ttl.toInt

theorem toInt_second_mul (ttl : Int64) : (second * ttl).toInt = (nanos ttl).bmod (2 ^ 64) := by
  rw [Int64.toInt_mul]
  rfl

/-- A positive product comes out as it is just if it is below `2 ^ 63`. -/
theorem bmod_eq_self_iff {x : Int} (h : 0 < x) : x.bmod (2 ^ 64) = x ↔ x < 2 ^ 63 := by
  constructor
  · intro heq
    have hlt := Int.bmod_lt (x := x) (m := 2 ^ 64) (by decide)
    rw [heq] at hlt
    exact hlt
  · intro hlt
    exact Int.bmod_eq_of_le (by omega) (by omega)

theorem call_expire (rr : RegisterPeerRequest) (now : Time) (opens commits : Bool) :
    (rr.call now opens commits).peer.expire =
    if 0 < (nanos rr.ttl).bmod (2 ^ 64) then now.add ((nanos rr.ttl).bmod (2 ^ 64)) else Time.zero := by
  unfold Call.peer RegisterPeerRequest.call
  simp only [toInt_second_mul]

section

variable (contains : List IPNet → IP → Bool) (now : Time) (opens commits : Bool) (t : Tables)

/-- What a TTL asks for: the peer expires that many seconds from now, which is an expiry and later than now, and
no smaller TTL would have it expire later. -/
structure TTLKept (rr : RegisterPeerRequest) (peer : Peer) : Prop where
  expire : peer.expire = now.add (nanos rr.ttl)
  set : peer.expire.unixNano ≠ Time.zero.unixNano
  later : now.unixNano < peer.expire.unixNano
  monotone : ∀ (ttl : Int64) (peer' : Peer), 0 < ttl → ttl ≤ rr.ttl →
    registerNewPeer contains (RegisterPeerRequest.call { rr with ttl := ttl } now opens commits) t = (peer', none) →
    peer'.expire.unixNano ≤ peer.expire.unixNano

/-- The duration fits into 64 bits; and it does not end at the instant that stands for no expiry. -/
structure TTLFits (ttl : Int64) : Prop where
  duration : nanos ttl < 2 ^ 63
  instant : now.unixNano + nanos ttl ≠ Time.zero.unixNano

variable {contains now opens commits t} {rr : RegisterPeerRequest} {peer : Peer}

theorem nanos_pos {ttl : Int64} (h : 0 < ttl) : 0 < nanos ttl := by
  have hpos : 0 < ttl.toInt := Int64.lt_iff_toInt_lt.1 h
  unfold nanos
  omega

theorem expire_of_fits (rr : RegisterPeerRequest) (httl : 0 < rr.ttl) (hfits : nanos rr.ttl < 2 ^ 63)
    (h : registerNewPeer contains (rr.call now opens commits) t = (peer, none)) :
    peer.expire = now.add (nanos rr.ttl) := by
  have hpos := nanos_pos httl
  rw [registerNewPeer_expire h, call_expire, (bmod_eq_self_iff hpos).2 hfits, if_pos hpos]

theorem ttlKept_iff (httl : 0 < rr.ttl) (h : registerNewPeer contains (rr.call now opens commits) t = (peer, none)) :
    TTLKept contains now opens commits t rr peer ↔ TTLFits now rr.ttl := by
  have hpos := nanos_pos httl
  constructor
  · intro hkept
    have hexpire := registerNewPeer_expire h
    rw [call_expire] at hexpire
    split at hexpire
    · -- the wrapped duration is the one that was asked for
      have hsame := hexpire.symm.trans hkept.expire
      have hwrapped : (nanos rr.ttl).bmod (2 ^ 64) = nanos rr.ttl := by
        have hnano := congrArg Time.unixNano hsame
        simp only [Time.add] at hnano
        omega
      refine ⟨(bmod_eq_self_iff hpos).1 hwrapped, ?_⟩
      have hset := hkept.set
      rw [hkept.expire] at hset
      exact hset
    · exact absurd (congrArg Time.unixNano hexpire) hkept.set
  · intro hfits
    have hexpire := expire_of_fits rr httl hfits.duration h
    refine ⟨hexpire, ?_, ?_, fun ttl peer' hpos' hle h' => ?_⟩
    · rw [hexpire]
      exact hfits.instant
    · rw [hexpire]
      simp only [Time.add]
      omega
    · have hnanos : nanos ttl ≤ nanos rr.ttl := by
        have hint : ttl.toInt ≤ rr.ttl.toInt := Int64.le_iff_toInt_le.1 hle
        unfold nanos
        omega
      have hexpire' := expire_of_fits { rr with ttl := ttl } hpos' (lt_of_le_of_lt hnanos hfits.duration) h'
      rw [hexpire, hexpire']
      simp only [Time.add]
      omega

end

/-- A positive TTL that the handler accepts is kept just if its nanoseconds fit into 64 bits. -/
theorem accepted_ttl_kept_iff {contains : List IPNet → IP → Bool} {now : Time} {opens commits : Bool} {t t' : Tables}
    {body : Except Error Json} {doc : Json} {rr : RegisterPeerRequest}
    (hbody : body.bind RegisterPeerRequest.unmarshalJSON = .ok rr)
    (httl : 0 < rr.ttl) (haccepted : handleRegisterPeer contains now opens commits body t = (.ok (.object doc), t')) :
    ∃ peer : Peer, doc = peer.marshalJSON ∧ registerNewPeer contains (rr.call now opens commits) t = (peer, none) ∧
      (TTLKept contains now opens commits t rr peer ↔ TTLFits now rr.ttl) := by
  rcases hreg : registerNewPeer contains (rr.call now opens commits) t with ⟨peer, _ | e⟩
  · have hserve : handleRegisterPeer contains now opens commits body t = (.ok (.object peer.marshalJSON), t) :=
      serveJSON_object hbody (by rw [hreg])
    rw [hserve] at haccepted
    cases haccepted
    exact ⟨peer, rfl, rfl, ttlKept_iff httl hreg⟩
  · have hserve : handleRegisterPeer contains now opens commits body t = (.ok (.failed e), t) :=
      serveJSON_failed hbody (by rw [hreg])
    rw [hserve] at haccepted
    cases haccepted

/-! ## Short and long TTLs -/

/-- One interface, without networks. -/
def bareInterface : Tables :=
  ⟨⟨[⟨"wg0", 0, none, none, 0, "", ""⟩], List.nodup_singleton _⟩, .empty, .empty, fun _ h => by cases h⟩

def registerBody (ttl : Int) : Except Error Json :=
  .ok (.obj [("interface", .str "wg0"), ("public_key", .str "pk"), ("ttl", .num ttl)])

/-- At the start of 1970. -/
def register1970 (ttl : Int) : Outcome Error Reply × Tables :=
  handleRegisterPeer (fun _ _ => false) ⟨0, 0⟩ true true (registerBody ttl) bareInterface

def peer1970 (expire : Int) : Peer := ⟨"pk", "wg0", none, none, ⟨expire, 0⟩⟩

theorem registerNewPeer_bareInterface (ttl : Int64) :
    registerNewPeer (fun _ _ => false) (RegisterPeerRequest.call ⟨"wg0", "pk", ttl⟩ ⟨0, 0⟩ true true) bareInterface =
      ((RegisterPeerRequest.call ⟨"wg0", "pk", ttl⟩ ⟨0, 0⟩ true true).peer, none) := rfl

theorem register1970_eq (ttl : Int) (ttl' : Int64) {expire : Int} (httl : Json.decodeInt [.num ttl] = .ok ttl')
    (h : (RegisterPeerRequest.call ⟨"wg0", "pk", ttl'⟩ ⟨0, 0⟩ true true).peer = peer1970 expire) :
    (registerBody ttl).bind RegisterPeerRequest.unmarshalJSON = .ok ⟨"wg0", "pk", ttl'⟩ ∧
      register1970 ttl = (.ok (.object (peer1970 expire).marshalJSON), bareInterface) := by
  have hbody : (registerBody ttl).bind RegisterPeerRequest.unmarshalJSON = .ok ⟨"wg0", "pk", ttl'⟩ := by
    show RegisterPeerRequest.unmarshalJSON
      (.obj [("interface", .str "wg0"), ("public_key", .str "pk"), ("ttl", .num ttl)]) = _
    simp [RegisterPeerRequest.unmarshalJSON, Json.field_cons, Json.sameName, Json.foldChar, httl, bind,
      Except.bind, pure, Except.pure]
  refine ⟨hbody, ?_⟩
  unfold register1970 handleRegisterPeer
  refine serveJSON_object hbody ?_
  rw [registerNewPeer_bareInterface, h]

/-- An hour. -/
theorem accepted_ttl_kept_hour :
    register1970 3600 = (.ok (.object (peer1970 (3600 * 10 ^ 9)).marshalJSON), bareInterface) ∧
    TTLFits ⟨0, 0⟩ 3600 ∧ TTLKept (fun _ _ => false) ⟨0, 0⟩ true true bareInterface ⟨"wg0", "pk",
      3600⟩ (peer1970 (3600 * 10 ^ 9)) := by
  have hpeer : (RegisterPeerRequest.call ⟨"wg0", "pk", 3600⟩ ⟨0, 0⟩ true true).peer = peer1970 (3600 * 10 ^ 9) := by
    decide
  obtain ⟨hbody, hserve⟩ := register1970_eq 3600 3600 rfl hpeer
  have hfits : TTLFits ⟨0, 0⟩ 3600 := ⟨by decide, by decide⟩
  obtain ⟨peer, -, hreg, hiff⟩ := accepted_ttl_kept_iff hbody (by decide) hserve
  rw [registerNewPeer_bareInterface, hpeer] at hreg
  cases hreg
  exact ⟨hserve, hfits, hiff.2 hfits⟩

/-- With 9223372037 seconds the peer never expires; with 18446744074 it does before the second is over. -/
theorem large_ttl_wraps :
    register1970 9223372037 = (.ok (.object (peer1970 Time.zero.unixNano).marshalJSON), bareInterface) ∧
    ¬ TTLKept (fun _ _ => false) ⟨0, 0⟩ true true bareInterface ⟨"wg0", "pk", 9223372037⟩
      (peer1970 Time.zero.unixNano) ∧
    register1970 18446744074 = (.ok (.object (peer1970 290448384).marshalJSON), bareInterface) ∧
    ¬ TTLKept (fun _ _ => false) ⟨0, 0⟩ true true bareInterface ⟨"wg0", "pk", 18446744074⟩ (peer1970 290448384) := by
  have hnever : (RegisterPeerRequest.call ⟨"wg0", "pk", 9223372037⟩ ⟨0, 0⟩ true true).peer =
      peer1970 Time.zero.unixNano := by decide
  have hsoon : (RegisterPeerRequest.call ⟨"wg0", "pk", 18446744074⟩ ⟨0, 0⟩ true true).peer = peer1970 290448384 := by
    decide
  refine ⟨(register1970_eq 9223372037 9223372037 rfl hnever).2, fun h => ?_,
    (register1970_eq 18446744074 18446744074 rfl hsoon).2, fun h => ?_⟩
  · exact h.set rfl
  · have hexpire := congrArg Time.unixNano h.expire
    exact absurd hexpire (by decide)

end Wig.Registration
