/-
What a gateway reports: for each peer of its devices the counters of the kernel, in a dump that goes to the session
manager as JSON.
-/
import Wig.Gateway.Refine
import Wig.Sessions.Manager

namespace Wig.Gateway

open Wig.Lib Wig.Net Wig.Model Kernel

/-! ## Reports -/

/-- `gateway.PeerStats`. -/
structure PeerStats where
  publicKey : String
  lastHandshakeTime : Time
  rxBytes : Int64
  txBytes : Int64
  endpoint : String

namespace PeerStats

def marshalJSON (s : PeerStats) : Json :=
  .obj [("public_key", .str s.publicKey), ("last_handshake_time", .time s.lastHandshakeTime),
    ("rx_bytes", .num s.rxBytes.toInt), ("tx_bytes", .num s.txBytes.toInt), ("endpoint", .str s.endpoint)]

def unmarshalJSON (doc : Json) : Except Error PeerStats := do
  let doc ← doc.decodeStruct
  let publicKey ← Json.decodeString (doc.field "public_key")
  let lastHandshakeTime ← Json.decodeTime (doc.field "last_handshake_time")
  let rxBytes ← Json.decodeInt (doc.field "rx_bytes")
  let txBytes ← Json.decodeInt (doc.field "tx_bytes")
  let endpoint ← Json.decodeString (doc.field "endpoint")
  return { publicKey, lastHandshakeTime, rxBytes, txBytes, endpoint }

/-- What the session finder reads of a report. -/
def report (s : PeerStats) : Sessions.PeerStats := ⟨s.publicKey, s.lastHandshakeTime, s.endpoint⟩

theorem unmarshalJSON_marshalJSON (s : PeerStats) : unmarshalJSON s.marshalJSON = .ok s := by
  simp [unmarshalJSON, marshalJSON, Json.field_cons, Json.sameName, Json.foldChar, pure, Except.pure, bind, Except.bind]

end PeerStats

namespace StatsDump

/-- The slice of `updateStats` is nil until something is appended to it. -/
def marshalJSON (dump : List PeerStats) : Json :=
  if dump = [] then .null else .arr (dump.map PeerStats.marshalJSON)

def unmarshalJSON : Json → Except Error (List PeerStats)
  | .null => .ok []
  | .arr items => items.mapM PeerStats.unmarshalJSON
  | _ => .error .json

theorem mapM_unmarshalJSON :
    ∀ dump : List PeerStats, (dump.map PeerStats.marshalJSON).mapM PeerStats.unmarshalJSON = .ok dump
  | [] => rfl
  | s :: dump => by
    rw [List.map_cons, List.mapM_cons, PeerStats.unmarshalJSON_marshalJSON, mapM_unmarshalJSON dump]
    rfl

/-- A dump arrives as it was sent. -/
theorem unmarshalJSON_marshalJSON (dump : List PeerStats) : unmarshalJSON (marshalJSON dump) = .ok dump := by
  unfold marshalJSON
  split
  · rename_i h
    rw [h]
    rfl
  · exact mapM_unmarshalJSON dump

end StatsDump

end Wig.Gateway
