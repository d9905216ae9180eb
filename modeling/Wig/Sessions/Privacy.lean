/-
What a session keeps of the peer's address: of an endpoint the finder sees only the GeoIP records, so
two runs whose endpoints have the same records return the same sessions and stay in the same states.
-/
import Wig.Sessions.Finder
import Mathlib.Data.List.Forall2

namespace Wig.Sessions

open Wig.Net

/-! ## The records of an endpoint -/

def GeoRecord.empty : GeoRecord := ⟨"", "", ""⟩

/-- The record a database has of an endpoint: empty if the address does not parse, or the lookup fails. -/
def geoRecord (db : IP → Option GeoRecord) (endpoint : String) : GeoRecord :=
  ((parseIP endpoint.toList).bind db).getD .empty

theorem addRecord_empty (sess : Session) : addRecord sess .empty = sess := rfl

/-- The refiner adds the records of the endpoint, one database after the other. -/
theorem addIPInfo_eq (r : IPRefiner) (sess : Session) (endpoint : String) :
    addIPInfo r sess endpoint = r.dbs.foldl (fun sess db => addRecord sess (geoRecord db endpoint)) sess := by
  unfold addIPInfo geoRecord
  cases parseIP endpoint.toList with
  | none => exact (List.foldl_fixed' (fun _ => addRecord_empty sess) r.dbs).symm
  | some ip =>
    refine List.foldl_ext _ _ sess fun sess db _ => ?_
    cases hdb : db ip with
    | none => simp [hdb, addRecord_empty]
    | some record => simp [hdb]

/-- The databases of the refiner do not tell two endpoints apart. -/
def IPRefiner.Alike (r : IPRefiner) (endpoint endpoint' : String) : Prop :=
  ∀ db ∈ r.dbs, geoRecord db endpoint = geoRecord db endpoint'

theorem IPRefiner.Alike.addIPInfo_eq {r : IPRefiner} {endpoint endpoint' : String}
    (h : r.Alike endpoint endpoint') (sess : Session) : addIPInfo r sess endpoint = addIPInfo r sess endpoint' := by
  rw [Sessions.addIPInfo_eq, Sessions.addIPInfo_eq]
  refine List.foldl_ext _ _ sess fun sess db hdb => ?_
  rw [h db hdb]

namespace SessionFinder

/-! ## Two runs -/

/-- Two calls are the same but for endpoints alike. -/
structure SameButEndpoint (r : IPRefiner) (c c' : Call) : Prop where
  now : c.1 = c'.1
  peer : c.2.publicKey = c'.2.publicKey
  handshake : c.2.lastHandshakeTime = c'.2.lastHandshakeTime
  alike : r.Alike c.2.endpoint c'.2.endpoint

/-- The endpoint goes to the refiner only. -/
theorem SameButEndpoint.step {r : IPRefiner} {c c' : Call} (h : SameButEndpoint r c c') (f : SessionFinder) :
    f.analyze r c.1 c.2 = f.analyze r c'.1 c'.2 := by
  unfold analyze complete
  simp only [h.now, h.peer, h.handshake, h.alike.addIPInfo_eq]

theorem SameButEndpoint.run {r : IPRefiner} {cs cs' : List Call} (h : List.Forall₂ (SameButEndpoint r) cs cs')
    (f : SessionFinder) : analyzeAll r cs f = analyzeAll r cs' f := by
  induction h generalizing f with
  | nil => rfl
  | cons hstep _ ih => rw [analyzeAll_cons, analyzeAll_cons, hstep.step f, ih]

/-- Sessions have nothing of a peer's address but its GeoIP records: two runs, from any state, whose calls are
the same but for endpoints that no database tells apart, agree after each call on what was returned
and on the state. -/
theorem endpoint_not_revealed (r : IPRefiner) (f : SessionFinder) (cs cs' : List Call)
    (h : List.Forall₂ (SameButEndpoint r) cs cs') (n : Nat) :
    analyzeAll r (cs.take n) f = analyzeAll r (cs'.take n) f :=
  SameButEndpoint.run (List.forall₂_take n h) f

/-- A session that ends at either of two addresses of one country. -/
theorem endpoint_not_revealed_neighbours :
    let r : IPRefiner := ⟨[fun _ => some ⟨"IT", "", ""⟩]⟩
    let run (endpoint : String) : List Call :=
      [(⟨1000 * 10 ^ 9, 0⟩, ⟨"p", ⟨900 * 10 ^ 9, 0⟩, endpoint⟩),
        (⟨2000 * 10 ^ 9, 0⟩, ⟨"p", ⟨900 * 10 ^ 9, 0⟩, endpoint⟩)]
    ((analyzeAll r (run "10.0.0.1") empty).1.map fun h => h.session.srcCountry) = ["IT"] ∧
      analyzeAll r (run "10.0.0.1") empty = analyzeAll r (run "10.0.0.2") empty := by
  intro r run
  have hrecord : ∀ endpoint : String, (parseIP endpoint.toList).isSome →
      geoRecord (fun _ => some ⟨"IT", "", ""⟩) endpoint = ⟨"IT", "", ""⟩ := by
    intro endpoint hparse
    obtain ⟨ip, hip⟩ := Option.isSome_iff_exists.1 hparse
    rw [geoRecord, hip]
    rfl
  have halike : r.Alike "10.0.0.1" "10.0.0.2" := by
    intro db hdb
    cases List.mem_singleton.1 hdb
    rw [hrecord "10.0.0.1" (by decide), hrecord "10.0.0.2" (by decide)]
  have hcalls : List.Forall₂ (SameButEndpoint r) (run "10.0.0.1") (run "10.0.0.2") :=
    .cons ⟨rfl, rfl, rfl, halike⟩ (.cons ⟨rfl, rfl, rfl, halike⟩ .nil)
  exact ⟨by decide, endpoint_not_revealed r empty _ _ hcalls 2⟩

end SessionFinder

end Wig.Sessions
