/-
An operation on its two carriers: as JSON on its way to a follower, and as a row of the log. Both go
through one struct, which is filled by hand, and whose timestamp nobody sets.
-/
import Wig.Crudlog.Remote
import Wig.Model.Registered

namespace Wig.Crud

variable {T V Ty : Type} [DecidableEq Ty]

/-- What the encoding makes of a value, it reads back as that value. -/
def Encoding.RoundTrips (enc : Encoding V) (v : V) : Prop := (enc.marshalValue v).bind enc.unmarshalValue = .ok v

/-- The type of a value is registered, under its name, and its own JSON codec gives the value back. -/
structure Registry.Codes (r : Registry T V Ty) (typeOf : V → Ty) (marshal : V → Json) (v : V)
    (m : ObjType T V) : Prop where
  registered : r.getType typeOf v = some m
  named : r.getTypeByName m.name = some m
  codec : m.unmarshal (marshal v) = .ok v

theorem Registry.Codes.roundTrips {r : Registry T V Ty} {typeOf : V → Ty} {marshal : V → Json} {v : V} {m : ObjType T V}
    (h : r.Codes typeOf marshal v m) : (r.encoding typeOf marshal).RoundTrips v := by
  have hm : r.marshalValue typeOf marshal v = .ok (.obj [("type", .str m.name), ("data", .bytes (marshal v))]) := by
    unfold Registry.marshalValue
    rw [h.registered]
  have hu : r.unmarshalValue (.obj [("type", .str m.name), ("data", .bytes (marshal v))]) = .ok v := by
    rw [Registry.unmarshalValue_container, h.named]
    exact h.codec
  show (r.marshalValue typeOf marshal v).bind r.unmarshalValue = _
  rw [hm]
  exact hu

end Wig.Crud

namespace Wig.Crudlog

open Wig.Lib Wig.Crud

variable {T V : Type} {enc : Encoding V}

/-! ## The struct in the middle -/

/-- The operation without its timestamp. -/
def Op.untimed (op : Op V) : Op V := { op with timestamp := Time.zero }

theorem Op.untimed_eq_self {op : Op V} : op.untimed = op ↔ op.timestamp = Time.zero := by
  cases op
  simp [Op.untimed, eq_comm]

/-- All that comes back of an operation is what `serialize` put into the struct. -/
theorem Op.decode_serialize {op : Op V} (h : enc.RoundTrips op.value) :
    ∃ row, op.serialize enc = .ok row ∧ row.decode enc = .ok op.untimed := by
  unfold Encoding.RoundTrips at h
  cases hm : enc.marshalValue op.value with
  | error e => rw [hm] at h; cases h
  | ok doc =>
    rw [hm] at h
    refine ⟨⟨op.seq, op.type, doc, Time.zero⟩, by rw [Op.serialize, hm]; rfl, ?_⟩
    have hu : enc.unmarshalValue doc = .ok op.value := h
    rw [OpSerialized.decode, hu]
    rfl

/-! ## The carriers -/

theorem Op.unmarshalJSON_marshalJSON {op : Op V} (h : enc.RoundTrips op.value) (hs : op.seq < 2 ^ 64)
    (ht : op.type.Known) : (op.marshalJSON enc).bind (Op.unmarshalJSON enc) = .ok op.untimed := by
  obtain ⟨row, hr, hd⟩ := Op.decode_serialize h
  obtain ⟨-, hseq, htype, -⟩ := Op.serialize_eq_ok hr
  have hm : op.marshalJSON enc = .ok row.marshalJSON := by rw [Op.marshalJSON, hr]; rfl
  have hu : OpSerialized.unmarshalJSON row.marshalJSON = .ok row :=
    OpSerialized.unmarshalJSON_marshalJSON (hseq ▸ hs) (htype ▸ ht)
  have hback : Op.unmarshalJSON enc row.marshalJSON = .ok op.untimed := by
    unfold Op.unmarshalJSON
    rw [hu]
    exact hd
  rw [hm, Except.bind, hback]

namespace Database

/-- A row with a new number comes first among the rows from that number on. -/
theorem rowsSince_append {d d' : Database T} {row : OpSerialized} (hrows : d'.log.rows = d.log.rows ++ [row])
    (hfresh : row.seq ∉ d.log.keys) : d'.rowsSince row.seq = row :: d.rowsSince row.seq := by
  have hlt : ∀ r ∈ d.log.rows.filter fun r => decide (row.seq ≤ r.seq), row.seq ≤ r.seq ∧ row.seq ≠ r.seq := by
    intro r hr
    obtain ⟨hmem, hle⟩ := List.mem_filter.1 hr
    exact ⟨by simpa using hle, fun he => hfresh (he ▸ Table.key_mem_keys hmem)⟩
  have hfilter : (d'.log.rows.filter fun r => decide (row.seq ≤ r.seq)) =
      (d.log.rows.filter fun r => decide (row.seq ≤ r.seq)) ++ [row] := by
    rw [hrows, List.filter_append]
    simp
  unfold rowsSince
  rw [hfilter]
  -- both sides are sorted, and have the same rows, no two of them with the same number
  have hsorted := fun l => List.pairwise_insertionSort (fun r r' : OpSerialized => r.seq ≤ r'.seq) l
  refine List.Perm.eq_of_pairwise ?_ (hsorted _) (List.pairwise_cons.2 ⟨fun r hr => ?_, hsorted _⟩) ?_
  · intro a b ha hb hab hba
    have hmem : ∀ x ∈ (d.log.rows.filter fun r => decide (row.seq ≤ r.seq)) ++ [row], x ∈ d'.log.rows := by
      intro x hx
      rw [← hfilter] at hx
      exact (List.mem_filter.1 hx).1
    have hmem' : b ∈ (d.log.rows.filter fun r => decide (row.seq ≤ r.seq)) ++ [row] := by
      rcases List.mem_cons.1 hb with rfl | hb
      · simp
      · exact List.mem_append_left _ ((List.mem_insertionSort _).1 hb)
    exact Table.row_unique (hmem a ((List.mem_insertionSort _).1 ha)) (hmem b hmem') (Nat.le_antisymm hab hba)
  · exact (hlt r ((List.mem_insertionSort _).1 hr)).1
  · refine (List.perm_insertionSort _ _).trans ((List.perm_append_singleton _ _).trans ?_)
    exact ((List.perm_insertionSort _ _).symm).cons _

/-- What an appended operation is read back as, in front of what the log had from its number on. -/
theorem queryLogSince_append {op : Op V} (h : enc.RoundTrips op.value) (hs : op.seq < 2 ^ 63) {d : Database T}
    (hfresh : op.seq ∉ d.log.keys) {rest : List (Op V)}
    (hrest : (d.rowsSince op.seq).mapM (OpSerialized.decode enc) = .ok rest) :
    ∃ d', appendToLog enc op d = (.ok (), d') ∧ d'.queryLogSince enc op.seq = .ok (op.untimed :: rest) := by
  obtain ⟨row, hr, hd⟩ := Op.decode_serialize h
  obtain ⟨-, hseq, -, -⟩ := Op.serialize_eq_ok hr
  obtain ⟨d', happ, -, -, hrows⟩ := appendToLog_of hr hs hfresh
  refine ⟨d', happ, ?_⟩
  have hsince : d'.rowsSince op.seq = row :: d.rowsSince op.seq := by
    rw [← hseq]
    exact rowsSince_append hrows (hseq ▸ hfresh)
  rw [queryLogSince, if_pos hs, hsince, List.mapM_cons, hd, hrest]
  rfl

end Database

/-! ## The law of the codec -/

/-- Decoding what was encoded gives the operation back: from JSON, and from a log that has `rest` from
its number on. -/
structure Op.Preserved (enc : Encoding V) (op : Op V) (d : Database T) (rest : List (Op V)) : Prop where
  json : (op.marshalJSON enc).bind (Op.unmarshalJSON enc) = .ok op
  log : ∃ d', Database.appendToLog enc op d = (.ok (), d') ∧ d'.queryLogSince enc op.seq = .ok (op :: rest)

/-- An operation survives its carriers just if it has the zero timestamp, and a number that the column
of the log holds. -/
theorem Op.preserved_iff {Ty : Type} [DecidableEq Ty] {r : Registry T V Ty} {typeOf : V → Ty} {marshal : V → Json}
    {m : ObjType T V} {op : Op V} (hv : r.Codes typeOf marshal op.value m) (hs : op.seq < 2 ^ 64) (ht : op.type.Known)
    {d : Database T} (hfresh : op.seq ∉ d.log.keys) {rest : List (Op V)}
    (hrest : (d.rowsSince op.seq).mapM (OpSerialized.decode (r.encoding typeOf marshal)) = .ok rest) :
    op.Preserved (r.encoding typeOf marshal) d rest ↔ op.timestamp = Time.zero ∧ op.seq < 2 ^ 63 := by
  have hcode := hv.roundTrips
  have hjson := Op.unmarshalJSON_marshalJSON hcode hs ht
  constructor
  · intro h
    have huntimed : op.untimed = op := Except.ok.inj (hjson.symm.trans h.json)
    obtain ⟨d', happ, -⟩ := h.log
    obtain ⟨-, -, hlt, -⟩ := Database.appendToLog_ok happ
    exact ⟨Op.untimed_eq_self.1 huntimed, hlt⟩
  · rintro ⟨htime, hlt⟩
    have huntimed := Op.untimed_eq_self.2 htime
    obtain ⟨d', happ, hquery⟩ := Database.queryLogSince_append hcode hlt hfresh hrest
    rw [huntimed] at hjson hquery
    exact ⟨hjson, d', happ, hquery⟩

/-! ## A token -/

open Wig.Model

theorem codes_token (tok : Token) : registry.Codes Value.typeOf Value.marshal (.token tok) tokenType where
  registered := rfl
  named := rfl
  codec := by
    show (Token.unmarshalJSON tok.marshalJSON).map Value.token = _
    rw [Token.unmarshalJSON_marshalJSON]
    rfl

/-- The creation of a token, at a time. -/
def createToken (t : Time) : Op Value := ⟨1, .create, t, .token ⟨"id", "secret", some ["admin"]⟩⟩

theorem preserved_createToken :
    (createToken Time.zero).Preserved encoding (Database.fresh Tables.empty) [] ∧
      ¬ (createToken ⟨0, 0⟩).Preserved encoding (Database.fresh Tables.empty) [] := by
  have hiff : ∀ t, (createToken t).Preserved encoding (Database.fresh Tables.empty) [] ↔
      (createToken t).timestamp = Time.zero ∧ (createToken t).seq < 2 ^ 63 := by
    intro t
    have hcodes : registry.Codes Value.typeOf Value.marshal (createToken t).value tokenType := codes_token _
    have hknown : (createToken t).type.Known := trivial
    exact Op.preserved_iff hcodes (show 1 < 2 ^ 64 by decide) hknown List.not_mem_nil rfl
  refine ⟨(hiff _).2 ⟨rfl, by decide⟩, fun h => ?_⟩
  exact absurd ((hiff _).1 h).1 (by decide)

/-- An operation of 1970 comes back as one of year 1. -/
theorem timestamp_lost :
    ¬ ∀ op : Op Value, (∃ m, registry.Codes Value.typeOf Value.marshal op.value m) → op.seq < 2 ^ 64 →
    op.type.Known → (op.marshalJSON encoding).bind (Op.unmarshalJSON encoding) = .ok op ∧
      ∀ d : Database Tables, d.log.rows = [] → ∃ d', Database.appendToLog encoding op d = (.ok (), d') ∧
        d'.queryLogSince encoding op.seq = .ok [op] := by
  intro h
  have hcodes := codes_token ⟨"id", "secret", some ["admin"]⟩
  have hback := (h (createToken ⟨0, 0⟩) ⟨_, hcodes⟩ (by decide) trivial).1
  have hlost : ((createToken ⟨0, 0⟩).marshalJSON encoding).bind (Op.unmarshalJSON encoding) =
      .ok (createToken ⟨0, 0⟩).untimed :=
    Op.unmarshalJSON_marshalJSON hcodes.roundTrips (by decide) trivial
  have huntimed := Except.ok.inj (hlost.symm.trans hback)
  exact absurd (Op.untimed_eq_self.1 huntimed) (by decide)

end Wig.Crudlog
