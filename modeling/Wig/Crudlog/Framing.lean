/-
The subscription stream as bytes: one JSON document a line, with an empty line after each. The reader has
room for lines of less than 64 KiB, and takes a longer one for the end of the stream.
-/
import Wig.Crudlog.Codec
import Wig.Lib.Lines
import Wig.Model.Text

namespace Wig.Crudlog

open Wig.Lib Wig.Crud

variable {T V : Type}

/-! ## The two ends -/

/-- `encoding/json`, between documents and texts. -/
structure JsonText where
  marshal : Json → List UInt8
  unmarshal : List UInt8 → Except Error Json

/-- A document comes back from its text. The text is not empty, and its control characters are escaped. -/
structure JsonText.Faithful (J : JsonText) (doc : Json) : Prop where
  reads : J.unmarshal (J.marshal doc) = .ok doc
  nonempty : J.marshal doc ≠ []
  escaped : ∀ b ∈ J.marshal doc, 32 ≤ b

def newline : UInt8 := 10

def carriageReturn : UInt8 := 13

/-- `bufio.MaxScanTokenSize`. -/
def maxScanTokenSize : Nat := 64 * 1024

/-- What `handleSubscribe` writes: `Encode` ends a document with a newline, and the handler writes one
more. It returns at the first operation that has no document. -/
def handleSubscribe (J : JsonText) (enc : Encoding V) : List (Op V) → List UInt8
  | [] => []
  | op :: ops =>
    match op.marshalJSON enc with
    | .error _ => []
    | .ok doc => J.marshal doc ++ [newline] ++ [newline] ++ handleSubscribe J enc ops

/-- `remoteSubscription.loop`, by the tokens of its scanner: it skips the empty ones, and returns at the
first that is not an operation. -/
def loop (J : JsonText) (enc : Encoding V) : List (List UInt8) → List (Op V)
  | [] => []
  | b :: bs =>
    if b = [] then loop J enc bs
    else
      match (J.unmarshal b).bind (Op.unmarshalJSON enc) with
      | .error _ => []
      | .ok op => op :: loop J enc bs

/-- The operations that the consumer gets of a response. -/
def received (J : JsonText) (enc : Encoding V) (body : List UInt8) : List (Op V) :=
  loop J enc (scanLines newline carriageReturn maxScanTokenSize [] body)

/-- Where a follower is after one more connection: it subscribes behind the operations it has. -/
def resumed (J : JsonText) (enc : Encoding V) (ops : List (Op V)) (k : Nat) : Nat :=
  k + (received J enc (handleSubscribe J enc (ops.drop k))).length

def Op.triple (op : Op V) : Nat × OpType × V := (op.seq, op.type, op.value)

/-! ## One operation -/

/-- The document of an operation, which gives it back without its timestamp. -/
structure Op.Document (J : JsonText) (enc : Encoding V) (op : Op V) (doc : Json) : Prop where
  marshal : op.marshalJSON enc = .ok doc
  unmarshal : Op.unmarshalJSON enc doc = .ok op.untimed
  faithful : J.Faithful doc

variable {J : JsonText} {enc : Encoding V} {op : Op V} {doc : Json}

theorem JsonText.Faithful.newline_not_mem (h : J.Faithful doc) : newline ∉ J.marshal doc := fun hmem =>
  absurd (h.escaped newline hmem) (by decide)

theorem JsonText.Faithful.dropCR_eq (h : J.Faithful doc) : dropCR carriageReturn (J.marshal doc) = J.marshal doc :=
  dropCR_of_not_mem fun hmem => absurd (h.escaped carriageReturn hmem) (by decide)

theorem handleSubscribe_cons (h : op.Document J enc doc) (ops : List (Op V)) :
    handleSubscribe J enc (op :: ops) = J.marshal doc ++ newline :: ([] ++ newline :: handleSubscribe J enc ops) := by
  rw [handleSubscribe, h.marshal]
  simp

/-- An operation whose line fits is received, and the empty line after it is skipped. -/
theorem received_cons_of_short (h : op.Document J enc doc) (hshort : (J.marshal doc).length < maxScanTokenSize)
    (ops : List (Op V)) :
    received J enc (handleSubscribe J enc (op :: ops)) = op.untimed :: received J enc (handleSubscribe J enc ops) := by
  have hread : (J.unmarshal (J.marshal doc)).bind (Op.unmarshalJSON enc) = .ok op.untimed := by
    rw [h.faithful.reads]
    exact h.unmarshal
  have hempty : dropCR carriageReturn ([] ++ [] : List UInt8) = [] := by decide
  unfold received
  rw [handleSubscribe_cons h, scanLines_line _ h.faithful.newline_not_mem (by simpa using hshort),
    scanLines_line _ List.not_mem_nil (by decide), hempty, List.nil_append, h.faithful.dropCR_eq,
    loop, if_neg h.faithful.nonempty, hread]
  simp only
  rw [loop, if_pos rfl]

/-- A line that does not fit looks like the end of the stream. -/
theorem received_cons_of_long (h : op.Document J enc doc) (hlong : maxScanTokenSize ≤ (J.marshal doc).length)
    (ops : List (Op V)) : received J enc (handleSubscribe J enc (op :: ops)) = [] := by
  unfold received
  rw [handleSubscribe_cons h, scanLines_long _ h.faithful.newline_not_mem (by decide) (by simpa using hlong)]
  rfl

/-! ## A list of operations -/

/-- The line of an operation fits the scanner. -/
def Op.Short (J : JsonText) (enc : Encoding V) (op : Op V) : Prop :=
  ∀ doc, op.marshalJSON enc = .ok doc → (J.marshal doc).length < maxScanTokenSize

theorem Op.Document.short_iff (h : op.Document J enc doc) :
    op.Short J enc ↔ (J.marshal doc).length < maxScanTokenSize := by
  refine ⟨fun hs => hs doc h.marshal, fun hs doc' hdoc' => ?_⟩
  rw [h.marshal] at hdoc'
  cases hdoc'
  exact hs

theorem received_of_short :
    ∀ {ops : List (Op V)}, (∀ op ∈ ops, ∃ doc, op.Document J enc doc) → (∀ op ∈ ops, op.Short J enc) →
    received J enc (handleSubscribe J enc ops) = ops.map Op.untimed
  | [], _, _ => rfl
  | op :: ops, hdocs, hshort => by
    obtain ⟨⟨doc, hdoc⟩, hdocs⟩ := List.forall_mem_cons.1 hdocs
    obtain ⟨hs, hshort⟩ := List.forall_mem_cons.1 hshort
    rw [received_cons_of_short hdoc (hdoc.short_iff.1 hs), received_of_short hdocs hshort, List.map_cons]

/-- An operation that does not fit, and those behind it, are missing. -/
theorem length_received_lt :
    ∀ {ops : List (Op V)}, (∀ op ∈ ops, ∃ doc, op.Document J enc doc) → (∃ op ∈ ops, ¬ op.Short J enc) →
    (received J enc (handleSubscribe J enc ops)).length < ops.length
  | op :: ops, hdocs, hlong => by
    obtain ⟨⟨doc, hdoc⟩, hdocs⟩ := List.forall_mem_cons.1 hdocs
    by_cases hs : op.Short J enc
    · have hrest : ∃ op ∈ ops, ¬ op.Short J enc := by
        obtain ⟨op', hmem, hnot⟩ := hlong
        rcases List.mem_cons.1 hmem with rfl | hmem
        · exact absurd hs hnot
        · exact ⟨op', hmem, hnot⟩
      rw [received_cons_of_short hdoc (hdoc.short_iff.1 hs), List.length_cons, List.length_cons]
      exact Nat.succ_lt_succ (length_received_lt hdocs hrest)
    · rw [received_cons_of_long hdoc (not_lt.1 fun hlt => hs (hdoc.short_iff.2 hlt))]
      exact Nat.succ_pos _

/-- A follower in front of an operation that does not fit stays there. -/
theorem resumed_of_long {ops : List (Op V)} {k : Nat} {rest : List (Op V)} (hdrop : ops.drop k = op :: rest)
    (h : op.Document J enc doc) (hlong : maxScanTokenSize ≤ (J.marshal doc).length) : resumed J enc ops k = k := by
  unfold resumed
  rw [hdrop, received_cons_of_long h hlong]
  rfl

/-! ## The law of the stream -/

/-- The consumer gets what was written, and a follower gets to the end from wherever it is. -/
structure Framed (J : JsonText) (enc : Encoding V) (ops : List (Op V)) : Prop where
  delivered : (received J enc (handleSubscribe J enc ops)).map Op.triple = ops.map Op.triple
  catchesUp : ∀ k ≤ ops.length, ∃ n, (resumed J enc ops)^[n] k = ops.length

theorem Framed.of_short {ops : List (Op V)} (hdocs : ∀ op ∈ ops, ∃ doc, op.Document J enc doc)
    (hshort : ∀ op ∈ ops, op.Short J enc) : Framed J enc ops := by
  refine ⟨?_, fun k hk => ⟨1, ?_⟩⟩
  · rw [received_of_short hdocs hshort, List.map_map]
    rfl
  · have hsub : ∀ op ∈ ops.drop k, op ∈ ops := fun op hop => List.mem_of_mem_drop hop
    rw [Function.iterate_one, resumed, received_of_short (fun op hop => hdocs op (hsub op hop)) fun op hop =>
      hshort op (hsub op hop), List.length_map, List.length_drop]
    omega

variable {Ty : Type} [DecidableEq Ty] {r : Registry T V Ty} {typeOf : V → Ty} {marshal : V → Json}

theorem Op.exists_document (hcodes : ∃ m, r.Codes typeOf marshal op.value m) (hs : op.seq < 2 ^ 64) (ht : op.type.Known)
    (hJ : ∀ doc, op.marshalJSON (r.encoding typeOf marshal) = .ok doc → J.Faithful doc) :
    ∃ doc, op.Document J (r.encoding typeOf marshal) doc := by
  obtain ⟨m, hm⟩ := hcodes
  have hback := Op.unmarshalJSON_marshalJSON hm.roundTrips hs ht
  cases hdoc : op.marshalJSON (r.encoding typeOf marshal) with
  | error e => rw [hdoc] at hback; cases hback
  | ok doc => rw [hdoc] at hback; exact ⟨doc, hdoc, hback, hJ doc hdoc⟩

/-- Operations on registered objects come through the stream just if the line of each is shorter than
64 KiB. -/
theorem framed_iff {ops : List (Op V)}
    (hops : ∀ op ∈ ops, (∃ m, r.Codes typeOf marshal op.value m) ∧ op.seq < 2 ^ 64 ∧ op.type.Known)
    (hJ : ∀ op ∈ ops, ∀ doc, op.marshalJSON (r.encoding typeOf marshal) = .ok doc → J.Faithful doc) :
    Framed J (r.encoding typeOf marshal) ops ↔ ∀ op ∈ ops, op.Short J (r.encoding typeOf marshal) := by
  have hdocs : ∀ op ∈ ops, ∃ doc, op.Document J (r.encoding typeOf marshal) doc := fun op hop =>
    Op.exists_document (hops op hop).1 (hops op hop).2.1 (hops op hop).2.2 (hJ op hop)
  refine ⟨fun h => ?_, fun hshort => .of_short hdocs hshort⟩
  by_contra hnot
  push Not at hnot
  have hlen := congrArg List.length h.delivered
  rw [List.length_map, List.length_map] at hlen
  exact absurd hlen (length_received_lt hdocs hnot).ne

/-! ## Tokens with short and long secrets -/

open Wig.Model

/-- The texts of `Json.text`, with a reader that knows one of them. -/
def printed (doc : Json) : JsonText where
  marshal := Json.text
  unmarshal b := if b = Json.text doc then .ok doc else .error .json

theorem faithful_printed (fields : List (String × Json)) : (printed (.obj fields)).Faithful (.obj fields) where
  reads := if_pos rfl
  nonempty := by
    show Json.text _ ≠ []
    rw [Json.text]
    exact List.cons_ne_nil _ _
  escaped := Json.printable_text _

/-- The creation of a token with a secret. -/
def createSecret (secret : String) : Op Value := ⟨1, .create, Time.zero, .token ⟨"id", secret, none⟩⟩

def secretDoc (secret : String) : Json :=
  .obj [("seq", .num 1), ("type", .num 1), ("value", .bytes (.obj [("type", .str "token"),
    ("data", .bytes (Token.marshalJSON ⟨"id", secret, none⟩))])), ("timestamp", .time Time.zero)]

theorem marshalJSON_createSecret (secret : String) :
    (createSecret secret).marshalJSON encoding = .ok (secretDoc secret) := rfl

/-- The line of an operation is no shorter than the secret in it. -/
theorem length_secretDoc (secret : String) : secret.toList.length ≤ (Json.text (secretDoc secret)).length := by
  have htoken : ("secret", Json.str secret) ∈ [("id", Json.str "id"), ("secret", Json.str secret),
    ("roles", Json.null)] := by simp
  calc secret.toList.length
      ≤ (Json.text (.str secret)).length := Json.length_text_str secret
    _ ≤ (Json.text (Token.marshalJSON ⟨"id", secret, none⟩)).length := Json.length_text_obj htoken
    _ ≤ (Json.text (.bytes (Token.marshalJSON ⟨"id", secret, none⟩))).length := Json.length_text_bytes _
    _ ≤ (Json.text (.obj [("type", .str "token"), ("data", .bytes (Token.marshalJSON ⟨"id", secret, none⟩))])).length :=
        Json.length_text_obj (List.mem_cons_of_mem _ List.mem_cons_self)
    _ ≤ (Json.text
      (.bytes (.obj [("type", .str "token"), ("data", .bytes (Token.marshalJSON ⟨"id", secret, none⟩))]))).length :=
        Json.length_text_bytes _
    _ ≤ (Json.text (secretDoc secret)).length :=
        Json.length_text_obj (List.mem_cons_of_mem _ (List.mem_cons_of_mem _ List.mem_cons_self))

/-- What is assumed of a list of operations and of the texts of their documents holds here. -/
theorem assumed_createSecret (secret : String) : ∀ op ∈ [createSecret secret],
    ((∃ m, registry.Codes Value.typeOf Value.marshal op.value m) ∧ op.seq < 2 ^ 64 ∧ op.type.Known) ∧
      ∀ doc, op.marshalJSON encoding = .ok doc → (printed (secretDoc secret)).Faithful doc := by
  intro op hop
  rw [List.mem_singleton.1 hop]
  refine ⟨⟨⟨_, codes_token ⟨"id", secret, none⟩⟩, (by decide : 1 < 2 ^ 64), trivial⟩, fun doc hdoc => ?_⟩
  rw [marshalJSON_createSecret] at hdoc
  cases hdoc
  exact faithful_printed _

theorem framed_createSecret : Framed (printed (secretDoc "secret")) encoding [createSecret "secret"] := by
  have hassumed := assumed_createSecret "secret"
  refine (framed_iff (fun op hop => (hassumed op hop).1) fun op hop => (hassumed op hop).2).2 fun op hop doc hdoc => ?_
  rw [List.mem_singleton.1 hop] at hdoc
  rw [Except.ok.inj (hdoc.symm.trans (marshalJSON_createSecret "secret"))]
  show (Json.text (secretDoc "secret")).length < maxScanTokenSize
  decide +kernel

/-- A follower never gets past a token whose secret has 64 KiB. -/
theorem stuck_at_secret : ¬ ∀ (J : JsonText) (ops : List (Op Value)),
    (∀ op ∈ ops, (∃ m, registry.Codes Value.typeOf Value.marshal op.value m) ∧ op.seq < 2 ^ 64 ∧ op.type.Known) →
    (∀ op ∈ ops, ∀ doc, op.marshalJSON encoding = .ok doc → J.Faithful doc) →
      (received J encoding (handleSubscribe J encoding ops)).map Op.triple = ops.map Op.triple ∧
        ∀ k ≤ ops.length, ∃ n, (resumed J encoding ops)^[n] k = ops.length := by
  intro h
  let secret := String.ofList (List.replicate maxScanTokenSize 'a')
  have hassumed := assumed_createSecret secret
  have hlong : maxScanTokenSize ≤ (Json.text (secretDoc secret)).length := by
    refine le_trans ?_ (length_secretDoc secret)
    rw [String.toList_ofList, List.length_replicate]
  obtain ⟨doc, hdoc⟩ : ∃ doc, (createSecret secret).Document (printed (secretDoc secret)) encoding doc :=
    Op.exists_document (hassumed _ List.mem_cons_self).1.1 (by decide) trivial (hassumed _ List.mem_cons_self).2
  have heq : doc = secretDoc secret := Except.ok.inj (hdoc.marshal.symm.trans (marshalJSON_createSecret secret))
  subst heq
  obtain ⟨n, hn⟩ := (h (printed (secretDoc secret)) [createSecret secret] (fun op hop => (hassumed op hop).1)
    fun op hop => (hassumed op hop).2).2 0 (Nat.zero_le _)
  have hstuck : resumed (printed (secretDoc secret)) encoding [createSecret secret] 0 = 0 :=
    resumed_of_long rfl hdoc hlong
  rw [Function.iterate_fixed hstuck] at hn
  cases hn

end Wig.Crudlog
