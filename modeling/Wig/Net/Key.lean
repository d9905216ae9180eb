/-
WireGuard keys and their text form: `wgtypes.ParseKey` and `Key.String` over the decoder and encoder
of `base64.StdEncoding`, which skips line ends, wants its padding, and does not look at the bits of
the last character that carry no data. So a key has more than one text that parses to it.
-/
import Mathlib.Tactic

namespace Wig.Net

/-! ## Base64 -/

/-- The value of a character of the standard alphabet. -/
def base64Val (c : Char) : Option Nat :=
  if 'A' ≤ c ∧ c ≤ 'Z' then some (c.toNat - 65)
  else if 'a' ≤ c ∧ c ≤ 'z' then some (c.toNat - 71)
  else if '0' ≤ c ∧ c ≤ '9' then some (c.toNat + 4)
  else if c = '+' then some 62
  else if c = '/' then some 63
  else none

def base64Char (n : Nat) : Char :=
  if n < 26 then Char.ofNat (n + 65)
  else if n < 52 then Char.ofNat (n + 71)
  else if n < 62 then Char.ofNat (n - 4)
  else if n = 62 then '+'
  else '/'

/-- The bytes of a text without line ends, four characters at a time. -/
def decodeQuanta : List Char → Option (List UInt8)
  | [] => some []
  | a :: b :: c :: d :: rest =>
    match base64Val a, base64Val b, base64Val c, base64Val d with
    | some x, some y, some z, some w =>
      (decodeQuanta rest).map fun bs =>
        (x * 4 + y / 16).toUInt8 :: (y * 16 + z / 4).toUInt8 :: (z * 64 + w).toUInt8 :: bs
    | some x, some y, some z, none =>
      if d = '=' ∧ rest = [] then some [(x * 4 + y / 16).toUInt8, (y * 16 + z / 4).toUInt8] else none
    | some x, some y, none, none =>
      if c = '=' ∧ d = '=' ∧ rest = [] then some [(x * 4 + y / 16).toUInt8] else none
    | _, _, _, _ => none
  | _ => none

/-- `StdEncoding.DecodeString`. -/
def base64Decode (s : String) : Option (List UInt8) := decodeQuanta (s.toList.filter fun c => c ≠ '\n' ∧ c ≠ '\r')

/-- `StdEncoding.EncodeToString`. -/
def encodeQuanta : List UInt8 → List Char
  | [] => []
  | [a] => [base64Char (a.toNat / 4), base64Char (a.toNat % 4 * 16), '=', '=']
  | [a, b] =>
    [base64Char (a.toNat / 4), base64Char (a.toNat % 4 * 16 + b.toNat / 16), base64Char (b.toNat % 16 * 4), '=']
  | a :: b :: c :: rest =>
    base64Char (a.toNat / 4) :: base64Char (a.toNat % 4 * 16 + b.toNat / 16) ::
      base64Char (b.toNat % 16 * 4 + c.toNat / 64) :: base64Char (c.toNat % 64) :: encodeQuanta rest

/-! ## Reading back what was encoded -/

theorem base64Val_base64Char : ∀ n < 64, base64Val (base64Char n) = some n := by decide

theorem base64Char_not_lineEnd : ∀ n < 64, base64Char n ≠ '\n' ∧ base64Char n ≠ '\r' := by decide

theorem toUInt8_eq {n : Nat} {a : UInt8} (h : n % 256 = a.toNat) : n.toUInt8 = a :=
  UInt8.toNat_inj.1 (by rw [Nat.toUInt8, UInt8.toNat_ofNat']; exact h)

theorem decodeQuanta_encodeQuanta : ∀ bs : List UInt8, decodeQuanta (encodeQuanta bs) = some bs
  | [] => rfl
  | [a] => by
    have ha := a.toNat_lt
    simp only [encodeQuanta, decodeQuanta, base64Val_base64Char (a.toNat / 4) (by omega),
      base64Val_base64Char (a.toNat % 4 * 16) (by omega), show base64Val '=' = none from rfl, and_self, if_true]
    rw [toUInt8_eq (a := a) (by omega)]
  | [a, b] => by
    have ha := a.toNat_lt
    have hb := b.toNat_lt
    simp only [encodeQuanta, decodeQuanta, base64Val_base64Char (a.toNat / 4) (by omega),
      base64Val_base64Char (a.toNat % 4 * 16 + b.toNat / 16) (by omega),
      base64Val_base64Char (b.toNat % 16 * 4) (by omega), show base64Val '=' = none from rfl, and_self, if_true]
    rw [toUInt8_eq (a := a) (by omega), toUInt8_eq (a := b) (by omega)]
  | a :: b :: c :: rest => by
    have ha := a.toNat_lt
    have hb := b.toNat_lt
    have hc := c.toNat_lt
    simp only [encodeQuanta, decodeQuanta, base64Val_base64Char (a.toNat / 4) (by omega),
      base64Val_base64Char (a.toNat % 4 * 16 + b.toNat / 16) (by omega),
      base64Val_base64Char (b.toNat % 16 * 4 + c.toNat / 64) (by omega),
      base64Val_base64Char (c.toNat % 64) (by omega), decodeQuanta_encodeQuanta rest, Option.map_some]
    rw [toUInt8_eq (a := a) (by omega), toUInt8_eq (a := b) (by omega), toUInt8_eq (a := c) (by omega)]

theorem encodeQuanta_not_lineEnd : ∀ (bs : List UInt8), ∀ x ∈ encodeQuanta bs, x ≠ '\n' ∧ x ≠ '\r'
  | [], _, hx => (List.not_mem_nil hx).elim
  | [a], x, hx => by
    have ha := a.toNat_lt
    simp only [encodeQuanta, List.mem_cons, List.not_mem_nil, or_false] at hx
    rcases hx with rfl | rfl | rfl | rfl
    · exact base64Char_not_lineEnd _ (by omega)
    · exact base64Char_not_lineEnd _ (by omega)
    · decide
    · decide
  | [a, b], x, hx => by
    have ha := a.toNat_lt
    have hb := b.toNat_lt
    simp only [encodeQuanta, List.mem_cons, List.not_mem_nil, or_false] at hx
    rcases hx with rfl | rfl | rfl | rfl
    · exact base64Char_not_lineEnd _ (by omega)
    · exact base64Char_not_lineEnd _ (by omega)
    · exact base64Char_not_lineEnd _ (by omega)
    · decide
  | a :: b :: c :: rest, x, hx => by
    have ha := a.toNat_lt
    have hb := b.toNat_lt
    have hc := c.toNat_lt
    simp only [encodeQuanta, List.mem_cons] at hx
    rcases hx with rfl | rfl | rfl | rfl | hx
    · exact base64Char_not_lineEnd _ (by omega)
    · exact base64Char_not_lineEnd _ (by omega)
    · exact base64Char_not_lineEnd _ (by omega)
    · exact base64Char_not_lineEnd _ (by omega)
    · exact encodeQuanta_not_lineEnd rest x hx

theorem base64Decode_encodeQuanta (bs : List UInt8) : base64Decode (String.ofList (encodeQuanta bs)) = some bs := by
  have hfilter : (encodeQuanta bs).filter (fun c => c ≠ '\n' ∧ c ≠ '\r') = encodeQuanta bs :=
    List.filter_eq_self.2 fun x hx => decide_eq_true (encodeQuanta_not_lineEnd bs x hx)
  unfold base64Decode
  rw [String.toList_ofList, hfilter, decodeQuanta_encodeQuanta]

/-! ## Keys -/

/-- `wgtypes.Key`: 32 bytes. -/
structure Key where
  bytes : List UInt8
  length_eq : bytes.length = 32
  deriving DecidableEq

namespace Key

def ofBytes (bs : List UInt8) : Option Key := if h : bs.length = 32 then some ⟨bs, h⟩ else none

/-- `new(wgtypes.Key)`. -/
def zero : Key := ⟨List.replicate 32 0, rfl⟩

def string (k : Key) : String := String.ofList (encodeQuanta k.bytes)

end Key

def parseKey (s : String) : Option Key := (base64Decode s).bind Key.ofBytes

/-- A key reads back from its text. -/
theorem parseKey_string (k : Key) : parseKey k.string = some k := by
  unfold parseKey Key.string
  rw [base64Decode_encodeQuanta, Option.bind_some]
  exact dif_pos k.length_eq

theorem Key.string_inj {k k' : Key} (h : k.string = k'.string) : k = k' :=
  Option.some.inj ((parseKey_string k).symm.trans ((congrArg parseKey h).trans (parseKey_string k')))

/-- A text is the canonical one of the key it parses to. -/
def CanonicalKey (s : String) : Prop := ∃ k, parseKey s = some k ∧ k.string = s

end Wig.Net
