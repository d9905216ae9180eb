/-
A JSON text for every document. All its bytes are printable, and it is at least as long as any string in
the document.
-/
import Wig.Model.Timestamp
import Mathlib.Tactic

namespace Wig

/-! ## Times -/

/-- `Z07:00`. -/
def zoneOrZ (offset : Int) : List Char := if offset = 0 then ['Z'] else zoneText offset

/-- RFC 3339, `2006-01-02T15:04:05.999999999Z07:00`. -/
def Time.rfc3339 (t : Time) : List Char :=
  dateText (t.wall / (86400 * 10 ^ 9)) ++ 'T' ::
    (clockText (t.wall / 10 ^ 9 % 86400).toNat ++ (fractionText (t.wall % 10 ^ 9).toNat ++ zoneOrZ t.offset))

example : Time.zero.rfc3339 = "0001-01-01T00:00:00Z".toList := by decide +kernel

example : (Time.mk 1709210096120000000 (-16200)).rfc3339 = "2024-02-29T08:04:56.12-04:30".toList := by decide +kernel

namespace Json

/-! ## Texts -/

/-- The byte of a number below 256. -/
def byte (n : Nat) : UInt8 := .ofNat n

def base64Digit (n : Nat) : UInt8 :=
  if n < 26 then byte (65 + n) else if n < 52 then byte (71 + n) else if n < 62 then byte (n - 4)
  else if n = 62 then byte 43 else byte 47

def base64 : List UInt8 → List UInt8
  | a :: b :: c :: rest =>
    base64Digit (a.toNat / 4) :: base64Digit (a.toNat % 4 * 16 + b.toNat / 16) ::
      base64Digit (b.toNat % 16 * 4 + c.toNat / 64) :: base64Digit (c.toNat % 64) :: base64 rest
  | [a, b] =>
    [base64Digit (a.toNat / 4), base64Digit (a.toNat % 4 * 16 + b.toNat / 16), base64Digit (b.toNat % 16 * 4), byte 61]
  | [a] => [base64Digit (a.toNat / 4), base64Digit (a.toNat % 4 * 16), byte 61, byte 61]
  | [] => []

/-- A hexadecimal digit. -/
def hexDigit (n : Nat) : UInt8 := if n < 10 then byte (48 + n) else byte (87 + n % 16)

/-- A UTF-16 unit as an escape. -/
def escape (n : Nat) : List UInt8 :=
  [byte 92, byte 117, hexDigit (n / 4096 % 16), hexDigit (n / 256 % 16), hexDigit (n / 16 % 16), hexDigit (n % 16)]

/-- A character of a string; what is not plain ASCII is escaped. -/
def quoteChar (c : Char) : List UInt8 :=
  if 32 ≤ c.toNat ∧ c.toNat < 127 ∧ c ≠ '"' ∧ c ≠ '\\' then [byte c.toNat]
  else if c.toNat < 2 ^ 16 then escape c.toNat
  else escape (0xD800 + (c.toNat - 2 ^ 16) / 1024) ++ escape (0xDC00 + (c.toNat - 2 ^ 16) % 1024)

def quote (s : List UInt8) : List UInt8 := byte 34 :: s ++ [byte 34]

def quoteString (s : String) : List UInt8 := quote (s.toList.flatMap quoteChar)

def decimal (n : Int) : List UInt8 :=
  (if n < 0 then [byte 45] else []) ++ (Nat.toDigits 10 n.natAbs).map fun c => byte c.toNat

mutual

/-- The text of a document. -/
def text : Json → List UInt8
  | .null => [byte 110, byte 117, byte 108, byte 108]
  | .num n => decimal n
  | .str s => quoteString s
  | .time t => quoteString (String.ofList t.rfc3339)
  | .bytes doc => quote (base64 (text doc))
  | .arr items => byte 91 :: textItems items ++ [byte 93]
  | .obj fields => byte 123 :: textFields fields ++ [byte 125]

def textItems : List Json → List UInt8
  | [] => []
  | doc :: docs => text doc ++ if docs.isEmpty then [] else byte 44 :: textItems docs

def textFields : List (String × Json) → List UInt8
  | [] => []
  | (k, doc) :: fields => quoteString k ++ byte 58 :: text doc ++ if fields.isEmpty then
    [] else byte 44 :: textFields fields

end

/-! ## Printable -/

/-- No byte is a control character. -/
def Printable (bs : List UInt8) : Prop := ∀ b ∈ bs, 32 ≤ b

theorem le_byte {n : Nat} (h : 32 ≤ n) (h' : n < 256) : 32 ≤ byte n := by
  rw [UInt8.le_iff_toNat_le, byte, UInt8.toNat_ofNat', Nat.mod_eq_of_lt h']
  exact h

@[simp] theorem printable_nil : Printable [] := fun _ h => (List.not_mem_nil h).elim

@[simp] theorem printable_cons {b : UInt8} {bs : List UInt8} : Printable (b :: bs) ↔ 32 ≤ b ∧ Printable bs :=
  List.forall_mem_cons

@[simp] theorem printable_append {bs bs' : List UInt8} : Printable (bs ++ bs') ↔ Printable bs ∧ Printable bs' :=
  List.forall_mem_append

theorem le_base64Digit (n : Nat) : 32 ≤ base64Digit n := by
  unfold base64Digit
  split
  · exact le_byte (by omega) (by omega)
  · split
    · exact le_byte (by omega) (by omega)
    · split
      · exact le_byte (by omega) (by omega)
      · split <;> decide

theorem printable_base64 (bs : List UInt8) : Printable (base64 bs) := by
  have hpad : 32 ≤ byte 61 := by decide
  fun_induction base64 bs with
  | case1 a b c rest ih => simp [le_base64Digit, ih]
  | case2 a b => simp [le_base64Digit, hpad]
  | case3 a => simp [le_base64Digit, hpad]
  | case4 => simp

theorem le_hexDigit (n : Nat) : 32 ≤ hexDigit n := by
  unfold hexDigit
  split
  · exact le_byte (by omega) (by omega)
  · exact le_byte (by omega) (by omega)

theorem printable_escape (n : Nat) : Printable (escape n) := by
  have hslash : 32 ≤ byte 92 := by decide
  have hu : 32 ≤ byte 117 := by decide
  simp [escape, le_hexDigit, hslash, hu]

theorem printable_quoteChar (c : Char) : Printable (quoteChar c) := by
  unfold quoteChar
  split
  · rename_i h
    simpa using le_byte h.1 (by omega)
  · split
    · exact printable_escape _
    · exact printable_append.2 ⟨printable_escape _, printable_escape _⟩

theorem printable_quote {s : List UInt8} (h : Printable s) : Printable (quote s) := by
  have hquote : 32 ≤ byte 34 := by decide
  simp [quote, hquote, h]

theorem printable_quoteString (s : String) : Printable (quoteString s) := by
  refine printable_quote fun b hb => ?_
  obtain ⟨c, -, hc⟩ := List.mem_flatMap.1 hb
  exact printable_quoteChar c b hc

theorem printable_decimal (n : Int) : Printable (decimal n) := by
  have hminus : 32 ≤ byte 45 := by decide
  refine printable_append.2 ⟨by split <;> simp [hminus], fun b hb => ?_⟩
  obtain ⟨c, hc, rfl⟩ := List.mem_map.1 hb
  have hdigit := Nat.isDigit_of_mem_toDigits (by decide) (by decide) hc
  simp only [Char.isDigit, Bool.and_eq_true, decide_eq_true_eq, UInt32.le_iff_toNat_le] at hdigit
  have h48 : 48 ≤ c.toNat := hdigit.1
  have h57 : c.toNat ≤ 57 := hdigit.2
  exact le_byte (by omega) (by omega)

mutual

theorem printable_text : ∀ doc : Json, Printable (text doc)
  | .null => by rw [text]; simp only [printable_cons, printable_nil]; decide
  | .num n => by rw [text]; exact printable_decimal n
  | .str s => by rw [text]; exact printable_quoteString s
  | .time t => by rw [text]; exact printable_quoteString _
  | .bytes doc => by rw [text]; exact printable_quote (printable_base64 _)
  | .arr items => by
    have hopen : 32 ≤ byte 91 := by decide
    have hclose : 32 ≤ byte 93 := by decide
    rw [text]
    simp [hopen, hclose, printable_textItems items]
  | .obj fields => by
    have hopen : 32 ≤ byte 123 := by decide
    have hclose : 32 ≤ byte 125 := by decide
    rw [text]
    simp [hopen, hclose, printable_textFields fields]

theorem printable_textItems : ∀ items : List Json, Printable (textItems items)
  | [] => by rw [textItems]; exact printable_nil
  | doc :: docs => by
    have hcomma : 32 ≤ byte 44 := by decide
    rw [textItems]
    refine printable_append.2 ⟨printable_text doc, ?_⟩
    split <;> simp [hcomma, printable_textItems docs]

theorem printable_textFields : ∀ fields : List (String × Json), Printable (textFields fields)
  | [] => by rw [textFields]; exact printable_nil
  | (k, doc) :: fields => by
    have hcomma : 32 ≤ byte 44 := by decide
    have hcolon : 32 ≤ byte 58 := by decide
    rw [textFields]
    refine printable_append.2 ⟨by simp [printable_quoteString, hcolon, printable_text doc], ?_⟩
    split <;> simp [hcomma, printable_textFields fields]

end

/-! ## Lengths -/

theorem length_base64 (bs : List UInt8) : bs.length ≤ (base64 bs).length := by
  fun_induction base64 bs with
  | case1 a b c rest ih => simp only [List.length_cons]; omega
  | case2 a b => simp
  | case3 a => simp
  | case4 => simp

theorem length_text_bytes (doc : Json) : (text doc).length ≤ (text (.bytes doc)).length := by
  have h := length_base64 (text doc)
  rw [text, quote]
  simp only [List.length_append, List.length_cons]
  omega

theorem quoteChar_ne_nil (c : Char) : quoteChar c ≠ [] := by
  unfold quoteChar
  split
  · exact List.cons_ne_nil _ _
  · split <;> exact List.cons_ne_nil _ _

theorem length_flatMap_quoteChar : ∀ cs : List Char, cs.length ≤ (cs.flatMap quoteChar).length
  | [] => Nat.le_refl 0
  | c :: cs => by
    have hchar := List.length_pos_iff.2 (quoteChar_ne_nil c)
    have hrest := length_flatMap_quoteChar cs
    simp only [List.flatMap_cons, List.length_append, List.length_cons]
    omega

theorem length_text_str (s : String) : s.toList.length ≤ (text (.str s)).length := by
  have h := length_flatMap_quoteChar s.toList
  rw [text, quoteString, quote]
  simp only [List.length_append, List.length_cons]
  omega

theorem length_textFields : ∀ {fields : List (String × Json)} {k : String} {doc : Json}, (k, doc) ∈ fields →
    (text doc).length ≤ (textFields fields).length
  | (k', doc') :: fields, k, doc, h => by
    rw [textFields]
    simp only [List.length_append, List.length_cons]
    rcases List.mem_cons.1 h with h | h
    · cases h
      omega
    · have hrest := length_textFields h
      rw [if_neg (by simpa using List.ne_nil_of_mem h), List.length_cons]
      omega

theorem length_text_obj {fields : List (String × Json)} {k : String} {doc : Json} (h : (k, doc) ∈ fields) :
    (text doc).length ≤ (text (.obj fields)).length := by
  have hfields := length_textFields h
  rw [text]
  simp only [List.length_append, List.length_cons]
  omega

/-! ## Reading strings back -/

def hexValue (b : UInt8) : Nat := if b.toNat < 58 then b.toNat - 48 else b.toNat - 87

def utf16Unit (a b c d : UInt8) : Nat := hexValue a * 4096 + hexValue b * 256 + hexValue c * 16 + hexValue d

/-- The next escape. -/
def readUnit : List UInt8 → Option (Nat × List UInt8)
  | _ :: _ :: a :: b :: c :: d :: rest => some (utf16Unit a b c d, rest)
  | _ => none

/-- The next character of a string. -/
def readChar : List UInt8 → Option (Char × List UInt8)
  | [] => none
  | b :: rest =>
    if b = byte 92 then
      (readUnit (b :: rest)).bind fun m =>
        if m.1 < 0xD800 ∨ 0xE000 ≤ m.1 then some (Char.ofNat m.1, m.2)
        else (readUnit m.2).map fun n => (Char.ofNat (2 ^ 16 + (m.1 - 0xD800) * 1024 + (n.1 - 0xDC00)), n.2)
    else some (Char.ofNat b.toNat, rest)

/-- The characters of a string up to its closing quote, and what is behind it. -/
def unquote : Nat → List UInt8 → Option (List Char × List UInt8)
  | 0, _ => none
  | fuel + 1, bs =>
    if bs.head? = some (byte 34) then some ([], bs.tail)
    else (readChar bs).bind fun c => (unquote fuel c.2).map fun cs => (c.1 :: cs.1, cs.2)

theorem hexValue_hexDigit : ∀ n < 16, hexValue (hexDigit n) = n := by decide

theorem readUnit_escape {n : Nat} (h : n < 2 ^ 16) (tail : List UInt8) :
    readUnit (escape n ++ tail) = some (n, tail) := by
  have hdigit : ∀ k, hexValue (hexDigit (k % 16)) = k % 16 := fun k => hexValue_hexDigit _ (Nat.mod_lt _ (by decide))
  have hunit : utf16Unit (hexDigit (n / 4096 % 16)) (hexDigit (n / 256 % 16)) (hexDigit (n / 16 % 16))
      (hexDigit (n % 16)) = n := by
    unfold utf16Unit
    rw [hdigit, hdigit, hdigit, hdigit]
    omega
  simp only [escape, List.cons_append, List.nil_append, readUnit, hunit]

theorem readChar_escape (n : Nat) (tail : List UInt8) : readChar (escape n ++ tail) =
    (readUnit (escape n ++ tail)).bind fun m =>
      if m.1 < 0xD800 ∨ 0xE000 ≤ m.1 then some (Char.ofNat m.1, m.2)
      else (readUnit m.2).map fun n => (Char.ofNat (2 ^ 16 + (m.1 - 0xD800) * 1024 + (n.1 - 0xDC00)), n.2) := rfl

theorem readChar_quoteChar (c : Char) (tail : List UInt8) : readChar (quoteChar c ++ tail) = some (c, tail) := by
  have hvalid : c.toNat < 0xD800 ∨ 0xDFFF < c.toNat ∧ c.toNat < 0x110000 := c.valid
  have hchar : Char.ofNat c.toNat = c := Char.ofNat_toNat c
  unfold quoteChar
  split
  · rename_i h
    have hbyte : (byte c.toNat).toNat = c.toNat := by
      rw [byte, UInt8.toNat_ofNat', Nat.mod_eq_of_lt (by omega)]
    have hslash : byte c.toNat ≠ byte 92 := by
      intro heq
      have hnat : c.toNat = 92 := by rw [← hbyte, heq]; rfl
      exact h.2.2.2 (Char.toNat_inj.1 hnat)
    rw [List.singleton_append, readChar, if_neg hslash, hbyte, hchar]
  · split
    · rename_i h
      rw [readChar_escape, readUnit_escape h, Option.bind_some, if_pos (by omega), hchar]
    · have hunits : 2 ^ 16 + (0xD800 + (c.toNat - 2 ^ 16) / 1024 - 0xD800) * 1024 +
        (0xDC00 + (c.toNat - 2 ^ 16) % 1024 - 0xDC00) =
          c.toNat := by omega
      rw [List.append_assoc, readChar_escape, readUnit_escape (by omega), Option.bind_some, if_neg (by omega),
        readUnit_escape (by omega), Option.map_some, hunits, hchar]

theorem head?_quoteChar (c : Char) : (quoteChar c).head? ≠ some (byte 34) := by
  unfold quoteChar
  split
  · rename_i h
    intro heq
    have hbyte : (byte c.toNat).toNat = (byte 34).toNat := congrArg UInt8.toNat (Option.some.inj heq)
    rw [byte, UInt8.toNat_ofNat', Nat.mod_eq_of_lt (by omega)] at hbyte
    exact h.2.2.1 (Char.toNat_inj.1 hbyte)
  · split <;> exact fun h => absurd (Option.some.inj h) (by decide)

theorem unquote_string (tail : List UInt8) : ∀ (cs : List Char) (fuel : Nat), cs.length < fuel →
    unquote fuel (cs.flatMap quoteChar ++ byte 34 :: tail) = some (cs, tail)
  | [], fuel + 1, _ => rfl
  | c :: cs, fuel + 1, h => by
    have hhead : (quoteChar c ++ (cs.flatMap quoteChar ++ byte 34 :: tail)).head? ≠ some (byte 34) := by
      obtain ⟨b, bs, hb⟩ := List.exists_cons_of_ne_nil (quoteChar_ne_nil c)
      have hquote := head?_quoteChar c
      rw [hb] at hquote ⊢
      exact hquote
    rw [List.flatMap_cons, List.append_assoc, unquote, if_neg hhead, readChar_quoteChar, Option.bind_some,
      unquote_string tail cs fuel (by simpa using h)]
    rfl

end Json

end Wig
