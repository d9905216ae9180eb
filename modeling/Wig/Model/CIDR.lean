/-
`model.CIDR`: an address with its network, and its JSON and SQL forms. The program builds its values
with `ParseCIDR` and `NewCIDR` only, so a value is nil or a network of the `net` package.
-/
import Wig.Net.RoundTrip
import Wig.Model.Basic

namespace Wig.Model

open Wig.Net

/-- `CIDR`; the nil value has no address. -/
structure CIDR where
  ipnet : IPNet
  wf : ipnet = ⟨[], []⟩ ∨ ipnet.WellFormed
  deriving DecidableEq

namespace CIDR

def nil : CIDR := ⟨⟨[], []⟩, .inl rfl⟩

def parse (s : String) : Except Error CIDR :=
  if s = "" then .ok nil
  else match h : parseCIDR s.toList with
    | none => .error .parseCIDR
    | some (ip, m) => .ok ⟨⟨ip, m⟩, .inr (parseCIDR_wellFormed h)⟩

/-- `NewCIDR`, for an address of four or sixteen bytes and a mask within its length. -/
def newCIDR (ip : IP) (sz : Nat) : CIDR :=
  if h : ip.length = 4 ∧ sz ≤ 32 then
    ⟨⟨ip, cidrMask sz (8 * ip.length)⟩, .inr (.inl ⟨ip, to4_self h.1, h.1, sz, h.2, by rw [h.1]⟩)⟩
  else if h : ip.length = 16 ∧ sz ≤ 128 then
    ⟨⟨ip, cidrMask sz (8 * ip.length)⟩, .inr (.inr ⟨h.1, sz, h.2, by rw [h.1]⟩)⟩
  else nil

def isNil (c : CIDR) : Bool := c.ipnet.ip = []

def string (c : CIDR) : String := if c.isNil then "" else String.ofList c.ipnet.chars

/-- The SQL form of a `*CIDR`, a nullable text. -/
def value : Option CIDR → Option String
  | none => none
  | some c => if c.isNil then none else some c.string

/-- A `*CIDR` read from a nullable text. -/
def scan : Option String → Except Error (Option CIDR)
  | none => .ok none
  | some s => (parse s).map some

/-- The JSON form of a `*CIDR`. -/
def marshalJSON : Option CIDR → Json
  | none => .null
  | some c => .str c.string

/-- A value that is there is parsed into, and an empty text leaves it as it is. -/
def unmarshalInto (c : Option CIDR) : Json → Except Error (Option CIDR)
  | .null => .ok none
  | .str s => if s = "" then .ok (some (c.getD nil)) else (parse s).map some
  | _ => .error .json

def unmarshalJSON : List Json → Except Error (Option CIDR) := Json.decodeInto unmarshalInto none

/-- Without a value there is a new one to parse into. -/
theorem unmarshalInto_none (s : String) : unmarshalInto none (.str s) = (parse s).map some := by
  by_cases hs : s = ""
  · rw [hs]
    rfl
  · exact if_neg hs

/-! ## Reading back what was written -/

theorem WellFormed.ip_ne_nil {n : IPNet} (h : n.WellFormed) : n.ip ≠ [] := by
  intro hnil
  rcases h with ⟨p, hp, -⟩ | ⟨hl, -⟩
  · rw [hnil] at hp; cases hp
  · rw [hnil] at hl; cases hl

theorem newCIDR_ipnet_eq {ip : IP} {sz : Nat} (h : (ip.length = 4 ∧ sz ≤ 32) ∨ (ip.length = 16 ∧ sz ≤ 128)) :
    (newCIDR ip sz).ipnet = ⟨ip, cidrMask sz (8 * ip.length)⟩ := by
  unfold newCIDR
  rcases h with h | h
  · rw [dif_pos h]
  · rw [dif_neg (by omega), dif_pos h]

theorem parse_ok_of_parseCIDR {s : String} {ip : IP} {m : IPMask} (hs : s ≠ "")
    (h : parseCIDR s.toList = some (ip, m)) : ∃ wf, parse s = .ok ⟨⟨ip, m⟩, wf⟩ := by
  unfold parse
  rw [if_neg hs]
  split
  · rename_i heq; rw [h] at heq; cases heq
  · rename_i heq; rw [h] at heq; cases heq; exact ⟨.inr (parseCIDR_wellFormed h), rfl⟩

theorem isNil_eq_false {c : CIDR} (h : c.ipnet.WellFormed) : c.isNil = false := by
  unfold isNil; simpa using WellFormed.ip_ne_nil h

/-- What a value reads back as, once printed. -/
theorem parse_string_exists (c : CIDR) : ∃ c', parse c.string = .ok c' ∧ c'.string = c.string ∧ c'.isNil = c.isNil := by
  rcases c.wf with h | h
  · have hn : c.isNil = true := by unfold isNil; rw [h]; rfl
    refine ⟨nil, ?_, ?_, ?_⟩
    · unfold string; rw [hn]; rfl
    · unfold string; rw [hn]; rfl
    · rw [hn]; rfl
  · have hn := isNil_eq_false h
    obtain ⟨ip, m, hp, hc⟩ := parseCIDR_chars h
    have hs : c.string = String.ofList c.ipnet.chars := by unfold string; rw [hn]; rfl
    have hne : String.ofList c.ipnet.chars ≠ "" := by
      intro he
      have hnil : c.ipnet.chars = [] := by
        have := congrArg String.toList he
        simpa using this
      rw [hnil] at hp; cases hp
    obtain ⟨wf, hw⟩ := parse_ok_of_parseCIDR hne (by rw [String.toList_ofList]; exact hp)
    have hwf := parseCIDR_wellFormed hp
    have hn' : (⟨⟨ip, m⟩, wf⟩ : CIDR).isNil = false := isNil_eq_false hwf
    refine ⟨⟨⟨ip, m⟩, wf⟩, by rw [hs]; exact hw, ?_, by rw [hn', hn]⟩
    rw [hs]
    unfold string
    rw [hn', ← hc]
    rfl

/-- The value read back from a printed one: the same text, if not the same bytes. -/
def reread (c : CIDR) : CIDR :=
  match parse c.string with
  | .ok c' => c'
  | .error _ => c

theorem parse_string (c : CIDR) : parse c.string = .ok c.reread := by
  obtain ⟨c', h, -⟩ := parse_string_exists c
  unfold reread; rw [h]

@[simp] theorem string_reread (c : CIDR) : c.reread.string = c.string := by
  obtain ⟨c', h, hs, -⟩ := parse_string_exists c
  unfold reread; rw [h]; exact hs

@[simp] theorem isNil_reread (c : CIDR) : c.reread.isNil = c.isNil := by
  obtain ⟨c', h, -, hn⟩ := parse_string_exists c
  unfold reread; rw [h]; exact hn

@[simp] theorem value_reread (p : Option CIDR) : value (p.map reread) = value p := by
  cases p with
  | none => rfl
  | some c => simp [value]

@[simp] theorem marshalJSON_reread (p : Option CIDR) : marshalJSON (p.map reread) = marshalJSON p := by
  cases p with
  | none => rfl
  | some c => simp [marshalJSON]

end CIDR

end Wig.Model
