/-
What a `CIDR` is to the program, and that the JSON and the SQL form carry it: the value read back may
have its address in sixteen bytes instead of four, and a mask of four bytes instead of sixteen, yet it
is nil as before, has the same address and contains the same addresses.
-/
import Wig.Net.Subnet
import Wig.Model.CIDR

namespace Wig.Model.CIDR

open Wig.Net

/-! ## The methods that read -/

/-- `UnmarshalJSON` of a new value. A JSON null leaves the text that is parsed empty. -/
def unmarshalNew : Json → Except Error CIDR
  | .str s => parse s
  | .null => parse ""
  | _ => .error .json

/-- `Scan` of a new value. A NULL empties it. -/
def scanNew : Option String → Except Error CIDR
  | some s => parse s
  | none => .ok nil

/-! ## The network of the value read back -/

theorem string_of_wellFormed {c : CIDR} (h : c.ipnet.WellFormed) : c.string = String.ofList c.ipnet.chars := by
  unfold string
  rw [isNil_eq_false h, if_neg Bool.false_ne_true]

theorem reread_network {c : CIDR} (h : c.ipnet.WellFormed) :
    networkNumberAndMask c.reread.ipnet = networkNumberAndMask c.ipnet := by
  have hparse := c.parse_string
  unfold parse at hparse
  split at hparse
  · have hnil := c.isNil_reread
    injection hparse with hparse
    rw [← hparse, isNil_eq_false h] at hnil
    cases hnil
  · split at hparse
    · cases hparse
    · rename_i ip m heq
      rw [string_of_wellFormed h, String.toList_ofList] at heq
      injection hparse with hparse
      rw [← hparse]
      exact parseCIDR_chars_network h heq

theorem wellFormed_of_isNil {c : CIDR} (h : c.isNil = false) : c.ipnet.WellFormed := by
  refine c.wf.resolve_left fun hnil => ?_
  unfold isNil at h
  rw [hnil] at h
  cases h

theorem ipnet_of_isNil {c : CIDR} (h : c.isNil = true) : c.ipnet = ⟨[], []⟩ := by
  refine c.wf.resolve_right fun hwf => ?_
  rw [isNil_eq_false hwf] at h
  cases h

/-! ## What is carried -/

/-- The value read back is as good as the one written. -/
structure Same (c c' : CIDR) : Prop where
  isNil : c'.isNil = c.isNil
  ip : c'.ipnet.ip.equal c.ipnet.ip = true
  contains : ∀ x : IP, c'.ipnet.contains x = c.ipnet.contains x

theorem same_of_isNil {c c' : CIDR} (h : c.isNil = true) (h' : c'.isNil = true) : c.Same c' := by
  refine ⟨h'.trans h.symm, ?_, fun x => ?_⟩
  · rw [ipnet_of_isNil h, ipnet_of_isNil h']; rfl
  · rw [ipnet_of_isNil h, ipnet_of_isNil h']

theorem same_reread (c : CIDR) : c.Same c.reread := by
  cases hnil : c.isNil with
  | true => exact same_of_isNil hnil (c.isNil_reread.trans hnil)
  | false =>
    have hwf := wellFormed_of_isNil hnil
    have hwf' := wellFormed_of_isNil (c.isNil_reread.trans hnil)
    have hnet := reread_network hwf
    refine ⟨c.isNil_reread, ?_, fun x => ?_⟩
    · obtain ⟨m, hm, -⟩ := networkNumberAndMask_wellFormed hwf
      obtain ⟨m', hm', -⟩ := networkNumberAndMask_wellFormed hwf'
      rw [hm, hm'] at hnet
      exact equal_of_short hwf'.length hwf.length (Prod.mk.inj (Option.some.inj hnet)).1
    · unfold IPNet.contains
      rw [hnet]

/-- Any value, that is any text that `ParseCIDR` accepts and any `NewCIDR`, comes back from JSON and from the
database. -/
theorem codecs_preserve (c : CIDR) :
    (∃ c', unmarshalNew (marshalJSON (some c)) = .ok c' ∧ c.Same c') ∧ ∃ c',
      scanNew (value (some c)) = .ok c' ∧ c.Same c' := by
  refine ⟨⟨c.reread, c.parse_string, same_reread c⟩, ?_⟩
  cases hnil : c.isNil with
  | true => exact ⟨nil, by simp [value, hnil, scanNew], same_of_isNil hnil rfl⟩
  | false => exact ⟨c.reread, by simp [value, hnil, scanNew, c.parse_string], same_reread c⟩

/-- The mask is not carried as it is: `::ffff:10.0.0.1/120` comes back with the mask of `10.0.0.1/24`. -/
example :
    (parse "::ffff:10.0.0.1/120").toOption.map
      (fun c => (c.ipnet.mask.length, c.reread.ipnet.mask.length)) = some (16, 4) := by
  decide +kernel

end Wig.Model.CIDR
