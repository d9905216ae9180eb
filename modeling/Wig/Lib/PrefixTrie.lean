/-
Path-compressed tries of aligned blocks. A node stands for a block and has at most one child in each half of it; a
block is inserted where the path to it leaves the trie. What a trie is compared with is the list of its entries.
-/
import Wig.Lib.Block

namespace Wig.Lib

inductive PrefixTrie (α : Type) where
  | nil
  | node (block : Block) (entry : Option α) (zero one : PrefixTrie α)

namespace PrefixTrie

variable {α : Type}

/-! ## Operations -/

/-- Some block with an entry has the number. -/
def contains (x : Nat) : PrefixTrie α → Bool
  | nil => false
  | node b entry zero one =>
    if b.Contains x then
      entry.isSome || match b.low with
        | 0 => false
        | k + 1 => if x.testBit k then contains x one else contains x zero
    else false

def leaf (b : Block) (e : α) : PrefixTrie α := node b (some e) nil nil

/-- A node with a trie in one half and another in the other. -/
def fork (b : Block) (entry : Option α) (bit : Bool) (t other : PrefixTrie α) : PrefixTrie α :=
  if bit then node b entry other t else node b entry t other

/-- One of two halves. -/
def half {β : Type} (bit : Bool) (zero one : β) : β := if bit then one else zero

def insert (b : Block) (e : α) : PrefixTrie α → PrefixTrie α
  | nil => leaf b e
  | node c entry zero one =>
    if b = c then node c (some e) zero one
    else if b.Within c then
      if b.number.testBit (c.low - 1) then node c entry zero (insert b e one) else node c entry (insert b e zero) one
    -- the node goes under the new block, or both under the smallest block around them
    else if b.join c = b then fork b (some e) (c.number.testBit (b.low - 1)) (node c entry zero one) nil
    else fork (b.join c) none (c.number.testBit ((b.join c).low - 1)) (node c entry zero one) (leaf b e)

theorem half_self {β : Type} (bit : Bool) (t : β) : half bit t t = t := by
  cases bit <;> rfl

theorem node_eq_fork (bit : Bool) (c : Block) (entry : Option α) (zero one : PrefixTrie α) :
    node c entry zero one = fork c entry bit (half bit zero one) (half (!bit) zero one) := by
  cases bit <;> rfl

/-- A block inside that of the node goes into its half. -/
theorem insert_within {b c : Block} {e : α} {entry : Option α} {zero one : PrefixTrie α}
    (hne : b ≠ c) (hin : b.Within c) :
    insert b e (node c entry zero one) = fork c entry (b.number.testBit (c.low - 1))
      (insert b e (half (b.number.testBit (c.low - 1)) zero one)) (half (!b.number.testBit (c.low - 1)) zero one) := by
  rw [insert, if_neg hne, if_pos hin]
  cases b.number.testBit (c.low - 1) <;> rfl

/-! ## Well-formed tries -/

/-- A block in one half of another. -/
structure InHalf (c : Block) (bit : Bool) (b : Block) : Prop where
  lt : b.low < c.low
  agree : AgreeAbove c.low b.number c.number
  bit_eq : b.number.testBit (c.low - 1) = bit

/-- The block of the first node. -/
def top : PrefixTrie α → Option Block
  | nil => none
  | node b _ _ _ => some b

def WF : PrefixTrie α → Prop
  | nil => True
  | node c _ zero one => (∀ b ∈ zero.top, InHalf c false b) ∧ (∀ b ∈ one.top, InHalf c true b) ∧ zero.WF ∧ one.WF

/-- The blocks that have an entry. -/
def entries : PrefixTrie α → List (Block × α)
  | nil => []
  | node b entry zero one => (entry.map fun e => (b, e)).toList ++ (zero.entries ++ one.entries)

theorem InHalf.within {b c : Block} {bit : Bool} (h : InHalf c bit b) : b.Within c := ⟨h.lt.le, h.agree⟩

theorem InHalf.ne {b c : Block} {bit : Bool} (h : InHalf c bit b) : b ≠ c := by
  rintro rfl
  exact lt_irrefl _ h.lt

theorem InHalf.bit_unique {b c : Block} {bit bit' : Bool} (h : InHalf c bit b) (h' : InHalf c bit' b) : bit = bit' :=
  h.bit_eq.symm.trans h'.bit_eq

theorem InHalf.of_within {b c d : Block} {bit : Bool} (h : InHalf c bit d) (hb : b.Within d) : InHalf c bit b := by
  refine ⟨hb.1.trans_lt h.lt, (hb.trans h.within).2, ?_⟩
  rw [hb.2.testBit (Nat.le_sub_one_of_lt h.lt), h.bit_eq]

theorem InHalf.join {b c d : Block} {bit : Bool} (hb : InHalf c bit b) (hd : InHalf c bit d) :
    InHalf c bit (b.join d) := by
  have hpos : 0 < c.low := Nat.zero_lt_of_lt hb.lt
  have hbit : b.number.testBit (c.low - 1) = d.number.testBit (c.low - 1) := hb.bit_eq.trans hd.bit_eq.symm
  have hagree : AgreeAbove (c.low - 1) b.number d.number := by
    refine agree_succ.2 ⟨?_, hbit⟩
    rw [Nat.sub_add_cancel hpos]
    exact hb.agree.trans hd.agree.symm
  -- both are inside the half, so what is around them is
  have hhalf : d.Within (Block.around (c.low - 1) b.number) :=
    ⟨Nat.le_sub_one_of_lt hd.lt, hagree.symm.trans (Block.agree_around _ _).symm⟩
  have hjoin :=
    Block.join_within (⟨Nat.le_sub_one_of_lt hb.lt, (Block.agree_around _ _).symm⟩ : b.Within
      (Block.around (c.low - 1) b.number)) hhalf
  refine ⟨lt_of_le_of_lt hjoin.1 (by rw [Block.around_low]; omega), (Block.join_within hb.within hd.within).2, ?_⟩
  rw [hjoin.2.testBit (le_refl (c.low - 1)),
    (Block.agree_around (c.low - 1) b.number).testBit (le_refl (c.low - 1)), hb.bit_eq]

/-- A block that is inside another one is in one of its halves. -/
theorem InHalf.of_ne {b c : Block} (h : b.Within c) (hne : b ≠ c) : InHalf c (b.number.testBit (c.low - 1)) b := by
  refine ⟨lt_of_le_of_ne h.1 fun hlow => hne (Block.eq_of_agree hlow (hlow ▸ h.2)), h.2, rfl⟩

/-- A number of a block in one half is in that half. -/
theorem InHalf.testBit {b c : Block} {bit : Bool} {x k : Nat} (h : InHalf c bit b)
    (hk : c.low = k + 1) (hx : b.Contains x) : x.testBit k = bit := by
  have hlow : b.low ≤ k := by have hlt := h.lt; omega
  have hbit := h.bit_eq
  rw [hk, Nat.add_sub_cancel] at hbit
  rw [AgreeAbove.testBit hx hlow, hbit]

/-! ## Entries -/

theorem mem_entries_node {p : Block × α} {c : Block} {entry : Option α} {zero one : PrefixTrie α} :
    p ∈ (node c entry zero one).entries ↔ (∃ e, entry = some e ∧ p = (c, e)) ∨ p ∈ zero.entries ∨ p ∈ one.entries := by
  cases entry with
  | none => simp [entries]
  | some e => simp [entries]

theorem mem_entries_leaf {p : Block × α} {b : Block} {e : α} : p ∈ (leaf b e).entries ↔ p = (b, e) := by
  simp [leaf, entries]

theorem mem_entries_fork {p : Block × α} {c : Block} {entry : Option α} {bit : Bool} {t other : PrefixTrie α} :
    p ∈ (fork c entry bit t other).entries ↔ (∃ e, entry = some e ∧ p = (c, e)) ∨
      p ∈ t.entries ∨ p ∈ other.entries := by
  unfold fork
  split
  · rw [mem_entries_node, or_comm (a := p ∈ other.entries)]
  · rw [mem_entries_node]

theorem wf_fork {c : Block} {entry : Option α} {bit : Bool} {t other : PrefixTrie α} (ht : t.WF) (hother : other.WF)
    (htop : ∀ b ∈ t.top, InHalf c bit b) (hotop : ∀ b ∈ other.top, InHalf c (!bit) b) :
    (fork c entry bit t other).WF := by
  cases bit with
  | false => exact ⟨htop, hotop, ht, hother⟩
  | true => exact ⟨hotop, htop, hother, ht⟩

theorem top_fork (c : Block) (entry : Option α) (bit : Bool) (t other : PrefixTrie α) :
    (fork c entry bit t other).top = some c := by
  cases bit <;> rfl

theorem within_of_mem_entries {b : Block} {e : α} :
    ∀ {t : PrefixTrie α}, t.WF → (b, e) ∈ t.entries → ∃ c, t.top = some c ∧ b.Within c
  | node c entry zero one, hwf, hmem => by
    obtain ⟨hzero, hone, hwz, hwo⟩ := hwf
    refine ⟨c, rfl, ?_⟩
    rcases List.mem_append.1 hmem with hhere | hbelow
    · obtain ⟨e', -, heq⟩ : ∃ e', entry = some e' ∧ (c, e') = (b, e) := by simpa using hhere
      rw [Prod.mk.injEq] at heq
      exact heq.1 ▸ .refl _
    · rcases List.mem_append.1 hbelow with hz | ho
      · obtain ⟨d, htop, hb⟩ := within_of_mem_entries hwz hz
        exact hb.trans (hzero d htop).within
      · obtain ⟨d, htop, hb⟩ := within_of_mem_entries hwo ho
        exact hb.trans (hone d htop).within

/-- The entries of a half are in the half. -/
theorem inHalf_of_mem {b c : Block} {bit : Bool} {e : α} {t : PrefixTrie α} (hwf : t.WF)
    (htop : ∀ d ∈ t.top, InHalf c bit d) (hmem : (b, e) ∈ t.entries) : InHalf c bit b := by
  obtain ⟨d, hd, hb⟩ := within_of_mem_entries hwf hmem
  exact (htop d hd).of_within hb

/-- A lookup finds just the numbers of the entries. -/
theorem contains_iff {x : Nat} : ∀ {t : PrefixTrie α}, t.WF → (t.contains x = true ↔ ∃ p ∈ t.entries, p.1.Contains x)
  | nil, _ => by simp [contains, entries]
  | node c entry zero one, hwf => by
    obtain ⟨hzero, hone, hwz, hwo⟩ := hwf
    have hall : ∀ p ∈ (node c entry zero one).entries, p.1.Contains x → c.Contains x := by
      rintro ⟨b, e⟩ hmem hx
      obtain ⟨d, htop, hb⟩ := within_of_mem_entries (t := node c entry zero one) ⟨hzero, hone, hwz, hwo⟩ hmem
      cases htop
      exact hb.contains hx
    rw [contains]
    by_cases hc : c.Contains x
    · rw [if_pos hc]
      cases entry with
      | some e => exact iff_of_true rfl ⟨(c, e), mem_entries_node.2 (.inl ⟨e, rfl, rfl⟩), hc⟩
      | none =>
        -- no entry here, so a number is looked up in its half
        have hbelow : ∀ p, p ∈ (node c none zero one).entries ↔ p ∈ zero.entries ∨ p ∈ one.entries := fun p => by
          rw [mem_entries_node]
          simp
        simp only [Option.isSome_none, Bool.false_or, hbelow]
        split
        · rename_i hlow
          refine iff_of_false Bool.false_ne_true ?_
          rintro ⟨⟨b, e⟩, hz | ho, -⟩
          · exact absurd (inHalf_of_mem hwz hzero hz).lt (by omega)
          · exact absurd (inHalf_of_mem hwo hone ho).lt (by omega)
        · rename_i k hlow
          split
          · rename_i hbit
            rw [contains_iff hwo]
            constructor
            · rintro ⟨p, hp, hx⟩
              exact ⟨p, .inr hp, hx⟩
            · rintro ⟨⟨b, e⟩, hz | ho, hx⟩
              · have hfalse := (inHalf_of_mem hwz hzero hz).testBit hlow hx
                rw [hbit] at hfalse
                cases hfalse
              · exact ⟨(b, e), ho, hx⟩
          · rename_i hbit
            rw [contains_iff hwz]
            constructor
            · rintro ⟨p, hp, hx⟩
              exact ⟨p, .inl hp, hx⟩
            · rintro ⟨⟨b, e⟩, hz | ho, hx⟩
              · exact ⟨(b, e), hz, hx⟩
              · exact absurd ((inHalf_of_mem hwo hone ho).testBit hlow hx) hbit
    · rw [if_neg hc]
      refine iff_of_false Bool.false_ne_true ?_
      rintro ⟨p, hp, hx⟩
      exact hc (hall p hp hx)

/-! ## Insertion -/

theorem insert_top {b : Block} {e : α} {t : PrefixTrie α} {c : Block} {bit : Bool} (hb : InHalf c bit b)
    (htop : ∀ d ∈ t.top, InHalf c bit d) : ∀ d ∈ (t.insert b e).top, InHalf c bit d := by
  cases t with
  | nil =>
    rintro d ⟨⟩
    exact hb
  | node a entry zero one =>
    have ha : InHalf c bit a := htop a rfl
    intro d hd
    rw [insert] at hd
    split at hd
    · cases hd; exact ha
    · split at hd
      · split at hd <;> cases hd <;> exact ha
      · split at hd <;> rw [top_fork] at hd <;> cases hd
        · exact hb
        · exact hb.join ha

theorem wf_half {c : Block} {entry : Option α} {zero one : PrefixTrie α}
    (hwf : (node c entry zero one).WF) (bit : Bool) :
    (half bit zero one).WF ∧ ∀ b ∈ (half bit zero one).top, InHalf c bit b := by
  obtain ⟨hzero, hone, hwz, hwo⟩ := hwf
  cases bit with
  | false => exact ⟨hwz, hzero⟩
  | true => exact ⟨hwo, hone⟩

/-- A block beside that of the node: both are in the smallest block around them, in different halves. -/
theorem inHalf_join {b c : Block} (hne : b.join c ≠ b) (hout : ¬ b.Within c) :
    InHalf (b.join c) (c.number.testBit ((b.join c).low - 1)) c ∧ InHalf (b.join c)
    (!c.number.testBit ((b.join c).low - 1)) b := by
  have hjc : b.join c ≠ c := fun h => hout (h ▸ Block.within_join_left b c)
  obtain ⟨k, hk, hbits⟩ := Block.testBit_join_ne hne hjc
  refine ⟨InHalf.of_ne (Block.within_join_right b c) (Ne.symm hjc), ?_⟩
  have hhalf := InHalf.of_ne (Block.within_join_left b c) (Ne.symm hne)
  rw [hk, Nat.add_sub_cancel] at hhalf ⊢
  rwa [← Bool.eq_not.2 hbits]

/-- A node for what is around the block and the trie does not change what an insertion does. -/
theorem insert_fork_join {b c : Block} {e : α} {entry : Option α} {zero one : PrefixTrie α} (hout : ¬ b.Within c) :
    insert b e (fork (b.join c) none (c.number.testBit ((b.join c).low - 1)) (node c entry zero one) nil) =
      insert b e (node c entry zero one) := by
  have hne : b ≠ c := fun h => hout (h ▸ .refl b)
  rw [insert.eq_2 b e c entry zero one, if_neg hne, if_neg hout]
  by_cases hjoin : b.join c = b
  · rw [if_pos hjoin, hjoin]
    unfold fork
    split <;> rw [insert, if_pos rfl]
  · rw [if_neg hjoin]
    have hbit := (inHalf_join hjoin hout).2.bit_eq
    generalize c.number.testBit ((b.join c).low - 1) = bit at hbit ⊢
    have hin := Block.within_join_left b c
    cases bit with
    | false => exact (insert_within (Ne.symm hjoin) hin).trans (by rw [hbit]; rfl)
    | true => exact (insert_within (Ne.symm hjoin) hin).trans (by rw [hbit]; rfl)

theorem mem_of_half {c : Block} {entry : Option α} {zero one : PrefixTrie α} {bit : Bool} {p : Block × α}
    (h : p ∈ (half bit zero one).entries) : p ∈ (node c entry zero one).entries := by
  rw [mem_entries_node]
  cases bit with
  | false => exact .inr (.inl h)
  | true => exact .inr (.inr h)

/-- What is in one half of the node's block is below the child of that half. -/
theorem mem_half_of_inHalf {c : Block} {entry : Option α} {zero one : PrefixTrie α} {bit : Bool} {b : Block} {e : α}
    (hwf : (node c entry zero one).WF) (hmem : (b, e) ∈ (node c entry zero one).entries) (hb : InHalf c bit b) :
    (b, e) ∈ (half bit zero one).entries := by
  rw [node_eq_fork bit, mem_entries_fork] at hmem
  rcases hmem with ⟨e', -, heq⟩ | hhalf | hother
  · exact absurd (Prod.mk.inj heq).1 hb.ne
  · exact hhalf
  · have hbit := (inHalf_of_mem (wf_half hwf (!bit)).1 (wf_half hwf (!bit)).2 hother).bit_unique hb
    cases bit <;> cases hbit

/-- Insertion keeps a trie well formed. -/
theorem insert_wf {b : Block} {e : α} {t : PrefixTrie α} (hwf : t.WF) : (t.insert b e).WF := by
  induction t with
  | nil => exact ⟨nofun, nofun, trivial, trivial⟩
  | node c entry zero one ihz iho =>
    by_cases hne : b = c
    · rw [insert, if_pos hne]
      exact hwf
    by_cases hin : b.Within c
    · have hhalf := InHalf.of_ne hin hne
      rw [insert_within hne hin]
      generalize b.number.testBit (c.low - 1) = bit at hhalf ⊢
      obtain ⟨hw, htop⟩ := wf_half hwf bit
      obtain ⟨hw', htop'⟩ := wf_half hwf (!bit)
      refine wf_fork ?_ hw' (insert_top hhalf htop) htop'
      cases bit with
      | false => exact ihz hw
      | true => exact iho hw
    rw [insert, if_neg hne, if_neg hin]
    split
    · rename_i hjoin
      have hc : c.Within b := hjoin ▸ Block.within_join_right b c
      refine wf_fork hwf trivial ?_ nofun
      rintro d ⟨⟩
      exact InHalf.of_ne hc (Ne.symm hne)
    · rename_i hjoin
      obtain ⟨hold, hnew⟩ := inHalf_join hjoin hin
      refine wf_fork hwf ⟨nofun, nofun, trivial, trivial⟩ ?_ ?_
      · rintro d ⟨⟩
        exact hold
      · rintro d ⟨⟩
        exact hnew

/-- And puts one entry in, in place of that of the same block. -/
theorem mem_entries_insert {b : Block} {e : α} {p : Block × α} {t : PrefixTrie α} (hwf : t.WF) :
    p ∈ (t.insert b e).entries ↔ p = (b, e) ∨ p ∈ t.entries ∧ p.1 ≠ b := by
  induction t with
  | nil => simp [insert, mem_entries_leaf, entries]
  | node c entry zero one ihz iho =>
    have hentries : ∀ bit, p ∈ (half bit zero one).entries → InHalf c bit p.1 := fun bit hp =>
      inHalf_of_mem (wf_half hwf bit).1 (wf_half hwf bit).2 hp
    by_cases hne : b = c
    · subst hne
      rw [insert, if_pos rfl, mem_entries_node, mem_entries_node]
      constructor
      · rintro (⟨e', he', rfl⟩ | hz | ho)
        · cases he'; exact .inl rfl
        · exact .inr ⟨.inr (.inl hz), (hentries false hz).ne⟩
        · exact .inr ⟨.inr (.inr ho), (hentries true ho).ne⟩
      · rintro (rfl | ⟨⟨e', -, rfl⟩ | hbelow, hne⟩)
        · exact .inl ⟨e, rfl, rfl⟩
        · exact absurd rfl hne
        · exact .inr hbelow
    by_cases hin : b.Within c
    · have hhalf := InHalf.of_ne hin hne
      rw [insert_within hne hin, node_eq_fork (b.number.testBit (c.low - 1))]
      generalize b.number.testBit (c.low - 1) = bit at hhalf ⊢
      have ih : p ∈ ((half bit zero one).insert b e).entries ↔ p = (b, e) ∨
          p ∈ (half bit zero one).entries ∧ p.1 ≠ b := by
        cases bit with
        | false => exact ihz (wf_half hwf false).1
        | true => exact iho (wf_half hwf true).1
      rw [mem_entries_fork, mem_entries_fork, ih]
      constructor
      · rintro (⟨e', he', rfl⟩ | (hnew | ⟨hmem, hp⟩) | hother)
        · exact .inr ⟨.inl ⟨e', he', rfl⟩, Ne.symm hne⟩
        · exact .inl hnew
        · exact .inr ⟨.inr (.inl hmem), hp⟩
        · refine .inr ⟨.inr (.inr hother), fun heq => ?_⟩
          have hbit := (heq ▸ hentries (!bit) hother : InHalf c (!bit) b).bit_unique hhalf
          cases bit <;> cases hbit
      · rintro (hnew | ⟨hhere | hmem | hother, hp⟩)
        · exact .inr (.inl (.inl hnew))
        · exact .inl hhere
        · exact .inr (.inl (.inr ⟨hmem, hp⟩))
        · exact .inr (.inr hother)
    -- the block is not inside the node's, so no entry below is of the block
    have hother : p ∈ (node c entry zero one).entries → p.1 ≠ b := by
      rintro hp rfl
      obtain ⟨d, hd, hwithin⟩ := within_of_mem_entries hwf hp
      cases hd
      exact hin hwithin
    rw [insert, if_neg hne, if_neg hin]
    split
    · rw [mem_entries_fork]
      constructor
      · rintro (⟨e', he', rfl⟩ | hold | hnil)
        · cases he'; exact .inl rfl
        · exact .inr ⟨hold, hother hold⟩
        · cases hnil
      · rintro (hnew | ⟨hold, -⟩)
        · exact .inl ⟨e, rfl, hnew⟩
        · exact .inr (.inl hold)
    · rw [mem_entries_fork, mem_entries_leaf]
      constructor
      · rintro (⟨e', he', -⟩ | hold | hnew)
        · cases he'
        · exact .inr ⟨hold, hother hold⟩
        · exact .inl hnew
      · rintro (hnew | ⟨hold, -⟩)
        · exact .inr (.inr hnew)
        · exact .inr (.inl hold)

/-! ## No node without need -/

/-- Every node has an entry, or is where two tries part. -/
def Tight : PrefixTrie α → Prop
  | nil => True
  | node _ entry zero one => (entry ≠ none ∨ zero ≠ nil ∧ one ≠ nil) ∧ zero.Tight ∧ one.Tight

/-- The same below the first node. -/
def TightBelow : PrefixTrie α → Prop
  | nil => True
  | node _ _ zero one => zero.Tight ∧ one.Tight

theorem Tight.below {t : PrefixTrie α} (h : t.Tight) : t.TightBelow := by
  cases t with
  | nil => trivial
  | node => exact h.2

theorem tight_half {c : Block} {entry : Option α} {zero one : PrefixTrie α}
    (h : (node c entry zero one).TightBelow) (bit : Bool) : (half bit zero one).Tight := by
  cases bit with
  | false => exact h.1
  | true => exact h.2

theorem tightBelow_fork {c : Block} {entry : Option α} {bit : Bool} {t other : PrefixTrie α} (ht : t.Tight)
    (hother : other.Tight) : (fork c entry bit t other).TightBelow := by
  cases bit with
  | false => exact ⟨ht, hother⟩
  | true => exact ⟨hother, ht⟩

theorem entries_ne_nil {t : PrefixTrie α} (h : t.Tight) (hne : t ≠ nil) : ∃ p, p ∈ t.entries := by
  induction t with
  | nil => exact absurd rfl hne
  | node c entry zero one ihz iho =>
    obtain ⟨hentry | ⟨hz, -⟩, htz, -⟩ := h
    · obtain ⟨e, rfl⟩ := Option.ne_none_iff_exists'.1 hentry
      exact ⟨(c, e), mem_entries_node.2 (.inl ⟨e, rfl, rfl⟩)⟩
    · obtain ⟨p, hp⟩ := ihz htz hz
      exact ⟨p, mem_entries_node.2 (.inr (.inl hp))⟩

theorem insert_ne_nil (b : Block) (e : α) (t : PrefixTrie α) : t.insert b e ≠ nil := by
  cases t with
  | nil => exact nofun
  | node c entry zero one =>
    rw [insert]
    unfold fork
    split
    · exact nofun
    · split
      · split <;> exact nofun
      · split <;> split <;> exact nofun

theorem tight_insert {b : Block} {e : α} {t : PrefixTrie α} (h : t.Tight) : (t.insert b e).Tight := by
  induction t with
  | nil => exact ⟨.inl nofun, trivial, trivial⟩
  | node c entry zero one ihz iho =>
    have hnil : ∀ {s : PrefixTrie α}, s ≠ nil → s.insert b e ≠ nil := fun _ => insert_ne_nil b e _
    rw [insert]
    split
    · exact ⟨.inl nofun, h.2⟩
    · split
      · split
        · exact ⟨h.1.imp_right fun hboth => ⟨hboth.1, hnil hboth.2⟩, h.2.1, iho h.2.2⟩
        · exact ⟨h.1.imp_right fun hboth => ⟨hnil hboth.1, hboth.2⟩, ihz h.2.1, h.2.2⟩
      · unfold fork
        split <;> split
        · exact ⟨.inl nofun, trivial, h⟩
        · exact ⟨.inl nofun, h, trivial⟩
        · exact ⟨.inr ⟨nofun, nofun⟩, ⟨.inl nofun, trivial, trivial⟩, h⟩
        · exact ⟨.inr ⟨nofun, nofun⟩, h, .inl nofun, trivial, trivial⟩

/-! ## The first node stays -/

theorem top_insert {b c : Block} {e : α} {t : PrefixTrie α} (htop : t.top = some c) (hin : b.Within c) :
    (t.insert b e).top = some c := by
  cases t with
  | nil => cases htop
  | node d entry zero one =>
    cases htop
    by_cases hne : b = c
    · rw [insert, if_pos hne]
      rfl
    · rw [insert_within hne hin, top_fork]

theorem tightBelow_insert {b c : Block} {e : α} {t : PrefixTrie α} (htop : t.top = some c)
    (hin : b.Within c) (h : t.TightBelow) : (t.insert b e).TightBelow := by
  cases t with
  | nil => cases htop
  | node d entry zero one =>
    cases htop
    by_cases hne : b = c
    · rw [insert, if_pos hne]
      exact h
    · rw [insert_within hne hin]
      exact tightBelow_fork (tight_insert (tight_half h _)) (tight_half h _)

end PrefixTrie

end Wig.Lib
