/-
The path-compressed trie of the `cidranger` library, as its insertion and its lookup compute it: nodes are told apart
by the texts of their networks, an insertion calls itself below the node, and a goroutine's stack is not endless. For
networks whose address has no host bits it refines the trie of blocks; for others it may call itself forever.
-/
import Wig.Cidranger.Network
import Wig.Lib.PrefixTrie

namespace Wig.Cidranger

open Wig.Lib Wig.Net
open Wig.Lib.PrefixTrie (half fork)

/-! ## The code -/

/-- A node with its two children; `nil` for a child that is not there. The entry is the network that was inserted. -/
inductive Trie where
  | nil
  | node (numBitsSkipped : Nat) (network : Network) (entry : Option IPNet) (zero one : Trie)

namespace Trie

/-- `targetBitPosition`: the bit by which a node chooses the child. -/
def targetBitPosition (numBitsSkipped : Nat) (network : Network) : Int :=
  32 * network.number.length - numBitsSkipped - 1

/-- `newPathprefixTrie`. -/
def newPathprefixTrie (network : Network) (numBitsSkipped : Nat) : Trie :=
  node numBitsSkipped (network.masked numBitsSkipped) none nil nil

/-- `newEntryTrie`. -/
def newEntryTrie (network : Network) (entry : IPNet) : Trie :=
  node (maskOnes network.ipnet.mask) (network.masked (maskOnes network.ipnet.mask)) (some entry) nil nil

/-- A node with one of its children replaced. -/
def appendTrie (bit : Bool) (child : Trie) : Trie → Trie
  | nil => nil
  | node skipped network entry zero one =>
    if bit then node skipped network entry zero child else node skipped network entry child one

/-- `targetBitFromIP`. -/
def targetBitFromIP (n : NetworkNumber) : Trie → Outcome RangerError Bool
  | nil => .crash
  | node skipped network _ _ _ => n.bit (targetBitPosition skipped network)

/-- The existing child goes under the path prefix, which has taken its place already. -/
def insertPrefix (pathPrefix child : Trie) (number : NetworkNumber) : Outcome RangerError Unit × Trie :=
  match targetBitFromIP number pathPrefix with
  | .ok bit => (.ok (), appendTrie bit child pathPrefix)
  | .err e => (.err e, pathPrefix)
  | .crash => (.crash, pathPrefix)
  | .block => (.block, pathPrefix)

/-- `insert`, with what is left of the stack: the answer says whether the trie has an entry more. -/
def insert : Nat → Network → IPNet → Trie → Outcome RangerError Bool × Trie
  | 0, _, _, p => (.crash, p)
  | _ + 1, _, _, nil => (.crash, nil)
  | stack + 1, network, entry, node skipped here e zero one =>
    let p := node skipped here e zero one
    if here.equal network then (.ok e.isNone, node skipped here (some entry) zero one)
    else
      match targetBitFromIP network.number p with
      | .err err => (.err err, p)
      | .crash => (.crash, p)
      | .block => (.block, p)
      | .ok bit =>
        match half bit zero one with
        | nil => (.ok true, appendTrie bit (newEntryTrie network entry) p)
        | node skipped' there e' zero' one' =>
          let existingChild := node skipped' there e' zero' one'
          -- the error is dropped, and zero taken in its place
          let lcb : Nat := match network.leastCommonBitPosition there with
            | .ok lcb => lcb
            | .error _ => 0
          if targetBitPosition skipped' there < (lcb : Int) - 1 then
            match insertPrefix (newPathprefixTrie network (32 * here.number.length - lcb))
              existingChild there.number with
            | (.err err, pathPrefix) => (.err err, appendTrie bit pathPrefix p)
            | (.crash, pathPrefix) => (.crash, appendTrie bit pathPrefix p)
            | (.block, pathPrefix) => (.block, appendTrie bit pathPrefix p)
            | (.ok (), pathPrefix) =>
              let r := insert stack network entry pathPrefix
              (r.1, appendTrie bit r.2 p)
          else
            let r := insert stack network entry existingChild
            (r.1, appendTrie bit r.2 p)

/-- `contains`. -/
def contains (number : NetworkNumber) : Trie → Outcome RangerError Bool
  | nil => .ok false
  | node skipped network entry zero one =>
    if network.contains number = false then .ok false
    else if entry.isSome then .ok true
    else if targetBitPosition skipped network < 0 then .ok false
    else
      match number.bit (targetBitPosition skipped network) with
      | .err e => .err e
      | .crash => .crash
      | .block => .block
      | .ok true => contains number one
      | .ok false => contains number zero

end Trie

/-! ## The trie of blocks -/

/-- A trie and the trie of blocks that it stands for. -/
inductive Sim (w : Nat) : Trie → PrefixTrie IPNet → Prop where
  | nil : Sim w .nil .nil
  | node {n : Network} {c : Block} {entry : Option IPNet} {zero one : Trie} {z o : PrefixTrie IPNet}
      (stands : Stands w n c) (hzero : Sim w zero z) (hone : Sim w one o) : Sim w
        (.node (32 * w - c.low) n entry zero one) (.node c entry z o)

theorem targetBitPosition_eq {w : Nat} {n : Network} {c : Block} (h : Stands w n c) :
    Trie.targetBitPosition (32 * w - c.low) n = (c.low : Int) - 1 := by
  have hlow := h.1
  unfold Trie.targetBitPosition
  rw [h.number.1]
  omega

theorem bit_words {w i : Nat} {ip bs : IP} (h : Family w ip bs) (hi : i < 32 * w) :
    (words bs).bit ((i + 1 : Nat) - 1 : Int) = .ok ((ofBytes bs).testBit i) := by
  rw [show ((i + 1 : Nat) - 1 : Int) =
    (i : Int) by omega, NetworkNumber.bit_eq (by rw [h.words_length]; exact hi), h.value_words]

/-- A lookup finds what it finds in the trie of blocks, and does not fail. -/
theorem contains_sim {w : Nat} {ip bs : IP} (hip : Family w ip bs) {p : Trie} {t : PrefixTrie IPNet} (h : Sim w p t) :
    p.contains (words bs) = .ok (t.contains (ofBytes bs)) := by
  induction h with
  | nil => rfl
  | @node n c entry zero one z o stands hzero hone ihz iho =>
    rw [Trie.contains, PrefixTrie.contains, targetBitPosition_eq stands]
    by_cases hc : c.Contains (ofBytes bs)
    · rw [if_neg (by rw [(stands.contains_iff hip).2 hc]; exact Bool.noConfusion), if_pos hc]
      cases entry with
      | some e => rfl
      | none =>
        rw [if_neg (by simp)]
        cases hlow : c.low with
        | zero => rfl
        | succ k =>
          have hk : k < 32 * w := by have := stands.1; omega
          rw [if_neg (by omega), bit_words hip hk]
          cases hbit : (ofBytes bs).testBit k with
          | true => simpa [hbit] using iho
          | false => simpa [hbit] using ihz
    · have hfalse : n.contains (words bs) = false := Bool.eq_false_iff.2 (mt (stands.contains_iff hip).1 hc)
      rw [if_pos hfalse, if_neg hc]

/-! ## One step of an insertion -/

section Step

variable {w l stack : Nat} {m : IPNet} {bs : IP} {here : Network} {c : Block} {e : Option IPNet} {zero one : Trie}

/-- The node is that of the network itself. -/
theorem insert_here (hm : Shaped w m bs l) (hhere : Stands w here c) (hlow : c.low = 32 * w - l)
    (hnumber : c.number = ofBytes bs) :
    Trie.insert (stack + 1) (newNetwork m) m (.node (32 * w - c.low) here e zero one) =
      (.ok e.isNone, .node (32 * w - c.low) here (some m) zero one) := by
  rw [Trie.insert, if_pos ((hhere.equal_iff hm).2 ⟨hlow, hnumber⟩)]

/-- Where an insertion into a node goes on, if the node is another one: at the child of a bit of the address. -/
structure Below (w : Nat) (m : IPNet) (bs : IP) (l k : Nat) (c : Block) : Prop where
  shaped : Shaped w m bs l
  low : c.low = k + 1
  other : ¬ (c.low = 32 * w - l ∧ c.number = ofBytes bs)

theorem insert_newEntry {k : Nat} (h : Below w m bs l k c) (hhere : Stands w here c)
    (hchild : half ((ofBytes bs).testBit k) zero one = .nil) :
    Trie.insert (stack + 1) (newNetwork m) m (.node (32 * w - c.low) here e zero one) =
      (.ok true, Trie.appendTrie ((ofBytes bs).testBit k) (Trie.newEntryTrie (newNetwork m) m)
        (.node (32 * w - c.low) here e zero one)) := by
  have hk : k < 32 * w := by have := hhere.1; have := h.low; omega
  rw [Trie.insert, if_neg (mt (hhere.equal_iff h.shaped).1 h.other), Trie.targetBitFromIP,
    targetBitPosition_eq hhere, h.low, h.shaped.number_eq, bit_words h.shaped.family hk]
  simp only [hchild]

/-- The smallest block around the network and that of the child. -/
def meet (w : Nat) (bs : IP) (l : Nat) (d : Block) : Nat := max (max (32 * w - l) d.low) (diverge (ofBytes bs) d.number)

variable {k : Nat} {there : Network} {d : Block} {e' : Option IPNet} {zero' one' : Trie}

theorem meet_le (h : Below w m bs l k c) (hhere : Stands w here c) (hthere : Stands w there d)
    (hagree : AgreeAbove k (ofBytes bs) d.number) : meet w bs l d ≤ 32 * w := by
  have hk := hhere.1
  have hd := hthere.1
  have hlow := h.low
  have hdiverge := agree_iff.1 hagree
  unfold meet
  omega

/-- The child is around the network. -/
theorem insert_descend (h : Below w m bs l k c) (hhere : Stands w here c) (hthere : Stands w there d)
    (hchild : half ((ofBytes bs).testBit k) zero one = .node (32 * w - d.low) there e' zero' one')
    (hagree : AgreeAbove k (ofBytes bs) d.number) (hmeet : meet w bs l d ≤ d.low) :
    Trie.insert (stack + 1) (newNetwork m) m (.node (32 * w - c.low) here e zero one) =
      ((Trie.insert stack (newNetwork m) m (.node (32 * w - d.low) there e' zero' one')).1,
        Trie.appendTrie ((ofBytes bs).testBit k)
          (Trie.insert stack (newNetwork m) m (.node (32 * w - d.low) there e' zero' one')).2
          (.node (32 * w - c.low) here e zero one)) := by
  have hk : k < 32 * w := by have := hhere.1; have := h.low; omega
  have hdiverge : diverge (ofBytes bs) d.number < 32 * w := (agree_iff.1 hagree).trans_lt hk
  rw [Trie.insert, if_neg (mt (hhere.equal_iff h.shaped).1 h.other), Trie.targetBitFromIP,
    targetBitPosition_eq hhere, h.low, h.shaped.number_eq, bit_words h.shaped.family hk]
  simp only [hchild, hthere.leastCommonBitPosition h.shaped hdiverge, targetBitPosition_eq hthere]
  rw [if_neg]
  have hmeet' : max (max (32 * w - l) d.low) (diverge (ofBytes bs) d.number) ≤ d.low := hmeet
  omega

/-- It is not, and a node for what is around both goes in between. -/
theorem insert_path (h : Below w m bs l k c) (hhere : Stands w here c) (hthere : Stands w there d)
    (hchild : half ((ofBytes bs).testBit k) zero one = .node (32 * w - d.low) there e' zero' one')
    (hagree : AgreeAbove k (ofBytes bs) d.number) (hmeet : d.low < meet w bs l d) :
    Trie.insert (stack + 1) (newNetwork m) m (.node (32 * w - c.low) here e zero one) =
      let pathPrefix :=
        Trie.appendTrie (d.number.testBit (meet w bs l d - 1)) (.node (32 * w - d.low) there e' zero' one')
        (Trie.newPathprefixTrie (newNetwork m) (32 * w - meet w bs l d))
      ((Trie.insert stack (newNetwork m) m pathPrefix).1,
        Trie.appendTrie ((ofBytes bs).testBit k) (Trie.insert stack (newNetwork m) m pathPrefix).2
          (.node (32 * w - c.low) here e zero one)) := by
  have hk : k < 32 * w := by have := hhere.1; have := h.low; omega
  have hdiverge : diverge (ofBytes bs) d.number < 32 * w := (agree_iff.1 hagree).trans_lt hk
  have hle := meet_le h hhere hthere hagree
  have hstands := h.shaped.masked (Nat.sub_le (32 * w) (meet w bs l d))
  -- the bit of the child at the new node
  have hbit : there.number.bit
    (Trie.targetBitPosition (32 * w - meet w bs l d) ((newNetwork m).masked (32 * w - meet w bs l d))) =
      .ok (d.number.testBit (meet w bs l d - 1)) := by
    have hpos := targetBitPosition_eq hstands
    rw [Block.around_low, Nat.sub_sub_self hle] at hpos
    obtain ⟨hlen, hvalue⟩ := hthere.number
    rw [hpos, show (meet w bs l d : Int) - 1 = ((meet w bs l d - 1 : Nat) : Int) by omega,
      NetworkNumber.bit_eq (by rw [hlen]; omega), hvalue]
  rw [Trie.insert, if_neg (mt (hhere.equal_iff h.shaped).1 h.other), Trie.targetBitFromIP,
    targetBitPosition_eq hhere, h.low, h.shaped.number_eq, bit_words h.shaped.family hk]
  simp only [hchild, hthere.leastCommonBitPosition h.shaped hdiverge, targetBitPosition_eq hthere]
  rw [if_pos, hhere.number.1]
  · show (match Trie.insertPrefix (Trie.newPathprefixTrie (newNetwork m) (32 * w - meet w bs l d)) _ _ with
      | (.err err, pathPrefix) => _
      | (.crash, pathPrefix) => _
      | (.block, pathPrefix) => _
      | (.ok (), pathPrefix) => _) = _
    unfold Trie.insertPrefix Trie.targetBitFromIP Trie.newPathprefixTrie
    simp only [hbit]
  · have hmeet' : d.low < max (max (32 * w - l) d.low) (diverge (ofBytes bs) d.number) := hmeet
    omega

end Step

/-! ## Networks without host bits -/

theorem Sim.half {w : Nat} {zero one : Trie} {z o : PrefixTrie IPNet} (hzero : Sim w zero z)
    (hone : Sim w one o) (bit : Bool) : Sim w (half bit zero one) (half bit z o) := by
  cases bit with
  | false => exact hzero
  | true => exact hone

theorem Sim.append {w : Nat} {n : Network} {c : Block} {e : Option IPNet} {zero one q : Trie}
    {z o q' : PrefixTrie IPNet} (hn : Stands w n c) (hzero : Sim w zero z) (hone : Sim w one o)
    (hq : Sim w q q') (bit : Bool) :
    Sim w (Trie.appendTrie bit q (.node (32 * w - c.low) n e zero one))
    (fork c e bit q' (PrefixTrie.half (!bit) z o)) := by
  cases bit with
  | false => exact .node hn hq hone
  | true => exact .node hn hzero hq

/-- A network and the block it is inserted as. -/
structure Placed (w : Nat) (m : IPNet) (bs : IP) (l : Nat) (b : Block) : Prop where
  shaped : Shaped w m bs l
  block : b = Block.around (32 * w - l) (ofBytes bs)

/-- Where an insertion goes on below a node: a trie with the entries of the child, around the block again. -/
structure Descent (w : Nat) (b c : Block) (t : PrefixTrie IPNet) (m : IPNet) (q : Trie) (s : PrefixTrie IPNet)
    (d : Block) : Prop where
  child : t ≠ .nil
  sim : Sim w q s
  wf : s.WF
  tight : s.TightBelow
  top : s.top = some d
  within : b.Within d
  lt : b ≠ c → d.low < c.low
  insert_eq : s.insert b m = t.insert b m
  entries : ∀ p, p ∈ s.entries ↔ p ∈ t.entries

namespace Placed

variable {w l : Nat} {m : IPNet} {bs : IP} {b c : Block}

theorem low (h : Placed w m bs l b) : b.low = 32 * w - l := by rw [h.block, Block.around_low]

theorem agree (h : Placed w m bs l b) : AgreeAbove b.low b.number (ofBytes bs) := by
  rw [h.block]
  exact Block.agree_around _ _

theorem newEntry (h : Placed w m bs l b) : Sim w (Trie.newEntryTrie (newNetwork m) m) (.leaf b m) := by
  have hstands := h.shaped.masked h.shaped.bits
  rw [← h.block] at hstands
  have hl : 32 * w - b.low = l := by have := h.shaped.bits; have := h.low; omega
  have hnode : Sim w (.node (32 * w - b.low) ((newNetwork m).masked l) (some m) .nil .nil) (.leaf b m) :=
    .node hstands .nil .nil
  rw [hl] at hnode
  unfold Trie.newEntryTrie
  rwa [show (newNetwork m).ipnet.mask = m.mask from rfl, h.shaped.ones]

theorem join_eq (h : Placed w m bs l b) (d : Block) : b.join d = Block.around (meet w bs l d) (ofBytes bs) := by
  rw [h.block, Block.join_around]
  rfl

/-- One step below a node that is not the network's own: an entry is made, or the insertion goes on. -/
theorem insert_step (h : Placed w m bs l b) {n : Network} {e : Option IPNet} {zero one : Trie} {z o : PrefixTrie IPNet}
    (hbelow : Below w m bs l (c.low - 1) c) (hin : b.Within c) (hn : Stands w n c)
    (hzero : Sim w zero z) (hone : Sim w one o) (hwf : (PrefixTrie.node c e z o).WF)
    (htight : (PrefixTrie.node c e z o).TightBelow) :
    half ((ofBytes bs).testBit (c.low - 1)) z o = .nil ∧
      (∀ stack, Trie.insert (stack + 1) (newNetwork m) m (.node (32 * w - c.low) n e zero one) =
        (.ok true, Trie.appendTrie ((ofBytes bs).testBit (c.low - 1)) (Trie.newEntryTrie (newNetwork m) m)
          (.node (32 * w - c.low) n e zero one))) ∨
    ∃ q s d, Descent w b c (half ((ofBytes bs).testBit (c.low - 1)) z o) m q s d ∧
      ∀ stack, Trie.insert (stack + 1) (newNetwork m) m (.node (32 * w - c.low) n e zero one) =
        ((Trie.insert stack (newNetwork m) m q).1, Trie.appendTrie ((ofBytes bs).testBit (c.low - 1))
          (Trie.insert stack (newNetwork m) m q).2 (.node (32 * w - c.low) n e zero one)) := by
  have hpos : 0 < c.low := by have := hbelow.low; omega
  obtain ⟨hwh, htop⟩ := PrefixTrie.wf_half hwf ((ofBytes bs).testBit (c.low - 1))
  have hth : (half ((ofBytes bs).testBit (c.low - 1)) z o).Tight := PrefixTrie.tight_half htight _
  have hsim := Sim.half hzero hone ((ofBytes bs).testBit (c.low - 1))
  generalize hchild : half ((ofBytes bs).testBit (c.low - 1)) zero one = child at hsim
  generalize half ((ofBytes bs).testBit (c.low - 1)) z o = t at hsim hwh htop hth ⊢
  cases hsim with
  | nil => exact .inl ⟨rfl, fun stack => insert_newEntry hbelow hn hchild⟩
  | @node there d e' zero' one' z' o' hthere hz' ho' =>
    right
    have hd := htop d rfl
    have hx : AgreeAbove c.low (ofBytes bs) c.number := (h.agree.symm.mono hin.1).trans hin.2
    have hagree : AgreeAbove (c.low - 1) (ofBytes bs) d.number := by
      rw [agree_succ, Nat.sub_add_cancel hpos]
      exact ⟨hx.trans hd.agree.symm, hd.bit_eq.symm⟩
    have hlow : (b.join d).low = meet w bs l d := by rw [h.join_eq, Block.around_low]
    by_cases hwd : b.Within d
    · refine ⟨_, _, d, ⟨nofun, .node hthere hz' ho', hwh, hth.below, rfl, hwd, fun _ => hd.lt, rfl, fun _ => .rfl⟩,
        fun stack => ?_⟩
      exact insert_descend hbelow hn hthere hchild hagree (by rw [← hlow, Block.join_eq_right hwd])
    · have hmeet : d.low < meet w bs l d := hlow ▸ Block.low_lt_join hwd
      have hle := meet_le hbelow hn hthere hagree
      have hstands := h.shaped.masked (Nat.sub_le (32 * w) (meet w bs l d))
      rw [Nat.sub_sub_self hle, ← h.join_eq] at hstands
      have hpath : Sim w
        (Trie.appendTrie (d.number.testBit ((b.join d).low - 1)) (.node (32 * w - d.low) there e' zero' one')
          (Trie.newPathprefixTrie (newNetwork m) (32 * w - (b.join d).low)))
          (fork (b.join d) none (d.number.testBit ((b.join d).low - 1)) (.node d e' z' o') .nil) := by
        have hold : Sim w (.node (32 * w - d.low) there e' zero' one') (.node d e' z' o') := .node hthere hz' ho'
        have happend := Sim.append (e := none) hstands .nil .nil hold (d.number.testBit ((b.join d).low - 1))
        rw [PrefixTrie.half_self, ← hlow] at happend
        exact happend
      have hdj : d ≠ b.join d := fun heq => hwd (heq ▸ Block.within_join_left b d)
      refine ⟨_, _, b.join d, ⟨nofun, hpath, ?_, PrefixTrie.tightBelow_fork hth trivial, PrefixTrie.top_fork _ _ _ _ _,
        Block.within_join_left b d, fun hne => ?_, PrefixTrie.insert_fork_join hwd, fun p => ?_⟩, fun stack => ?_⟩
      · refine PrefixTrie.wf_fork hwh trivial ?_ nofun
        rintro a ⟨⟩
        exact .of_ne (Block.within_join_right b d) hdj
      · have hb := PrefixTrie.InHalf.of_ne hin hne
        rw [h.agree.testBit (Nat.le_sub_one_of_lt hb.lt)] at hb
        exact (hb.join hd).lt
      · rw [PrefixTrie.mem_entries_fork]
        simp [PrefixTrie.entries]
      · rw [hlow]
        exact insert_path hbelow hn hthere hchild hagree hmeet

/-- A node around the network that is another one. -/
theorem below (h : Placed w m bs l b) (hin : b.Within c) (hne : b ≠ c) : Below w m bs l (c.low - 1) c := by
  have hlt := (PrefixTrie.InHalf.of_ne hin hne).lt
  refine ⟨h.shaped, by omega, ?_⟩
  rintro ⟨hlow, hnumber⟩
  refine hne (Block.eq_of_agree (h.low.trans hlow.symm) ?_)
  rw [hnumber]
  exact h.agree

/-- Without host bits an insertion returns, and does to the trie of blocks what its insertion does, if the stack is as
deep as there are bits left to tell blocks apart. -/
theorem insert_sim (h : Placed w m bs l b) (hnumber : b.number = ofBytes bs) {stack : Nat} :
    ∀ {p : Trie} {t : PrefixTrie IPNet} {c : Block}, Sim w p t → t.WF → t.TightBelow → t.top = some c →
      b.Within c → c.low - b.low < stack →
    ∃ grew p', Trie.insert stack (newNetwork m) m p = (.ok grew, p') ∧ Sim w p' (t.insert b m) := by
  induction stack with
  | zero =>
    intro p t c hsim hwf htight htop hin hstack
    omega
  | succ stack ih =>
    intro p t c hsim hwf htight htop hin hstack
    cases hsim with
    | nil => cases htop
    | @node n _ e zero one z o hn hzero hone =>
      cases htop
      by_cases hne : b = c
      · refine ⟨_, _, insert_here h.shaped hn (hne ▸ h.low) (hne ▸ hnumber), ?_⟩
        rw [PrefixTrie.insert, if_pos hne]
        exact .node hn hzero hone
      rw [PrefixTrie.insert_within hne hin, hnumber]
      rcases h.insert_step (h.below hin hne) hin hn hzero hone hwf htight with ⟨hnil, hrun⟩ | ⟨q, s, d, hdescent, hrun⟩
      · refine ⟨_, _, hrun stack, ?_⟩
        rw [hnil]
        exact .append hn hzero hone h.newEntry _
      · have hlt := hdescent.lt hne
        have hle := hdescent.within.1
        obtain ⟨grew, p', hq, hsim⟩ :=
          ih hdescent.sim hdescent.wf hdescent.tight hdescent.top hdescent.within (by omega)
        rw [hdescent.insert_eq] at hsim
        rw [hrun stack, hq]
        exact ⟨_, _, rfl, .append hn hzero hone hsim _⟩

/-! ## Host bits -/

/-- The node of a network with host bits is never found. -/
theorem below_of_hostBits (h : Placed w m bs l b) (hhost : b.number ≠ ofBytes bs) (hin : b.Within c) :
    Below w m bs l (c.low - 1) c := by
  by_cases hne : b = c
  · subst hne
    refine ⟨h.shaped, ?_, fun hc => hhost hc.2⟩
    have hlow : b.low ≠ 0 := fun hzero => by
      have hagree := h.agree
      rw [hzero, AgreeAbove, Nat.pow_zero, Nat.div_one, Nat.div_one] at hagree
      exact hhost hagree
    omega
  · exact h.below hin hne

/-- What is inserted already in the half of the network that has its own address. -/
def Blocked (bs : IP) (b : Block) (t : PrefixTrie IPNet) : Prop :=
  ∃ p ∈ t.entries, PrefixTrie.InHalf b ((ofBytes bs).testBit (b.low - 1)) p.1

/-- It is below the child to which an insertion goes. -/
theorem inHalf_of_blocked (h : Placed w m bs l b) (hin : b.Within c) {a : Block}
    (ha : PrefixTrie.InHalf b ((ofBytes bs).testBit (b.low - 1)) a) :
    PrefixTrie.InHalf c ((ofBytes bs).testBit (c.low - 1)) a := by
  by_cases hne : b = c
  · exact hne ▸ ha
  · have hb := PrefixTrie.InHalf.of_ne hin hne
    rw [h.agree.testBit (Nat.le_sub_one_of_lt hb.lt)] at hb
    exact hb.of_within ha.within

/-- And then the insertion of a network with host bits never returns: at the network's own node it puts another such
node between the node and the child, and goes on there. -/
theorem insert_overflows (h : Placed w m bs l b) (hhost : b.number ≠ ofBytes bs) :
    ∀ (stack : Nat) {p : Trie} {t : PrefixTrie IPNet} {c : Block},
    Sim w p t → t.WF → t.TightBelow → t.top = some c → b.Within c → Blocked bs b t →
      (Trie.insert stack (newNetwork m) m p).1 = .crash := by
  intro stack
  induction stack with
  | zero =>
    intro p t c hsim hwf htight htop hin hblocked
    rfl
  | succ stack ih =>
    intro p t c hsim hwf htight htop hin hblocked
    cases hsim with
    | nil => cases htop
    | @node n _ e zero one z o hn hzero hone =>
      cases htop
      obtain ⟨⟨a, v⟩, hmem, ha⟩ := hblocked
      have hchild := PrefixTrie.mem_half_of_inHalf hwf hmem (h.inHalf_of_blocked hin ha)
      rcases h.insert_step (h.below_of_hostBits hhost hin) hin hn hzero hone hwf htight with ⟨hnil,
        -⟩ | ⟨q, s, d, hdescent, hrun⟩
      · rw [hnil] at hchild
        cases hchild
      · rw [hrun stack]
        exact ih hdescent.sim hdescent.wf hdescent.tight hdescent.top hdescent.within ⟨(a, v),
          (hdescent.entries _).2 hchild, ha⟩

/-- Otherwise it returns. -/
theorem insert_returns (h : Placed w m bs l b) (hhost : b.number ≠ ofBytes bs) {stack : Nat} :
    ∀ {p : Trie} {t : PrefixTrie IPNet} {c : Block}, Sim w p t → t.WF → t.TightBelow → t.top = some c → b.Within c →
      c.low - b.low < stack → ¬ Blocked bs b t →
    (Trie.insert stack (newNetwork m) m p).1 = .ok true := by
  induction stack with
  | zero =>
    intro p t c hsim hwf htight htop hin hstack hfree
    omega
  | succ stack ih =>
    intro p t c hsim hwf htight htop hin hstack hfree
    cases hsim with
    | nil => cases htop
    | @node n _ e zero one z o hn hzero hone =>
      cases htop
      rcases h.insert_step (h.below_of_hostBits hhost hin) hin hn hzero hone hwf htight with ⟨-,
        hrun⟩ | ⟨q, s, d, hdescent, hrun⟩
      · rw [hrun stack]
      have hsub : ∀ p ∈ s.entries, p ∈ (PrefixTrie.node c e z o).entries := fun p hp =>
        PrefixTrie.mem_of_half ((hdescent.entries p).1 hp)
      by_cases hne : b = c
      · -- the child is there, so something below it is
        subst hne
        obtain ⟨p, hp⟩ := PrefixTrie.entries_ne_nil (PrefixTrie.tight_half htight _) hdescent.child
        obtain ⟨hwh, hhalf⟩ := PrefixTrie.wf_half hwf ((ofBytes bs).testBit (b.low - 1))
        exact absurd ⟨p, PrefixTrie.mem_of_half hp, PrefixTrie.inHalf_of_mem hwh hhalf hp⟩ hfree
      · have hlt := hdescent.lt hne
        have hle := hdescent.within.1
        rw [hrun stack]
        refine ih hdescent.sim hdescent.wf hdescent.tight hdescent.top hdescent.within (by omega) ?_
        rintro ⟨p, hp, ha⟩
        exact hfree ⟨p, hsub p hp, ha⟩

end Placed

end Wig.Cidranger
