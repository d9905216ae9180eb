/-
The ranger of the `cidranger` library: a trie for IPv4 networks and one for the others. With networks that have no
host bits it answers as the networks themselves do, in whatever order they were inserted.
-/
import Wig.Cidranger.Trie
import Wig.Net.Range

namespace Wig.Cidranger

open Wig.Lib Wig.Net

/-! ## The code -/

/-- `versionedRanger`. -/
structure Ranger where
  ipV4Ranger : Trie
  ipV6Ranger : Trie

/-- `newPrefixTree`, of the network of all addresses. -/
def newPrefixTree (rootNet : IPNet) : Trie := .node 0 (newNetwork rootNet) none .nil .nil

def newPCTrieRanger : Ranger :=
  ⟨newPrefixTree ⟨[0, 0, 0, 0], cidrMask 0 32⟩, newPrefixTree ⟨List.replicate 16 0, cidrMask 0 128⟩⟩

namespace Ranger

/-- `Insert` of a trie: an error, or nothing. -/
def insertTrie (stack : Nat) (n : IPNet) : Proc Trie RangerError Unit := do
  let _ ← (Trie.insert stack (newNetwork n) n : Proc Trie RangerError Bool)

/-- `Insert`. -/
def insert (stack : Nat) (n : IPNet) : Proc Ranger RangerError Unit :=
  if n.ip.to4.isSome then Proc.zoom ipV4Ranger (fun t v => { v with ipV4Ranger := t }) (insertTrie stack n)
  else if n.ip.length = 16 then Proc.zoom ipV6Ranger (fun t v => { v with ipV6Ranger := t }) (insertTrie stack n)
  else Proc.fail .invalidNetworkNumberInput

/-- `Contains` of a trie. -/
def containsTrie (ip : IP) (t : Trie) : Outcome RangerError Bool :=
  if newNetworkNumber ip = [] then .err .invalidNetworkNumberInput else t.contains (newNetworkNumber ip)

/-- `Contains`. -/
def contains (ip : IP) (v : Ranger) : Outcome RangerError Bool :=
  if ip.to4.isSome then containsTrie ip v.ipV4Ranger
  else if ip.length = 16 then containsTrie ip v.ipV6Ranger
  else .err .invalidNetworkNumberInput

/-- Networks one after another. -/
def insertAll (stack : Nat) (nets : List IPNet) : Proc Ranger RangerError Unit := Proc.forEach (insert stack) nets

end Ranger

/-! ## Networks as sets of addresses -/

theorem Family.short {w : Nat} {ip bs : IP} (h : Family w ip bs) : ip.short = bs := by
  unfold IP.short
  cases h with
  | v4 form => rw [form, Option.getD_some]
  | v6 form length => rw [form, Option.getD_none]

theorem Family.unique {w w' : Nat} {ip bs bs' : IP} (h : Family w ip bs) (h' : Family w' ip bs') :
    w = w' ∧ bs = bs' := by
  cases h with
  | v4 form =>
    cases h' with
    | v4 form' => exact ⟨rfl, Option.some.inj (form.symm.trans form')⟩
    | v6 form' length' => cases form.symm.trans form'
  | v6 form length =>
    cases h' with
    | v4 form' => cases form.symm.trans form'
    | v6 form' length' => exact ⟨rfl, rfl⟩

theorem Family.exists {ip : IP} (h : ip.length = 4 ∨ ip.length = 16) : ∃ w bs, Family w ip bs := by
  cases hto4 : ip.to4 with
  | some bs => exact ⟨1, bs, .v4 hto4⟩
  | none =>
    rcases h with h | h
    · rw [to4_self h] at hto4
      cases hto4
    · exact ⟨4, ip, .v6 hto4 h⟩

theorem Shaped.networkNumberAndMask {w l : Nat} {n : IPNet} {bs : IP} (h : Shaped w n bs l) :
    networkNumberAndMask n = some (bs, maskBytes (4 * w) l) := by
  obtain ⟨ip, mask⟩ := n
  obtain ⟨family, bits, rfl⟩ := h
  unfold Net.networkNumberAndMask
  cases family with
  | v4 form => simp [form]
  | v6 form length => simp [form, length]

/-- `IPNet.Contains`, for a network with a mask of its own family. -/
theorem Shaped.contains_iff {w w' l : Nat} {n : IPNet} {bs ip cs : IP} (h : Shaped w n bs l) (hip : Family w' ip cs) :
    n.contains ip = true ↔ w = w' ∧ AgreeAbove (32 * w - l) (ofBytes cs) (ofBytes bs) := by
  have hbs := h.family.length
  have hcs := hip.length
  have hbits := h.bits
  have hlen : (maskBytes (4 * w) l).length = 4 * w := maskBytes_length _ _
  unfold IPNet.contains
  rw [h.networkNumberAndMask]
  simp only [hip.short, agrees_iff (hbs.trans hlen.symm), hcs, hlen]
  rw [show 4 * w' = 4 * w ↔ w = w' by omega]
  refine and_congr_right fun hw => ?_
  subst hw
  have hb := ofBytes_and_mask bs (l := l) (by omega)
  have hc := ofBytes_and_mask cs (l := l) (by omega)
  rw [hbs, show 8 * (4 * w) = 32 * w by ring] at hb
  rw [hcs, show 8 * (4 * w) = 32 * w by ring] at hc
  constructor
  · intro heq
    have hval := congrArg ofBytes heq
    rw [hb, hc] at hval
    exact Nat.mul_right_cancel (Nat.two_pow_pos _) hval.symm
  · intro heq
    refine ofBytes_inj (by simp [hbs, hcs]) ?_
    rw [hb, hc, show ofBytes cs / 2 ^ (32 * w - l) = ofBytes bs / 2 ^ (32 * w - l) from heq]

/-! ## What a trie holds -/

/-- The block of all addresses. -/
def root (w : Nat) : Block := ⟨32 * w, 0, dvd_zero _⟩

/-- A trie has the networks of one family out of a list. -/
structure Holds (w : Nat) (nets : List IPNet) (p : Trie) (t : PrefixTrie IPNet) : Prop where
  sim : Sim w p t
  wf : t.WF
  tight : t.TightBelow
  top : t.top = some (root w)
  entries : ∀ b, (∃ v, (b, v) ∈ t.entries) ↔ ∃ n ∈ nets, ∃ bs l, Placed w n bs l b

theorem Shaped.unique {w w' l l' : Nat} {n : IPNet} {bs bs' : IP} (h : Shaped w n bs l) (h' : Shaped w' n bs' l') :
    w = w' ∧ bs = bs' ∧ l = l' := by
  obtain ⟨hw, hbs⟩ := h.family.unique h'.family
  exact ⟨hw, hbs, h.ones.symm.trans h'.ones⟩

namespace Placed

variable {w w' l l' : Nat} {n : IPNet} {bs bs' : IP} {b b' : Block}

theorem unique (h : Placed w n bs l b) (h' : Placed w n bs' l' b') : b = b' := by
  obtain ⟨-, rfl, rfl⟩ := h.shaped.unique h'.shaped
  rw [h.block, h'.block]

theorem within_root (h : Placed w n bs l b) : b.Within (root w) := by
  refine ⟨by rw [h.low]; exact Nat.sub_le _ _, ?_⟩
  have hle : b.low ≤ 32 * w := by rw [h.low]; exact Nat.sub_le _ _
  refine (h.agree.mono hle).trans ?_
  show ofBytes bs / 2 ^ (32 * w) = 0 / 2 ^ (32 * w)
  rw [Nat.div_eq_of_lt h.shaped.family.lt, Nat.zero_div]

end Placed

namespace Holds

variable {w l stack : Nat} {nets : List IPNet} {p : Trie} {t : PrefixTrie IPNet} {n : IPNet} {bs : IP} {b : Block}

/-- One more network without host bits. -/
theorem insert (h : Holds w nets p t) (hn : Placed w n bs l b) (hnumber : b.number = ofBytes bs)
    (hstack : 32 * w < stack) :
    ∃ grew p', Trie.insert stack (newNetwork n) n p = (.ok grew, p') ∧ Holds w (n :: nets) p' (t.insert b n) := by
  have hin := hn.within_root
  obtain ⟨grew, p', hrun, hsim⟩ := hn.insert_sim hnumber h.sim h.wf h.tight h.top hin
    (lt_of_le_of_lt (Nat.sub_le _ _) hstack)
  refine ⟨grew, p', hrun, hsim, PrefixTrie.insert_wf h.wf, PrefixTrie.tightBelow_insert h.top hin h.tight,
    PrefixTrie.top_insert h.top hin, fun b' => ?_⟩
  simp only [PrefixTrie.mem_entries_insert h.wf, List.mem_cons, exists_or, exists_and_right, h.entries, or_and_right]
  constructor
  · rintro (⟨v, heq⟩ | ⟨hold, -⟩)
    · cases heq
      exact .inl ⟨n, rfl, bs, l, hn⟩
    · exact .inr hold
  · rintro (⟨_, rfl, bs', l', hn'⟩ | hold)
    · exact .inl ⟨_, by rw [hn'.unique hn]⟩
    · by_cases heq : b' = b
      · exact .inl ⟨n, by rw [heq]⟩
      · exact .inr ⟨hold, heq⟩

/-- One of the other family. -/
theorem skip (h : Holds w nets p t) (hn : ∀ bs l b, ¬ Placed w n bs l b) : Holds w (n :: nets) p t := by
  refine ⟨h.sim, h.wf, h.tight, h.top, fun b => ?_⟩
  simp only [h.entries, List.mem_cons, exists_eq_or_imp, hn, exists_false, false_or]

theorem contains_iff (h : Holds w nets p t) {ip cs : IP} (hip : Family w ip cs) :
    ∃ found, p.contains (words cs) = .ok found ∧
      (found = true ↔ ∃ n ∈ nets, ∃ bs l b, Placed w n bs l b ∧ b.Contains (ofBytes cs)) := by
  refine ⟨_, contains_sim hip h.sim, ?_⟩
  rw [PrefixTrie.contains_iff h.wf]
  constructor
  · rintro ⟨⟨b, v⟩, hmem, hb⟩
    obtain ⟨n, hn, bs, l, hplaced⟩ := (h.entries b).1 ⟨v, hmem⟩
    exact ⟨n, hn, bs, l, b, hplaced, hb⟩
  · rintro ⟨n, hn, bs, l, b, hplaced, hb⟩
    obtain ⟨v, hmem⟩ := (h.entries b).2 ⟨n, hn, bs, l, hplaced⟩
    exact ⟨(b, v), hmem, hb⟩

end Holds

/-! ## What a ranger answers -/

/-- A network that a peer may have: its address has no host bits, and its mask is of the address's family. -/
def Canonical (n : IPNet) : Prop := ∃ w bs l, Shaped w n bs l ∧ 2 ^ (32 * w - l) ∣ ofBytes bs

/-- Both tries. -/
def Ranger.Has (nets : List IPNet) (v : Ranger) : Prop :=
  (∃ t, Holds 1 nets v.ipV4Ranger t) ∧ ∃ t, Holds 4 nets v.ipV6Ranger t

theorem holds_newPrefixTree {w : Nat} {rootNet : IPNet} (h : Stands w (newNetwork rootNet) (root w)) :
    Holds w [] (newPrefixTree rootNet) (.node (root w) none .nil .nil) := by
  have hnode : Sim w (.node (32 * w - (root w).low) (newNetwork rootNet) none .nil .nil)
      (.node (root w) none .nil .nil) :=
    .node h .nil .nil
  rw [show 32 * w - (root w).low = 0 from Nat.sub_self _] at hnode
  exact ⟨hnode, ⟨nofun, nofun, trivial, trivial⟩, ⟨trivial, trivial⟩, rfl, fun b => by simp [PrefixTrie.entries]⟩

theorem has_newPCTrieRanger : Ranger.Has [] newPCTrieRanger := by
  have h4 : Stands 1 (newNetwork ⟨[0, 0, 0, 0], cidrMask 0 32⟩) (root 1) :=
    ⟨le_rfl, _, [0, 0, 0, 0], rfl, ⟨.v4 (by decide), by decide, by decide⟩, by decide⟩
  have h6 : Stands 4 (newNetwork ⟨List.replicate 16 0, cidrMask 0 128⟩) (root 4) :=
    ⟨le_rfl, _, List.replicate 16 0, rfl, ⟨.v6 (by decide) (by decide), by decide, by decide⟩, by decide⟩
  exact ⟨⟨_, holds_newPrefixTree h4⟩, _, holds_newPrefixTree h6⟩

theorem Canonical.placed {n : IPNet} (h : Canonical n) :
    ∃ w bs l, Shaped w n bs l ∧ ∃ b, Placed w n bs l b ∧ b.number = ofBytes bs := by
  obtain ⟨w, bs, l, hshape, hdvd⟩ := h
  exact ⟨w, bs, l, hshape, _, ⟨hshape, rfl⟩, Nat.div_mul_cancel hdvd⟩

/-- Where a network of a family goes. -/
theorem Ranger.insert_family {w : Nat} {n : IPNet} {bs : IP} (h : Family w n.ip bs) (stack : Nat) (v : Ranger) :
    w = 1 ∧ Ranger.insert stack n v = ((Ranger.insertTrie stack n v.ipV4Ranger).1,
      ⟨(Ranger.insertTrie stack n v.ipV4Ranger).2, v.ipV6Ranger⟩) ∨
    w = 4 ∧ Ranger.insert stack n v = ((Ranger.insertTrie stack n v.ipV6Ranger).1,
      ⟨v.ipV4Ranger, (Ranger.insertTrie stack n v.ipV6Ranger).2⟩) := by
  unfold Ranger.insert
  generalize n.ip = ip at h
  cases h with
  | v4 form => exact .inl ⟨rfl, by rw [form, if_pos Option.isSome_some]; rfl⟩
  | v6 form length => exact .inr ⟨rfl, by rw [form, if_neg (by simp), if_pos length]; rfl⟩

/-- A network without host bits is inserted. -/
theorem Ranger.Has.insert {nets : List IPNet} {v : Ranger} (h : v.Has nets) {n : IPNet} (hn : Canonical n) {stack : Nat}
    (hstack : 128 < stack) : ∃ v', Ranger.insert stack n v = (.ok (), v') ∧ v'.Has (n :: nets) := by
  obtain ⟨⟨t4, h4⟩, t6, h6⟩ := h
  obtain ⟨w, bs, l, hshape, b, hplaced, hnumber⟩ := hn.placed
  have hother : ∀ w', w ≠ w' → ∀ bs l b, ¬ Placed w' n bs l b :=
    fun w' hne bs' l' b' h' => hne (hshape.unique h'.shaped).1
  rcases Ranger.insert_family hshape.family stack v with ⟨rfl, hrun⟩ | ⟨rfl, hrun⟩
  · obtain ⟨grew, p', hins, hholds⟩ := h4.insert hplaced hnumber (show 32 * 1 < stack by omega)
    have htrie : insertTrie stack n v.ipV4Ranger = (.ok (), p') := by
      unfold insertTrie
      rw [Proc.bind_of_ok hins]
      rfl
    rw [hrun, htrie]
    exact ⟨_, rfl, ⟨_, hholds⟩, _, h6.skip (hother 4 (by decide))⟩
  · obtain ⟨grew, p', hins, hholds⟩ := h6.insert hplaced hnumber (show 32 * 4 < stack by omega)
    have htrie : insertTrie stack n v.ipV6Ranger = (.ok (), p') := by
      unfold insertTrie
      rw [Proc.bind_of_ok hins]
      rfl
    rw [hrun, htrie]
    exact ⟨_, rfl, ⟨_, h4.skip (hother 1 (by decide))⟩, _, hholds⟩

/-- A ranger with such networks answers as they do. -/
theorem Ranger.Has.contains {nets : List IPNet} {v : Ranger} (h : v.Has nets)
    (hnets : ∀ n ∈ nets, Canonical n) {ip : IP} (hip : ip.length = 4 ∨ ip.length = 16) :
    v.contains ip = .ok (nets.any (·.contains ip)) := by
  obtain ⟨⟨t4, h4⟩, t6, h6⟩ := h
  obtain ⟨w, cs, hfamily⟩ := Family.exists hip
  have hany : ∀ w, Family w ip cs → (nets.any (·.contains ip) = true ↔ ∃ n ∈ nets, ∃ bs l b, Placed w n bs l b ∧
    b.Contains (ofBytes cs)) := by
    intro w hfamily
    rw [List.any_eq_true]
    refine exists_congr fun n => and_congr_right fun hn => ?_
    obtain ⟨w', bs, l, hshape, b, hplaced, hnumber⟩ := (hnets n hn).placed
    rw [hshape.contains_iff hfamily]
    constructor
    · rintro ⟨rfl, hagree⟩
      refine ⟨bs, l, b, hplaced, ?_⟩
      show AgreeAbove b.low _ _
      rwa [hplaced.low, hnumber]
    · rintro ⟨bs', l', b', hplaced', hcontains⟩
      obtain ⟨rfl, rfl, rfl⟩ := hshape.unique hplaced'.shaped
      obtain rfl := hplaced.unique hplaced'
      refine ⟨rfl, ?_⟩
      rw [← hplaced.low, ← hnumber]
      exact hcontains
  have hnumber := hfamily.number
  have hne : words cs ≠ [] := fun hnil => by
    have hlen := hfamily.words_length
    rw [hnil] at hlen
    cases hfamily <;> cases hlen
  unfold Ranger.contains Ranger.containsTrie
  rw [hnumber, if_neg hne, if_neg hne]
  cases hfamily with
  | v4 form =>
    obtain ⟨found, hfound, hiff⟩ := h4.contains_iff (.v4 form)
    rw [form, if_pos Option.isSome_some, hfound, Bool.eq_iff_iff.2 (hiff.trans (hany 1 (.v4 form)).symm)]
  | v6 form length =>
    obtain ⟨found, hfound, hiff⟩ := h6.contains_iff (.v6 form length)
    rw [form, if_neg (by simp), if_pos length, hfound, Bool.eq_iff_iff.2 (hiff.trans (hany 4 (.v6 form length)).symm)]

theorem Ranger.Has.insertAll {stack : Nat} (hstack : 128 < stack) :
    ∀ {nets new : List IPNet} {v : Ranger}, v.Has nets → (∀ n ∈ new, Canonical n) →
    ∃ v', Ranger.insertAll stack new v = (.ok (), v') ∧ v'.Has (new.reverse ++ nets)
  | nets, [], v, h, _ => ⟨v, rfl, h⟩
  | nets, n :: new, v, h, hnew => by
    obtain ⟨v', hrun, hhas⟩ := h.insert (hnew n (List.mem_cons_self ..)) hstack
    obtain ⟨v'', hrest, hhas'⟩ := Ranger.Has.insertAll hstack hhas fun m hm => hnew m (List.mem_cons_of_mem _ hm)
    refine ⟨v'', ?_, ?_⟩
    · unfold Ranger.insertAll
      rw [Proc.forEach, Proc.bind_of_ok hrun]
      exact hrest
    · rwa [List.reverse_cons, List.append_assoc, List.singleton_append]

/-- However many networks without host bits are inserted, in whatever order, every insertion returns, and a lookup then
says whether one of them contains the address. -/
theorem insertAll_contains {nets : List IPNet} (hnets : ∀ n ∈ nets, Canonical n) {stack : Nat} (hstack : 128 < stack) :
    ∃ v, Ranger.insertAll stack nets newPCTrieRanger = (.ok (), v) ∧
      ∀ ip : IP, ip.length = 4 ∨ ip.length = 16 → v.contains ip = .ok (nets.any (·.contains ip)) := by
  obtain ⟨v, hrun, hhas⟩ := has_newPCTrieRanger.insertAll hstack hnets
  refine ⟨v, hrun, fun ip hip => ?_⟩
  rw [hhas.contains (by simpa using hnets) hip, List.append_nil, List.any_reverse]

/-- A host, the network around it, and one of IPv6. -/
theorem insertAll_contains_three :
    ∃ v, Ranger.insertAll 129 [⟨[10, 0, 0, 9], cidrMask 32 32⟩, ⟨[10, 0, 0, 0], cidrMask 24 32⟩,
      ⟨0xfd :: List.replicate 15 0, cidrMask 64 128⟩]
        newPCTrieRanger = (.ok (), v) ∧ v.contains [10, 0, 0, 77] = .ok true ∧
          v.contains [10, 0, 1, 9] = .ok false := by
  have hnets : ∀ n ∈ [(⟨[10, 0, 0, 9], cidrMask 32 32⟩ : IPNet), ⟨[10, 0, 0, 0], cidrMask 24 32⟩,
    ⟨0xfd :: List.replicate 15 0, cidrMask 64 128⟩],
      Canonical n := by
    simp only [List.mem_cons, List.not_mem_nil, or_false]
    rintro n (rfl | rfl | rfl)
    · exact ⟨1, [10, 0, 0, 9], 32, ⟨.v4 (by decide), by decide, by decide⟩, by decide⟩
    · exact ⟨1, [10, 0, 0, 0], 24, ⟨.v4 (by decide), by decide, by decide⟩, by decide⟩
    · exact ⟨4, _, 64, ⟨.v6 (by decide) (by decide), by decide, by decide⟩, by decide⟩
  obtain ⟨v, hrun, hcontains⟩ := insertAll_contains hnets (show 128 < 129 by decide)
  refine ⟨v, hrun, ?_, ?_⟩
  · rw [hcontains _ (.inl rfl)]
    decide
  · rw [hcontains _ (.inl rfl)]
    decide

/-! ## Host bits -/

/-- A network of the list has a longer prefix and shares one bit more with the address than the prefix has. -/
def Overlaid (w : Nat) (bs : IP) (l : Nat) (nets : List IPNet) : Prop :=
  ∃ m ∈ nets, ∃ cs l', Shaped w m cs l' ∧ l < l' ∧ AgreeAbove (32 * w - l - 1) (ofBytes cs) (ofBytes bs)

/-- Such a network is in the half of the block that has the address. -/
theorem Placed.inHalf_iff {w l l' : Nat} {n m : IPNet} {bs cs : IP} {b a : Block} (hn : Placed w n bs l b)
    (hm : Placed w m cs l' a) :
    PrefixTrie.InHalf b ((ofBytes bs).testBit (b.low - 1)) a ↔ l < l' ∧ AgreeAbove (32 * w - l - 1)
    (ofBytes cs) (ofBytes bs) := by
  have hbl := hn.low
  have hal := hm.low
  have hbits := hn.shaped.bits
  have hbits' := hm.shaped.bits
  constructor
  · rintro ⟨hlt, hagree, hbit⟩
    have hle : a.low ≤ b.low - 1 := by omega
    refine ⟨by omega, ?_⟩
    rw [← hbl, agree_succ, Nat.sub_add_cancel (by omega)]
    refine ⟨(hm.agree.symm.mono hlt.le).trans (hagree.trans hn.agree), ?_⟩
    rw [← hm.agree.testBit hle, hbit]
  · rintro ⟨hlt, hagree⟩
    have hle : a.low ≤ b.low - 1 := by omega
    rw [← hbl] at hagree
    have hab : AgreeAbove (b.low - 1) a.number (ofBytes bs) := (hm.agree.mono hle).trans hagree
    exact ⟨by omega, (hab.mono (Nat.sub_le _ _)).trans hn.agree.symm, hab.testBit le_rfl⟩

theorem Holds.blocked_iff {w l : Nat} {nets : List IPNet} {p : Trie} {t : PrefixTrie IPNet}
    {n : IPNet} {bs : IP} {b : Block} (h : Holds w nets p t) (hn : Placed w n bs l b) :
    Placed.Blocked bs b t ↔ Overlaid w bs l nets := by
  constructor
  · rintro ⟨⟨a, v⟩, hmem, ha⟩
    obtain ⟨m, hm, cs, l', hplaced⟩ := (h.entries a).1 ⟨v, hmem⟩
    exact ⟨m, hm, cs, l', hplaced.shaped, (hn.inHalf_iff hplaced).1 ha⟩
  · rintro ⟨m, hm, cs, l', hshape, hlt⟩
    obtain ⟨v, hmem⟩ := (h.entries _).2 ⟨m, hm, cs, l', hshape, rfl⟩
    exact ⟨(_, v), hmem, (hn.inHalf_iff ⟨hshape, rfl⟩).2 hlt⟩

theorem insertTrie_hostBits {w l : Nat} {nets : List IPNet} {p : Trie} {t : PrefixTrie IPNet} {n : IPNet}
    {bs : IP} (h : Holds w nets p t) (hn : Shaped w n bs l) (hhost : ¬ 2 ^ (32 * w - l) ∣ ofBytes bs) :
    (Overlaid w bs l nets → ∀ stack, (Ranger.insertTrie stack n p).1 = .crash) ∧
      (¬ Overlaid w bs l nets → ∀ stack, 32 * w < stack → (Ranger.insertTrie stack n p).1 = .ok ()) := by
  have hplaced : Placed w n bs l _ := ⟨hn, rfl⟩
  have hnumber : (Block.around (32 * w - l) (ofBytes bs)).number ≠ ofBytes bs := fun heq => hhost (Dvd.intro_left _ heq)
  rw [← h.blocked_iff hplaced]
  constructor
  · intro hblocked stack
    have hcrash := hplaced.insert_overflows hnumber stack h.sim h.wf h.tight h.top hplaced.within_root hblocked
    rw [Ranger.insertTrie, Proc.bind_of_crash (Prod.ext hcrash rfl)]
  · intro hfree stack hstack
    have hok :=
      hplaced.insert_returns hnumber h.sim h.wf h.tight h.top hplaced.within_root
        (lt_of_le_of_lt (Nat.sub_le _ _) hstack) hfree
    rw [Ranger.insertTrie, Proc.bind_of_ok (Prod.ext hok rfl)]
    rfl

/-- What becomes of a network with host bits, after networks without: if one of them is below the half of it that has
its own address, the insertion overflows the stack however deep it is, and otherwise it returns. -/
theorem insert_hostBits {w l : Nat} {nets : List IPNet} {n : IPNet} {bs : IP} {v : Ranger}
    (h : v.Has nets) (hn : Shaped w n bs l) (hhost : ¬ 2 ^ (32 * w - l) ∣ ofBytes bs) :
    (Overlaid w bs l nets → ∀ stack, (Ranger.insert stack n v).1 = .crash) ∧
      (¬ Overlaid w bs l nets → ∀ stack, 128 < stack → (Ranger.insert stack n v).1 = .ok ()) := by
  obtain ⟨⟨t4, h4⟩, t6, h6⟩ := h
  refine ⟨fun hover stack => ?_, fun hfree stack hstack => ?_⟩
  · rcases Ranger.insert_family hn.family stack v with ⟨rfl, hrun⟩ | ⟨rfl, hrun⟩ <;> rw [hrun]
    · exact (insertTrie_hostBits h4 hn hhost).1 hover stack
    · exact (insertTrie_hostBits h6 hn hhost).1 hover stack
  · rcases Ranger.insert_family hn.family stack v with ⟨rfl, hrun⟩ | ⟨rfl, hrun⟩ <;> rw [hrun]
    · exact (insertTrie_hostBits h4 hn hhost).2 hfree stack (by omega)
    · exact (insertTrie_hostBits h6 hn hhost).2 hfree stack (by omega)

/-- So a network with host bits ends the process or does no harm, by what was inserted before it. -/
theorem insert_overflows_iff {w l : Nat} {nets : List IPNet} {n : IPNet} {bs : IP} {stack : Nat}
    (hnets : ∀ m ∈ nets, Canonical m) (hstack : 128 < stack) (hn : Shaped w n bs l)
    (hhost : ¬ 2 ^ (32 * w - l) ∣ ofBytes bs) :
    ∃ v, Ranger.insertAll stack nets newPCTrieRanger = (.ok (), v) ∧
      ((∀ s, (Ranger.insert s n v).1 = .crash) ↔ Overlaid w bs l nets) ∧
      (¬ Overlaid w bs l nets → ∀ s, 128 < s → (Ranger.insert s n v).1 = .ok ()) := by
  obtain ⟨v, hrun, hhas⟩ := has_newPCTrieRanger.insertAll hstack hnets
  obtain ⟨hover, hfree⟩ := insert_hostBits hhas hn hhost
  have hrev : Overlaid w bs l (nets.reverse ++ []) ↔ Overlaid w bs l nets := by
    unfold Overlaid
    simp only [List.append_nil, List.mem_reverse]
  rw [hrev] at hover hfree
  refine ⟨v, hrun, ⟨fun hcrash => ?_, hover⟩, hfree⟩
  by_contra hnot
  have hok := hfree hnot stack hstack
  rw [hcrash stack] at hok
  cases hok

/-- `10.0.0.9/32` and then `10.0.0.5/24`, or `10.0.0.137/24`, which is in the other half. -/
theorem insert_overflows_after_host :
    (∃ v, Ranger.insertAll 129 [⟨[10, 0, 0, 9], cidrMask 32 32⟩] newPCTrieRanger = (.ok (), v) ∧
      ∀ s, (Ranger.insert s ⟨[10, 0, 0, 5], cidrMask 24 32⟩ v).1 = .crash) ∧
    ∃ v, Ranger.insertAll 129 [⟨[10, 0, 0, 9], cidrMask 32 32⟩] newPCTrieRanger = (.ok (), v) ∧
      ∀ s, 128 < s → (Ranger.insert s ⟨[10, 0, 0, 137], cidrMask 24 32⟩ v).1 = .ok () := by
  have hhost : Shaped 1 ⟨[10, 0, 0, 9], cidrMask 32 32⟩ [10, 0, 0, 9] 32 := ⟨.v4 (by decide), by decide, by decide⟩
  have hnet : Shaped 1 ⟨[10, 0, 0, 5], cidrMask 24 32⟩ [10, 0, 0, 5] 24 := ⟨.v4 (by decide), by decide, by decide⟩
  have hnets : ∀ m ∈ [(⟨[10, 0, 0, 9], cidrMask 32 32⟩ : IPNet)], Canonical m := by
    rintro m (_ | ⟨_, ⟨⟩⟩)
    exact ⟨1, _, 32, hhost, one_dvd _⟩
  have hnet' : Shaped 1 ⟨[10, 0, 0, 137], cidrMask 24 32⟩ [10, 0, 0, 137] 24 := ⟨.v4 (by decide), by decide, by decide⟩
  constructor
  · obtain ⟨v, hrun, hiff, -⟩ := insert_overflows_iff hnets (show 128 < 129 by decide) hnet (by decide)
    exact ⟨v, hrun, hiff.2 ⟨_, List.mem_cons_self .., _, 32, hhost, by decide, by decide⟩⟩
  · obtain ⟨v, hrun, -, hfree⟩ := insert_overflows_iff hnets (show 128 < 129 by decide) hnet' (by decide)
    refine ⟨v, hrun, hfree ?_⟩
    rintro ⟨m, hm, cs, l, hshape, -, hagree⟩
    obtain rfl := List.mem_singleton.1 hm
    obtain ⟨-, rfl, rfl⟩ := hhost.unique hshape
    exact absurd hagree (by decide)

end Wig.Cidranger
