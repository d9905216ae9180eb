/-
What `ParseCIDR` reads back from `IPNet.String`: every network the package builds prints a text
that parses, and the parsed network prints the same text again. The parsed network need not be the
printed one: an IPv4 address with a sixteen-byte mask comes back with a four-byte mask.
-/
import Wig.Net.Text

namespace Wig.Net

/-! ## Numbers -/

theorem decVal_digitChar : ∀ d < 10, decVal (Nat.digitChar d) = some d := by decide

theorem hexVal_digitChar : ∀ d < 16, hexVal (Nat.digitChar d) = some d := by decide

theorem scan_digits {val : Char → Option Nat} {base : Nat} (hb : 1 ≤ base) :
    ∀ (ds : List Nat) (n i : Nat) (rest : List Char), (∀ d ∈ ds, val (Nat.digitChar d) = some d) →
      ds.foldl (fun n d => n * base + d) n < big → 0 < i + ds.length → (∀ c ∈ rest.head?, val c = none) →
      scan val base n i (ds.map Nat.digitChar ++ rest) =
        some (ds.foldl (fun n d => n * base + d) n, i + ds.length, rest)
  | [], n, i, rest, _, _, hi, hr => by
    have hi' : ¬ i = 0 := by simp at hi; omega
    cases rest with
    | nil => simp [scan, hi']
    | cons c rest => simp [scan, hr c (by simp), hi']
  | d :: ds, n, i, rest, hd, hbig, _, hr => by
    have hmono : ∀ (l : List Nat) (m : Nat), m ≤ l.foldl (fun n d => n * base + d) m := by
      intro l
      induction l with
      | nil => intro m; exact le_refl _
      | cons a l ih =>
        intro m
        have : m ≤ m * base + a := le_trans (Nat.le_mul_of_pos_right m hb) (Nat.le_add_right _ _)
        exact le_trans this (ih _)
    have hlt : ¬ big ≤ n * base + d := by
      have := hmono ds (n * base + d)
      rw [List.foldl_cons] at hbig; omega
    have ih := scan_digits hb ds (n * base + d) (i + 1) rest (fun x hx => hd x (List.mem_cons_of_mem _ hx)) hbig
      (by omega) hr
    rw [List.map_cons, List.cons_append, scan, hd d (List.mem_cons_self ..)]
    simp only [hlt, if_false]
    rw [ih, List.foldl_cons, List.length_cons, Nat.add_right_comm, Nat.add_assoc]

/-- The digits of a number below 1000, without a leading zero. -/
theorem utoa_digits {n : Nat} (h : n < 1000) :
    ∃ ds : List Nat, utoa n = ds.map Nat.digitChar ∧ 0 < ds.length ∧ (∀ d ∈ ds, d < 10) ∧
      ds.foldl (fun n d => n * 10 + d) 0 = n ∧ (1 < ds.length → ds.head? ≠ some 0) := by
  unfold utoa
  by_cases h1 : n < 10
  · exact ⟨[n], by simp [h1], by simp, by simpa using h1, by simp, by simp⟩
  · by_cases h2 : n < 100
    · refine ⟨[n / 10, n % 10], by simp [h1, h2], by simp, ?_, by simp; omega, by simp; omega⟩
      intro d hd
      simp only [List.mem_cons, List.not_mem_nil, or_false] at hd
      rcases hd with rfl | rfl <;> omega
    · refine ⟨[n / 100, n / 10 % 10, n % 10], by simp [h1, h2], by simp, ?_, by simp; omega, by simp; omega⟩
      intro d hd
      simp only [List.mem_cons, List.not_mem_nil, or_false] at hd
      rcases hd with rfl | rfl | rfl <;> omega

theorem dtoi_utoa {n : Nat} (h : n < 1000) {r : List Char} (hr : ∀ c ∈ r.head?, decVal c = none) :
    ∃ c, dtoi (utoa n ++ r) = some (n, c, r) ∧ (1 < c → (utoa n ++ r).head? ≠ some '0') := by
  obtain ⟨ds, hds, hpos, hlt, hval, hz⟩ := utoa_digits h
  refine ⟨ds.length, ?_, fun hc => ?_⟩
  · unfold dtoi
    rw [hds, scan_digits (by decide) ds 0 0 r (fun d hd => decVal_digitChar d (hlt d hd))
      (by rw [hval]; unfold big; omega) (by omega) hr, hval, Nat.zero_add]
  · cases ds with
    | nil => simp at hpos
    | cons d ds =>
      rw [hds]
      have h0 : ∀ d < 10, Nat.digitChar d = '0' → d = 0 := by decide
      have hd0 : d ≠ 0 := fun h => hz hc (by simp [h])
      simpa using fun h => hd0 (h0 d (hlt d (List.mem_cons_self ..)) h)

theorem appendHex_digits {n : Nat} (h : n < 65536) :
    ∃ ds : List Nat, appendHex n = ds.map Nat.digitChar ∧ 0 < ds.length ∧ (∀ d ∈ ds, d < 16) ∧
      ds.foldl (fun n d => n * 16 + d) 0 = n := by
  unfold appendHex
  by_cases h0 : n = 0
  · exact ⟨[0], by simp [h0], by simp, by simp, by simp [h0]⟩
  rw [if_neg h0]
  have h1 : 0 < n / 1 := by omega
  by_cases h4096 : 0 < n / 4096
  · have h256 : 0 < n / 256 := by omega
    have h16 : 0 < n / 16 := by omega
    refine ⟨[n / 4096 % 16, n / 256 % 16, n / 16 % 16, n / 1 % 16], ?_, by simp, ?_, by simp; omega⟩
    · simp only [List.filterMap_cons, if_pos h4096, if_pos h256, if_pos h16, if_pos h1, List.filterMap_nil,
        List.map_cons, List.map_nil]
    · simp only [List.mem_cons, List.not_mem_nil, or_false]; rintro d (rfl | rfl | rfl | rfl) <;> omega
  by_cases h256 : 0 < n / 256
  · have h16 : 0 < n / 16 := by omega
    refine ⟨[n / 256 % 16, n / 16 % 16, n / 1 % 16], ?_, by simp, ?_, by simp; omega⟩
    · simp only [List.filterMap_cons, if_neg h4096, if_pos h256, if_pos h16, if_pos h1, List.filterMap_nil,
        List.map_cons, List.map_nil]
    · simp only [List.mem_cons, List.not_mem_nil, or_false]; rintro d (rfl | rfl | rfl) <;> omega
  by_cases h16 : 0 < n / 16
  · refine ⟨[n / 16 % 16, n / 1 % 16], ?_, by simp, ?_, by simp; omega⟩
    · simp only [List.filterMap_cons, if_neg h4096, if_neg h256, if_pos h16, if_pos h1, List.filterMap_nil,
        List.map_cons, List.map_nil]
    · simp only [List.mem_cons, List.not_mem_nil, or_false]; rintro d (rfl | rfl) <;> omega
  · refine ⟨[n / 1 % 16], ?_, by simp, ?_, by simp; omega⟩
    · simp only [List.filterMap_cons, if_neg h4096, if_neg h256, if_neg h16, if_pos h1, List.filterMap_nil,
        List.map_cons, List.map_nil]
    · simp only [List.mem_cons, List.not_mem_nil, or_false]; rintro d rfl; omega

theorem xtoi_appendHex {n : Nat} (h : n < 65536) {r : List Char} (hr : ∀ c ∈ r.head?, hexVal c = none) :
    ∃ c, xtoi (appendHex n ++ r) = some (n, c, r) := by
  obtain ⟨ds, hds, hpos, hlt, hval⟩ := appendHex_digits h
  refine ⟨0 + ds.length, ?_⟩
  unfold xtoi
  rw [hds, scan_digits (by decide) ds 0 0 r (fun d hd => hexVal_digitChar d (hlt d hd))
    (by rw [hval]; unfold big; omega) (by omega) hr, hval]

/-! ## IPv4 -/

theorem octet_utoa (b : UInt8) {r : List Char} (hr : ∀ c ∈ r.head?, decVal c = none) :
    octet (utoa b.toNat ++ r) = some (b, r) := by
  have hb : b.toNat < 256 := b.toNat_lt
  obtain ⟨c, hc, hz⟩ := dtoi_utoa (show b.toNat < 1000 by omega) hr
  have hlead : ¬ (1 < c ∧ (utoa b.toNat ++ r).head? = some '0') := fun h => hz h.1 h.2
  unfold octet
  rw [hc]
  simp only [show ¬ 0xFF < b.toNat by omega, if_false, hlead]
  simp

theorem joinOctets_cons {b : UInt8} {bs : List UInt8} (h : bs ≠ []) :
    joinOctets (b :: bs) = utoa b.toNat ++ '.' :: joinOctets bs := by
  cases bs with
  | nil => exact absurd rfl h
  | cons c bs => rfl

theorem decVal_dot : decVal '.' = none := by decide

theorem octets_joinOctets : ∀ (bs : List UInt8), bs ≠ [] →
    octets bs.length ('.' :: joinOctets bs) = some bs
  | [], h => absurd rfl h
  | [b], _ => by
    have := octet_utoa b (r := []) (by simp)
    rw [List.append_nil] at this
    simp [octets, joinOctets, this]
  | b :: c :: bs, _ => by
    have ih := octets_joinOctets (c :: bs) (List.cons_ne_nil c bs)
    have ho := octet_utoa b (r := '.' :: joinOctets (c :: bs)) (by simp [decVal_dot])
    rw [joinOctets_cons (List.cons_ne_nil c bs), show (b :: c :: bs).length = (c :: bs).length + 1 from rfl, octets, ho]
    simp only [Option.bind_some, ih, Option.map_some]

theorem parseIPv4_joinOctets {p : IP} (h : p.length = 4) : parseIPv4 (joinOctets p) = some (v4InV6Prefix ++ p) := by
  match p, h with
  | [a, b, c, d], _ =>
    have ho := octets_joinOctets [b, c, d] (by simp)
    rw [joinOctets_cons (by simp : [b, c, d] ≠ [])]
    unfold parseIPv4
    rw [octet_utoa a (r := '.' :: joinOctets [b, c, d]) (by simp [decVal_dot])]
    simp only [List.length_cons, List.length_nil] at ho
    simp [ho]

theorem octets_length : ∀ {k : Nat} {s : List Char} {bs : List UInt8}, octets k s = some bs → bs.length = k
  | 0, [], bs, h => by cases h; rfl
  | 0, _ :: _, bs, h => by cases h
  | k + 1, s, bs, h => by
    unfold octets at h
    split at h
    · rename_i heq; cases heq
    · rename_i heq; cases heq
    · rename_i heq; cases heq
      rw [Option.bind_eq_some_iff] at h
      obtain ⟨⟨b, rest⟩, -, h⟩ := h
      rw [Option.map_eq_some_iff] at h
      obtain ⟨bs', h', rfl⟩ := h
      simp [octets_length h']
    · cases h

theorem parseIPv4_shape {s : List Char} {ip : IP} (h : parseIPv4 s = some ip) :
    ∃ p, p.length = 4 ∧ ip = v4InV6Prefix ++ p := by
  unfold parseIPv4 at h
  rw [Option.bind_eq_some_iff] at h
  obtain ⟨⟨b, rest⟩, -, h⟩ := h
  rw [Option.map_eq_some_iff] at h
  obtain ⟨bs, hbs, rfl⟩ := h
  exact ⟨b :: bs, by simp [octets_length hbs], rfl⟩

theorem octet_rest_sub {s rest : List Char} {b : UInt8} (h : octet s = some (b, rest)) : ∀ c ∈ rest, c ∈ s := by
  have hscan : ∀ (s : List Char) (n i m j : Nat) (r : List Char),
      scan decVal 10 n i s = some (m, j, r) → ∀ c ∈ r, c ∈ s := by
    intro s
    induction s with
    | nil =>
      intro n i m j r h c hc
      unfold scan at h
      split at h
      · cases h
      · cases h; cases hc
    | cons a s ih =>
      intro n i m j r h c hc
      unfold scan at h
      split at h
      · split at h
        · cases h
        · cases h; exact hc
      · split at h
        · cases h
        · exact List.mem_cons_of_mem _ (ih _ _ _ _ _ h c hc)
  unfold octet dtoi at h
  split at h
  · cases h
  · rename_i n c r hs
    split at h
    · cases h
    · split at h
      · cases h
      · cases h; exact hscan _ _ _ _ _ _ hs

/-- An IPv4 address is written with dots. -/
theorem dot_mem_of_parseIPv4 {s : List Char} {ip : IP} (h : parseIPv4 s = some ip) : '.' ∈ s := by
  unfold parseIPv4 at h
  rw [Option.bind_eq_some_iff] at h
  obtain ⟨⟨b, rest⟩, ho, h⟩ := h
  rw [Option.map_eq_some_iff] at h
  obtain ⟨bs, hbs, -⟩ := h
  unfold octets at hbs
  split at hbs
  · rename_i heq; cases heq
  · rename_i heq; cases heq
  · exact octet_rest_sub ho '.' (List.mem_cons_self ..)
  · cases hbs

/-! ## IPv6 -/

/-- The bytes of sixteen-bit groups. -/
def bytesOf : List Nat → List UInt8
  | [] => []
  | g :: gs => (g / 256).toUInt8 :: g.toUInt8 :: bytesOf gs

@[simp] theorem bytesOf_length : ∀ gs : List Nat, (bytesOf gs).length = 2 * gs.length
  | [] => rfl
  | g :: gs => by simp only [bytesOf, List.length_cons, bytesOf_length gs]; omega

theorem bytesOf_append : ∀ gs hs : List Nat, bytesOf (gs ++ hs) = bytesOf gs ++ bytesOf hs
  | [], hs => rfl
  | g :: gs, hs => by simp [bytesOf, bytesOf_append gs hs]

theorem bytesOf_replicate : ∀ n : Nat, bytesOf (List.replicate n 0) = List.replicate (2 * n) 0
  | 0 => rfl
  | n + 1 => by
    rw [List.replicate_succ, bytesOf, bytesOf_replicate n, show 2 * (n + 1) = 2 * n + 1 + 1 by omega,
      List.replicate_succ, List.replicate_succ]
    rfl

theorem groups_lt : ∀ (bs : List UInt8), ∀ g ∈ groups bs, g < 65536
  | [], g, h => by cases h
  | [_], g, h => by cases h
  | a :: b :: bs, g, h => by
    rcases List.mem_cons.1 h with rfl | h
    · have ha := a.toNat_lt; have hb := b.toNat_lt; omega
    · exact groups_lt bs g h

theorem bytesOf_groups : ∀ (n : Nat) (bs : List UInt8), bs.length = 2 * n → bytesOf (groups bs) = bs
  | 0, [], _ => rfl
  | n + 1, a :: b :: bs, h => by
    have ha := a.toNat_lt
    have hb := b.toNat_lt
    have hhi : (a.toNat * 256 + b.toNat) / 256 = a.toNat := by omega
    have hlo : (a.toNat * 256 + b.toNat).toUInt8 = b := by
      apply UInt8.toNat_inj.1
      simp only [Nat.toUInt8_eq, UInt8.toNat_ofNat']
      omega
    have ih := bytesOf_groups n bs (by simp only [List.length_cons] at h; omega)
    simp only [groups, bytesOf, hhi, hlo, ih]
    simp

theorem groups_length : ∀ (n : Nat) (bs : List UInt8), bs.length = 2 * n → (groups bs).length = n
  | 0, [], _ => rfl
  | n + 1, a :: b :: bs, h => by
    simp only [groups, List.length_cons]
    rw [groups_length n bs (by simp only [List.length_cons] at h; omega)]

theorem joinGroups_cons {g : Nat} {gs : List Nat} (h : gs ≠ []) :
    joinGroups (g :: gs) = appendHex g ++ ':' :: joinGroups gs := by
  cases gs with
  | nil => exact absurd rfl h
  | cons c gs => rfl

theorem hexVal_colon : hexVal ':' = none := by decide

/-- A character of an IPv6 text: a lower-case hexadecimal digit. -/
theorem appendHex_chars {n : Nat} (h : n < 65536) :
    appendHex n ≠ [] ∧ ∀ c ∈ appendHex n, c ≠ ':' ∧ c ≠ '.' ∧ c ≠ '/' := by
  obtain ⟨ds, hds, hpos, hlt, -⟩ := appendHex_digits h
  have hd : ∀ d < 16, Nat.digitChar d ≠ ':' ∧ Nat.digitChar d ≠ '.' ∧ Nat.digitChar d ≠ '/' := by decide
  rw [hds]
  refine ⟨by simpa using List.ne_nil_of_length_pos hpos, fun c hc => ?_⟩
  obtain ⟨d, hdm, rfl⟩ := List.mem_map.1 hc
  exact hd d (hlt d hdm)

theorem joinGroups_chars : ∀ {gs : List Nat}, (∀ g ∈ gs, g < 65536) → ∀ c ∈ joinGroups gs, c ≠ '.' ∧ c ≠ '/'
  | [], _, c, hc => by cases hc
  | [g], h, c, hc => ((appendHex_chars (h g (List.mem_cons_self ..))).2 c hc).2
  | g :: g' :: gs, h, c, hc => by
    rw [joinGroups_cons (List.cons_ne_nil g' gs), List.mem_append, List.mem_cons] at hc
    rcases hc with hc | rfl | hc
    · exact ((appendHex_chars (h g (List.mem_cons_self ..))).2 c hc).2
    · decide
    · exact joinGroups_chars (fun x hx => h x (List.mem_cons_of_mem _ hx)) c hc

theorem joinGroups_head {gs : List Nat} (hne : gs ≠ []) (h : ∀ g ∈ gs, g < 65536) :
    ∃ c s, joinGroups gs = c :: s ∧ c ≠ ':' := by
  cases gs with
  | nil => exact absurd rfl hne
  | cons g gs =>
    obtain ⟨h1, h2⟩ := appendHex_chars (h g (List.mem_cons_self ..))
    obtain ⟨c, s, hcs⟩ := List.exists_cons_of_ne_nil h1
    have hc : c ≠ ':' := (h2 c (by rw [hcs]; exact List.mem_cons_self ..)).1
    cases gs with
    | nil => exact ⟨c, s, hcs, hc⟩
    | cons g' gs => exact ⟨c, s ++ ':' :: joinGroups (g' :: gs), by rw [joinGroups_cons (by simp), hcs]; rfl, hc⟩

/-- One group of the loop, followed by the end of the text. -/
theorem ipv6Loop_last {g : Nat} (hg : g < 65536) (k : Nat) (acc : List UInt8) (e : Option Nat) :
    ipv6Loop (k + 1) acc e (appendHex g) = some (acc ++ bytesOf [g], e, []) := by
  obtain ⟨c, hc⟩ := xtoi_appendHex hg (r := []) (by simp)
  rw [List.append_nil] at hc
  rw [ipv6Loop, hc]
  simp only [show ¬ 0xFFFF < g by omega, if_false]
  rfl

/-- One group of the loop, followed by a colon and another group. -/
theorem ipv6Loop_colon {g : Nat} (hg : g < 65536) (k : Nat) (acc : List UInt8) (e : Option Nat) {x : Char}
    {s : List Char} (hx : x ≠ ':') :
    ipv6Loop (k + 1) acc e (appendHex g ++ ':' :: x :: s) = ipv6Loop k (acc ++ bytesOf [g]) e (x :: s) := by
  obtain ⟨c, hc⟩ := xtoi_appendHex hg (r := ':' :: x :: s) (by simp [hexVal_colon])
  rw [ipv6Loop, hc]
  simp only [show ¬ 0xFFFF < g by omega, if_false]
  rfl

/-- One group of the loop, followed by the ellipsis. -/
theorem ipv6Loop_ellipsis {g : Nat} (hg : g < 65536) (k : Nat) (acc : List UInt8) (s : List Char) :
    ipv6Loop (k + 1) acc none (appendHex g ++ ':' :: ':' :: s) =
      if s = [] then some (acc ++ bytesOf [g], some (acc.length + 2), [])
      else ipv6Loop k (acc ++ bytesOf [g]) (some (acc.length + 2)) s := by
  obtain ⟨c, hc⟩ := xtoi_appendHex hg (r := ':' :: ':' :: s) (by simp [hexVal_colon])
  rw [ipv6Loop, hc]
  simp only [show ¬ 0xFFFF < g by omega, if_false, ne_eq, not_true_eq_false]
  rfl

theorem ipv6Loop_join : ∀ (gs : List Nat) (k : Nat) (acc : List UInt8) (e : Option Nat), gs ≠ [] →
    (∀ g ∈ gs, g < 65536) → gs.length ≤ k → ipv6Loop k acc e (joinGroups gs) = some (acc ++ bytesOf gs, e, [])
  | [], _, _, _, h, _, _ => absurd rfl h
  | [g], k + 1, acc, e, _, h, _ => ipv6Loop_last (h g (List.mem_cons_self ..)) k acc e
  | g :: g' :: gs, k + 1, acc, e, _, h, hk => by
    have h' : ∀ x ∈ g' :: gs, x < 65536 := fun x hx => h x (List.mem_cons_of_mem _ hx)
    obtain ⟨c, s, hcs, hc⟩ := joinGroups_head (List.cons_ne_nil g' gs) h'
    have ih := ipv6Loop_join (g' :: gs) k (acc ++ bytesOf [g]) e (by simp) h' (by simp at hk ⊢; omega)
    rw [joinGroups_cons (List.cons_ne_nil g' gs), hcs, ipv6Loop_colon (h g (List.mem_cons_self ..)) k acc e hc,
      ← hcs, ih, List.append_assoc, ← bytesOf_append]
    rfl

/-- The loop over groups on both sides of an ellipsis. -/
theorem ipv6Loop_join_ellipsis : ∀ (hs ts : List Nat) (k : Nat) (acc : List UInt8), hs ≠ [] →
    (∀ g ∈ hs ++ ts, g < 65536) → hs.length + ts.length ≤ k →
    ipv6Loop k acc none (joinGroups hs ++ ':' :: ':' :: joinGroups ts) =
      some (acc ++ bytesOf (hs ++ ts), some (acc.length + 2 * hs.length), [])
  | [], _, _, _, h, _, _ => absurd rfl h
  | _ :: _, _, 0, _, _, _, hk => by simp at hk
  | [g], ts, k + 1, acc, _, h, hk => by
    have hg : g < 65536 := h g (by simp)
    rw [show joinGroups [g] = appendHex g from rfl, ipv6Loop_ellipsis hg]
    cases ts with
    | nil => simp [joinGroups]
    | cons t ts =>
      have ht : ∀ x ∈ t :: ts, x < 65536 := fun x hx => h x (List.mem_append_right _ hx)
      obtain ⟨c, s, hcs, -⟩ := joinGroups_head (List.cons_ne_nil t ts) ht
      rw [if_neg (by rw [hcs]; simp), ipv6Loop_join (t :: ts) k _ _ (by simp) ht (by simp at hk ⊢; omega),
        List.append_assoc, ← bytesOf_append]
      rfl
  | g :: g' :: hs, ts, k + 1, acc, _, h, hk => by
    have hg : g < 65536 := h g (by simp)
    have h' : ∀ x ∈ (g' :: hs) ++ ts, x < 65536 := fun x hx => h x (by
      rw [List.cons_append]; exact List.mem_cons_of_mem _ hx)
    obtain ⟨c, s, hcs, hc⟩ := joinGroups_head (List.cons_ne_nil g' hs) (fun x hx => h' x (List.mem_append_left _ hx))
    have ih := ipv6Loop_join_ellipsis (g' :: hs) ts k (acc ++ bytesOf [g]) (by simp) h' (by simp at hk ⊢; omega)
    rw [joinGroups_cons (List.cons_ne_nil g' hs), List.append_assoc, List.cons_append, hcs, List.cons_append,
      ipv6Loop_colon hg k acc none hc, ← List.cons_append, ← hcs, ih, List.append_assoc, ← bytesOf_append]
    simp [bytesOf]
    omega

/-! ## The run of zeros -/

/-- The run that is replaced by the ellipsis: inside the groups, and of zeros only. -/
structure ZeroRun (gs : List Nat) (i n : Nat) : Prop where
  bound : i + n ≤ gs.length
  zero : (gs.drop i).take n = List.replicate n 0

theorem takeWhile_zero : ∀ gs : List Nat,
    gs.take (gs.takeWhile (· = 0)).length = List.replicate (gs.takeWhile (· = 0)).length 0
  | [] => rfl
  | g :: gs => by
    by_cases h : g = 0
    · subst h; simp [List.replicate_succ, takeWhile_zero gs]
    · simp [h]

theorem longestZeros_run {gs : List Nat} : ∀ (rest : List Nat) (i : Nat) (best : Nat × Nat),
    rest = gs.drop i → i + rest.length = gs.length → ZeroRun gs best.1 best.2 →
    ZeroRun gs (longestZeros i best rest).1 (longestZeros i best rest).2
  | [], _, _, _, _, hb => hb
  | g :: rest, i, best, hr, hl, hb => by
    rw [longestZeros]
    have hrest : rest = gs.drop (i + 1) := by
      rw [← List.drop_drop, ← hr]; rfl
    refine longestZeros_run rest (i + 1) _ hrest (by simp at hl; omega) ?_
    split
    · refine ⟨?_, ?_⟩
      · have : ((g :: rest).takeWhile (· = 0)).length ≤ (g :: rest).length :=
          (List.takeWhile_sublist _).length_le
        simp only; omega
      · rw [← hr]; exact takeWhile_zero (g :: rest)
    · exact hb

/-- The groups around a run of zeros. -/
theorem ZeroRun.split {gs : List Nat} {i n : Nat} (h : ZeroRun gs i n) :
    gs = gs.take i ++ List.replicate n 0 ++ gs.drop (i + n) := by
  rw [← h.zero, List.append_assoc, ← List.drop_drop, List.take_append_drop, List.take_append_drop]

/-- Eight groups without an ellipsis. -/
theorem parseIPv6_join {gs : List Nat} (hl : gs.length = 8) (h : ∀ g ∈ gs, g < 65536) :
    parseIPv6 (joinGroups gs) = some (bytesOf gs) := by
  have hne : gs ≠ [] := by rintro rfl; cases hl
  obtain ⟨c, s, hcs, hc⟩ := joinGroups_head hne h
  have hloop := ipv6Loop_join gs 8 [] none hne h (by omega)
  rw [hcs] at hloop ⊢
  rw [parseIPv6, hloop]
  · have hlen : (bytesOf gs).length = 16 := by rw [bytesOf_length, hl]
    simp [expandEllipsis, hlen]
  · intro heq; exact hc (List.cons.inj heq).1
  · intro s' heq; exact hc (List.cons.inj heq).1

/-- What is left once the loop has stopped: the ellipsis stands for the missing groups. -/
theorem expandEllipsis_groups {hs ts : List Nat} {n : Nat} (hn : 0 < n) (hl : hs.length + n + ts.length = 8) :
    expandEllipsis (bytesOf (hs ++ ts), some (2 * hs.length), []) =
      some (bytesOf hs ++ List.replicate (2 * n) 0 ++ bytesOf ts) := by
  have hlen : (bytesOf (hs ++ ts)).length = 16 - 2 * n := by
    rw [bytesOf_length, List.length_append]; omega
  unfold expandEllipsis
  simp only [ne_eq, not_true_eq_false, if_false, hlen]
  rw [if_pos (by omega), Option.map_some, bytesOf_append, List.take_left' (by simp), List.drop_left' (by simp),
    show 16 - (16 - 2 * n) = 2 * n by omega]

theorem parseIPv6_ellipsis {hs ts : List Nat} {n : Nat} (hn : 0 < n) (hl : hs.length + n + ts.length = 8)
    (h : ∀ g ∈ hs ++ ts, g < 65536) :
    parseIPv6 (joinGroups hs ++ ':' :: ':' :: joinGroups ts) =
      some (bytesOf hs ++ List.replicate (2 * n) 0 ++ bytesOf ts) := by
  have hfinish := expandEllipsis_groups hn hl
  cases hs with
  | nil =>
    cases ts with
    | nil =>
      simp only [List.length_nil] at hl
      rw [show joinGroups [] = [] from rfl, List.nil_append, parseIPv6]
      simp only [bytesOf, List.nil_append, List.append_nil]
      rw [show 2 * n = 16 by omega]
    | cons t ts =>
      have ht : ∀ g ∈ t :: ts, g < 65536 := fun g hg => h g (List.mem_append_right _ hg)
      obtain ⟨c, s, hcs, hc⟩ := joinGroups_head (List.cons_ne_nil t ts) ht
      have hloop := ipv6Loop_join (t :: ts) 8 [] (some 0) (by simp) ht (by omega)
      rw [show joinGroups [] = [] from rfl, List.nil_append]
      rw [hcs] at hloop ⊢
      rw [parseIPv6, hloop]
      · exact hfinish
      · rintro heq; cases heq
  | cons g hs =>
    obtain ⟨c, s, hcs, hc⟩ := joinGroups_head (List.cons_ne_nil g hs) (fun x hx => h x (List.mem_append_left _ hx))
    have hloop := ipv6Loop_join_ellipsis (g :: hs) ts 8 [] (by simp) h (by omega)
    rw [hcs, List.cons_append] at hloop ⊢
    rw [parseIPv6, hloop]
    · simpa using hfinish
    · intro heq; exact hc (List.cons.inj heq).1
    · intro s' heq; exact hc (List.cons.inj heq).1

/-- `parseIPv6` reads back the text of eight groups. -/
theorem parseIPv6_ipv6Chars {gs : List Nat} (hl : gs.length = 8) (h : ∀ g ∈ gs, g < 65536) :
    parseIPv6 (ipv6Chars gs) = some (bytesOf gs) := by
  have hrun := longestZeros_run gs 0 (0, 0) rfl (by simp) ⟨by simp, by simp⟩
  unfold ipv6Chars
  generalize (longestZeros 0 (0, 0) gs).1 = i at hrun ⊢
  generalize (longestZeros 0 (0, 0) gs).2 = n at hrun ⊢
  by_cases h2 : 2 ≤ n
  · have hb := hrun.bound
    have hmem : ∀ g ∈ gs.take i ++ gs.drop (i + n), g < 65536 := by
      intro g hg
      rcases List.mem_append.1 hg with hg | hg
      · exact h g (List.mem_of_mem_take hg)
      · exact h g (List.mem_of_mem_drop hg)
    have hlen : (gs.take i).length + n + (gs.drop (i + n)).length = 8 := by
      rw [List.length_take, List.length_drop]; omega
    rw [if_pos h2, parseIPv6_ellipsis (by omega) hlen hmem]
    conv_rhs => rw [hrun.split]
    rw [bytesOf_append, bytesOf_append, bytesOf_replicate]
  · rw [if_neg h2]
    exact parseIPv6_join hl h

theorem ipv6Loop_length : ∀ {k : Nat} {acc : List UInt8} {e : Option Nat} {s : List Char}
    {r : List UInt8 × Option Nat × List Char}, acc.length + 2 * k = 16 → ipv6Loop k acc e s = some r → r.1.length ≤ 16
  | 0, acc, e, s, r, hk, h => by cases h; simp only; omega
  | k + 1, acc, e, s, r, hk, h => by
    rw [ipv6Loop] at h
    have hnext : ∀ n : Nat, (acc ++ [(n / 256).toUInt8, n.toUInt8]).length + 2 * k = 16 := by
      intro n; simp only [List.length_append, List.length_cons, List.length_nil]; omega
    split at h
    · cases h
    · split at h
      · cases h
      · split at h
        · split at h
          · cases h
          · split at h
            · cases h
            · rename_i hroom
              rw [Option.map_eq_some_iff] at h
              obtain ⟨ip4, hip, rfl⟩ := h
              obtain ⟨p, hp, rfl⟩ := parseIPv4_shape hip
              simp only [List.length_append, List.length_drop, hp, show v4InV6Prefix.length = 12 from rfl]
              omega
        · cases h; simp only [List.length_append, List.length_cons, List.length_nil]; omega
        · split at h
          · cases h
          · split at h
            · cases h; simp only [List.length_append, List.length_cons, List.length_nil]; omega
            · exact ipv6Loop_length (hnext _) h
        · exact ipv6Loop_length (hnext _) h
        · cases h

theorem expandEllipsis_length {r : List UInt8 × Option Nat × List Char} {ip : IP} (hr : r.1.length ≤ 16)
    (h : expandEllipsis r = some ip) : ip.length = 16 := by
  obtain ⟨acc, e, s⟩ := r
  simp only at hr
  simp only [expandEllipsis] at h
  split at h
  · cases h
  · split at h
    · rw [Option.map_eq_some_iff] at h
      obtain ⟨p, -, rfl⟩ := h
      simp only [List.length_append, List.length_take, List.length_replicate, List.length_drop]
      omega
    · split at h
      · cases h; omega
      · cases h

theorem parseIPv6_length {s : List Char} {ip : IP} (h : parseIPv6 s = some ip) : ip.length = 16 := by
  unfold parseIPv6 at h
  split at h
  · cases h; simp
  · obtain ⟨r, hr, h⟩ := Option.bind_eq_some_iff.1 h
    exact expandEllipsis_length (ipv6Loop_length (by simp) hr) h
  · obtain ⟨r, hr, h⟩ := Option.bind_eq_some_iff.1 h
    exact expandEllipsis_length (ipv6Loop_length (by simp) hr) h

theorem ipv6Chars_chars {gs : List Nat} (h : ∀ g ∈ gs, g < 65536) : ∀ c ∈ ipv6Chars gs, c ≠ '.' ∧ c ≠ '/' := by
  intro c hc
  unfold ipv6Chars at hc
  split at hc
  · simp only [List.mem_append, List.mem_cons] at hc
    rcases hc with hc | rfl | rfl | hc
    · exact joinGroups_chars (fun g hg => h g (List.mem_of_mem_take hg)) c hc
    · decide
    · decide
    · exact joinGroups_chars (fun g hg => h g (List.mem_of_mem_drop hg)) c hc
  · exact joinGroups_chars h c hc

/-! ## Masks -/

@[simp] theorem maskBytes_length : ∀ len l : Nat, (maskBytes len l).length = len
  | 0, _ => rfl
  | len + 1, l => by
    rw [maskBytes]
    split
    · rw [List.length_cons, maskBytes_length len]
    · rw [List.length_cons, maskBytes_length len]

theorem maskBytes_of_le {len l : Nat} (h : 8 ≤ l) : maskBytes (len + 1) l = 0xff :: maskBytes len (l - 8) := if_pos h

theorem maskBytes_of_lt {len l : Nat} (h : l < 8) :
    maskBytes (len + 1) l = (~~~ ((0xff : UInt8) >>> l.toUInt8)) :: maskBytes len 0 :=
  if_neg (Nat.not_le_of_lt h)

theorem maskBytes_zero : ∀ len : Nat, maskBytes len 0 = List.replicate len 0
  | 0 => rfl
  | len + 1 => by
    rw [maskBytes_of_lt (by decide), maskBytes_zero len]
    rfl

/-- The byte in which the ones end. -/
theorem leadingOnes_last :
    ∀ l < 8, ~~~ ((0xff : UInt8) >>> l.toUInt8) ≠ 0xff ∧
      leadingOnes 8 (~~~ ((0xff : UInt8) >>> l.toUInt8)) = (l, 0) := by
  decide

theorem simpleMaskLength_maskBytes : ∀ {len l : Nat}, l ≤ 8 * len → simpleMaskLength (maskBytes len l) = some l
  | 0, l, h => by
    obtain rfl : l = 0 := by omega
    rfl
  | len + 1, l, h => by
    by_cases hfull : 8 ≤ l
    · have hrest : simpleMaskLength (maskBytes len (l - 8)) = some (l - 8) := simpleMaskLength_maskBytes (by omega)
      rw [maskBytes_of_le hfull, simpleMaskLength, if_pos rfl, hrest, Option.map_some, Nat.sub_add_cancel hfull]
    · obtain ⟨hne, hones⟩ := leadingOnes_last l (Nat.lt_of_not_le hfull)
      rw [maskBytes_of_lt (Nat.lt_of_not_le hfull), maskBytes_zero, simpleMaskLength, if_neg hne, hones,
        if_pos ⟨rfl, by simp⟩]

theorem maskBytes_drop : ∀ (k len l : Nat), (maskBytes (k + len) l).drop k = maskBytes len (l - 8 * k)
  | 0, len, l => by simp
  | k + 1, len, l => by
    rw [Nat.add_right_comm]
    by_cases hfull : 8 ≤ l
    · rw [maskBytes_of_le hfull, List.drop_succ_cons, maskBytes_drop k, Nat.sub_sub, Nat.mul_succ, Nat.add_comm]
    · have hnone : l - 8 * (k + 1) = 0 := by omega
      rw [maskBytes_of_lt (Nat.lt_of_not_le hfull), List.drop_succ_cons, maskBytes_drop k, Nat.zero_sub, hnone]

theorem maskBytes_take_all : ∀ (k len l : Nat), ((maskBytes (k + len) l).take k).all (· = 0xff) = decide (8 * k ≤ l)
  | 0, len, l => by simp
  | k + 1, len, l => by
    rw [Nat.add_right_comm]
    by_cases hfull : 8 ≤ l
    · rw [maskBytes_of_le hfull, List.take_succ_cons, List.all_cons, maskBytes_take_all k,
        decide_eq_true rfl, Bool.true_and]
      exact decide_eq_decide.2 (by omega)
    · have hne := (leadingOnes_last l (Nat.lt_of_not_le hfull)).1
      rw [maskBytes_of_lt (Nat.lt_of_not_le hfull), List.take_succ_cons, List.all_cons,
        decide_eq_false hne, Bool.false_and]
      exact (decide_eq_false (by omega)).symm

/-! ## Networks -/

/-- The networks that `ParseCIDR` and `CIDRMask` build: a prefix mask of the address's own family,
where an IPv4 address in its sixteen-byte form may carry a mask of either. -/
def IPNet.WellFormed (n : IPNet) : Prop :=
  (∃ p, n.ip.to4 = some p ∧ p.length = 4 ∧ ∃ l ≤ 32, n.mask = cidrMask l 32) ∨
    (n.ip.length = 16 ∧ ∃ l ≤ 128, n.mask = cidrMask l 128)

theorem cidrMask_32 {l : Nat} (hl : l ≤ 32) : cidrMask l 32 = maskBytes 4 l := if_pos ⟨.inl rfl, hl⟩

theorem cidrMask_128 {l : Nat} (hl : l ≤ 128) : cidrMask l 128 = maskBytes 16 l := if_pos ⟨.inr rfl, hl⟩

theorem cidrMask_length_32 (l : Nat) (hl : l ≤ 32) : (cidrMask l 32).length = 4 := by
  rw [cidrMask_32 hl, maskBytes_length]

theorem cidrMask_length_128 (l : Nat) (hl : l ≤ 128) : (cidrMask l 128).length = 16 := by
  rw [cidrMask_128 hl, maskBytes_length]

theorem simpleMaskLength_32 (l : Nat) (hl : l ≤ 32) : simpleMaskLength (cidrMask l 32) = some l := by
  rw [cidrMask_32 hl, simpleMaskLength_maskBytes hl]

theorem simpleMaskLength_128 (l : Nat) (hl : l ≤ 128) : simpleMaskLength (cidrMask l 128) = some l := by
  rw [cidrMask_128 hl, simpleMaskLength_maskBytes hl]

/-- The last four bytes of a sixteen-byte mask are the mask of what is left of the prefix after 96 bits. -/
theorem cidrMask_drop (l : Nat) (hl : l ≤ 128) : (cidrMask l 128).drop 12 = cidrMask (l - 96) 32 := by
  rw [cidrMask_128 hl, cidrMask_32 (by omega)]
  exact maskBytes_drop 12 4 l

theorem simpleMaskLength_128_drop (l : Nat) (hl : l ≤ 128) :
    simpleMaskLength ((cidrMask l 128).drop 12) = some (l - 96) := by
  rw [cidrMask_drop l hl, simpleMaskLength_32 _ (by omega)]

theorem to4_v4InV6 {p : IP} (h : p.length = 4) : IP.to4 (v4InV6Prefix ++ p) = some p := by
  have hl : (v4InV6Prefix ++ p).length = 16 := by rw [List.length_append, h]; rfl
  unfold IP.to4
  rw [if_neg (by omega), if_pos ⟨hl, List.take_left' rfl⟩, List.drop_left' (show v4InV6Prefix.length = 12 from rfl)]

theorem to4_self {p : IP} (h : p.length = 4) : IP.to4 p = some p := by
  unfold IP.to4; rw [if_pos h]

theorem to4_length {ip p : IP} (h : ip.to4 = some p) : p.length = 4 := by
  unfold IP.to4 at h
  split at h
  · cases h; assumption
  · split at h
    · rename_i hl; cases h; rw [List.length_drop, hl.1]
    · cases h

/-- `ParseCIDR` builds networks of the package. -/
theorem parseCIDR_wellFormed {s : List Char} {ip : IP} {m : IPMask} (h : parseCIDR s = some (ip, m)) :
    IPNet.WellFormed ⟨ip, m⟩ := by
  unfold parseCIDR at h
  obtain ⟨⟨addr, mask⟩, -, h⟩ := Option.bind_eq_some_iff.1 h
  simp only at h
  split at h
  · rename_i n c hn
    split at h
    · rename_i ip' hip
      split at h
      · rename_i hle
        cases h
        obtain ⟨p, hp, rfl⟩ := parseIPv4_shape hip
        exact .inl ⟨p, to4_v4InV6 hp, hp, n, hle, rfl⟩
      · cases h
    · split at h
      · rename_i ip' hip
        split at h
        · rename_i hle; cases h; exact .inr ⟨parseIPv6_length hip, n, hle, rfl⟩
        · cases h
      · cases h
  · cases h

theorem utoa_chars {n : Nat} (h : n < 1000) : ∀ c ∈ utoa n, c ≠ '/' := by
  obtain ⟨ds, hds, -, hlt, -, -⟩ := utoa_digits h
  have hd : ∀ d < 10, Nat.digitChar d ≠ '/' := by decide
  intro c hc
  rw [hds] at hc
  obtain ⟨d, hdm, rfl⟩ := List.mem_map.1 hc
  exact hd d (hlt d hdm)

theorem joinOctets_chars : ∀ (bs : List UInt8), ∀ c ∈ joinOctets bs, c ≠ '/'
  | [], c, hc => by cases hc
  | [b], c, hc => utoa_chars (by have := b.toNat_lt; omega) c hc
  | b :: b' :: bs, c, hc => by
    rw [joinOctets_cons (List.cons_ne_nil b' bs), List.mem_append, List.mem_cons] at hc
    rcases hc with hc | rfl | hc
    · exact utoa_chars (by have := b.toNat_lt; omega) c hc
    · decide
    · exact joinOctets_chars (b' :: bs) c hc

theorem cutSlash_append : ∀ {a b : List Char}, (∀ c ∈ a, c ≠ '/') → cutSlash (a ++ '/' :: b) = some (a, b)
  | [], b, _ => by simp [cutSlash]
  | c :: a, b, h => by
    rw [List.cons_append, cutSlash, if_neg (h c (List.mem_cons_self ..)),
      cutSlash_append fun x hx => h x (List.mem_cons_of_mem _ hx)]
    rfl

/-- A text with an IPv4 address. -/
theorem parseCIDR_v4 {p : IP} (hp : p.length = 4) {l : Nat} (hl : l ≤ 32) :
    parseCIDR (joinOctets p ++ '/' :: utoa l) = some (v4InV6Prefix ++ p, cidrMask l 32) := by
  obtain ⟨c, hc, -⟩ := dtoi_utoa (show l < 1000 by omega) (r := []) (by simp)
  rw [List.append_nil] at hc
  unfold parseCIDR
  rw [cutSlash_append (joinOctets_chars p), Option.bind_some]
  simp only [hc, parseIPv4_joinOctets hp, if_pos hl]

/-- A text with an IPv6 address. -/
theorem parseCIDR_v6 {ip : IP} (hip : ip.length = 16) {l : Nat} (hl : l ≤ 128) :
    parseCIDR (ipv6Chars (groups ip) ++ '/' :: utoa l) = some (ip, cidrMask l 128) := by
  obtain ⟨c, hc, -⟩ := dtoi_utoa (show l < 1000 by omega) (r := []) (by simp)
  rw [List.append_nil] at hc
  have hchars := ipv6Chars_chars (groups_lt ip)
  have h6 := parseIPv6_ipv6Chars (groups_length 8 ip hip) (groups_lt ip)
  have h4 : parseIPv4 (ipv6Chars (groups ip)) = none := by
    cases h : parseIPv4 (ipv6Chars (groups ip)) with
    | none => rfl
    | some ip' => exact absurd rfl (hchars '.' (dot_mem_of_parseIPv4 h)).1
  unfold parseCIDR
  rw [cutSlash_append fun c hc => (hchars c hc).2, Option.bind_some]
  simp only [hc, h4, h6, if_pos hl, bytesOf_groups 8 ip hip]

/-- The text of a network, by address family. -/
theorem chars_v4 {ip p : IP} (hp : ip.to4 = some p) {l : Nat} (hl : l ≤ 32) :
    IPNet.chars ⟨ip, cidrMask l 32⟩ = joinOctets p ++ '/' :: utoa l := by
  have h4 := to4_length hp
  unfold IPNet.chars networkNumberAndMask
  simp only [hp, cidrMask_length_32 l hl, if_true, simpleMaskLength_32 l hl]
  simp only [IP.chars, to4_self h4]

theorem chars_v4_mask16 {ip p : IP} (hp : ip.to4 = some p) {l : Nat} (hl : l ≤ 128) :
    IPNet.chars ⟨ip, cidrMask l 128⟩ = joinOctets p ++ '/' :: utoa (l - 96) := by
  have h4 := to4_length hp
  unfold IPNet.chars networkNumberAndMask
  simp only [hp, cidrMask_length_128 l hl, if_true, simpleMaskLength_128_drop l hl, show ¬ (16 : Nat) = 4 by decide,
    if_false]
  simp only [IP.chars, to4_self h4]

theorem chars_v6 {ip : IP} (hp : ip.to4 = none) (hip : ip.length = 16) {l : Nat} (hl : l ≤ 128) :
    IPNet.chars ⟨ip, cidrMask l 128⟩ = ipv6Chars (groups ip) ++ '/' :: utoa l := by
  unfold IPNet.chars networkNumberAndMask
  simp only [hp, hip, cidrMask_length_128 l hl, and_self, if_true, simpleMaskLength_128 l hl]
  simp only [IP.chars, hp]

/-- A network's text parses, and what it parses to has the same text. -/
theorem parseCIDR_chars {n : IPNet} (h : n.WellFormed) :
    ∃ ip m, parseCIDR n.chars = some (ip, m) ∧ IPNet.chars ⟨ip, m⟩ = n.chars := by
  obtain ⟨ip, mask⟩ := n
  rcases h with ⟨p, hp, h4, l, hl, rfl⟩ | ⟨hip, l, hl, rfl⟩
  · refine ⟨v4InV6Prefix ++ p, cidrMask l 32, ?_, ?_⟩
    · rw [chars_v4 hp hl, parseCIDR_v4 h4 hl]
    · rw [chars_v4 hp hl, chars_v4 (to4_v4InV6 h4) hl]
  · simp only at hip
    cases hp : ip.to4 with
    | none =>
      refine ⟨ip, cidrMask l 128, ?_, rfl⟩
      rw [chars_v6 hp hip hl, parseCIDR_v6 hip hl]
    | some p =>
      -- the mask loses its first 96 bits with the address prefix it covered
      have h4 := to4_length hp
      refine ⟨v4InV6Prefix ++ p, cidrMask (l - 96) 32, ?_, ?_⟩
      · rw [chars_v4_mask16 hp hl, parseCIDR_v4 h4 (by omega)]
      · rw [chars_v4_mask16 hp hl, chars_v4 (to4_v4InV6 h4) (by omega)]

end Wig.Net
