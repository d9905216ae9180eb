/-
The text a time is stored as, `2006-01-02 15:04:05.999999999-07:00` in the zone of the value, and how
SQLite compares two of them. The texts are ASCII, so that comparing bytes is comparing characters. They
have the order of the clocks of their zones, not of the instants.
-/
import Wig.Lib.Lexical
import Wig.Model.Basic

namespace Wig

open Wig.Lib

/-! ## The calendar -/

/-- The days from the first of year 1 to the first of a year. -/
def yearStart (year : Int) : Int := 365 * (year - 1) + (year - 1) / 4 - (year - 1) / 100 + (year - 1) / 400

/-- The year of a day, by its cycles of 400, 100, 4 years and one. -/
def yearOf (day : Int) : Int :=
  let d := day % 146097
  let centuries := min (d / 36524) 3
  let d := d - 36524 * centuries
  let olympiads := d / 1461
  let d := d - 1461 * olympiads
  400 * (day / 146097) + 100 * centuries + 4 * olympiads + min (d / 365) 3 + 1

def isLeap (year : Int) : Bool := year % 4 = 0 ∧ (year % 100 ≠ 0 ∨ year % 400 = 0)

/-- The days of the year before a month, counted from 0. -/
def daysBefore (leap : Bool) (month : Nat) : Nat :=
  [0, 31, 59, 90, 120, 151, 181, 212, 243, 273, 304, 334].getD month 365 + if leap ∧ 2 ≤ month then 1 else 0

/-- The month of a day of the year, both counted from 0. -/
def monthOf (leap : Bool) (yday : Nat) : Nat :=
  ((List.range 11).filter fun month => daysBefore leap (month + 1) ≤ yday).length

theorem yearStart_cycles {c a b e : Int} (ha : 0 ≤ a ∧ a ≤ 3) (hb : 0 ≤ b ∧ b ≤ 24) (he : 0 ≤ e ∧ e ≤ 3) :
    yearStart (400 * c + 100 * a + 4 * b + e + 1) = 146097 * c + 36524 * a + 1461 * b + 365 * e := by
  have h4 : (400 * c + 100 * a + 4 * b + e) / 4 = 100 * c + 25 * a + b := by omega
  have h100 : (400 * c + 100 * a + 4 * b + e) / 100 = 4 * c + a := by omega
  have h400 : (400 * c + 100 * a + 4 * b + e) / 400 = c := by omega
  unfold yearStart
  rw [Int.add_sub_cancel, h4, h100, h400]
  ring

theorem yearOf_spec (day : Int) : yearStart (yearOf day) ≤ day ∧ day < yearStart (yearOf day + 1) := by
  unfold yearOf
  simp only
  generalize hd : day % 146097 = d
  generalize hc : day / 146097 = c
  generalize ha : min (d / 36524) 3 = a
  generalize hb : (d - 36524 * a) / 1461 = b
  generalize he : min ((d - 36524 * a - 1461 * b) / 365) 3 = e
  have hday : day = 146097 * c + d := by omega
  have hd' : 0 ≤ d ∧ d < 146097 := by omega
  have ha' : 0 ≤ a ∧ a ≤ 3 := by omega
  have hb' : 0 ≤ b ∧ b ≤ 24 := by omega
  have he' : 0 ≤ e ∧ e ≤ 3 := by omega
  refine ⟨by rw [yearStart_cycles ha' hb' he']; omega, ?_⟩
  -- the next year is in the same four years, or begins the next four, the next century or the next cycle
  by_cases h1 : e < 3
  · have hnext := yearStart_cycles (c := c) ha' hb' (e := e + 1) (by omega)
    rw [← add_assoc] at hnext
    omega
  · by_cases h4 : b < 24
    · have hnext := yearStart_cycles (c := c) ha' (b := b + 1) (by omega) (e := 0) (by omega)
      rw [show 400 * c + 100 * a + 4 * (b + 1) + 0 + 1 = 400 * c + 100 * a + 4 * b + e + 1 + 1 by omega] at hnext
      omega
    · by_cases h100 : a < 3
      · have hnext := yearStart_cycles (c := c) (a := a + 1) (by omega) (b := 0) (by omega) (e := 0) (by omega)
        rw [show 400 * c + 100 * (a + 1) + 4 * 0 + 0 + 1 = 400 * c + 100 * a + 4 * b + e + 1 + 1 by omega] at hnext
        omega
      · have hnext := yearStart_cycles (c := c + 1) (a := 0) (by omega) (b := 0) (by omega) (e := 0) (by omega)
        rw [show 400 * (c + 1) + 100 * 0 + 4 * 0 + 0 + 1 = 400 * c + 100 * a + 4 * b + e + 1 + 1 by omega] at hnext
        omega

theorem yearStart_le {y z : Int} (h : y < z) : yearStart (y + 1) ≤ yearStart z := by
  unfold yearStart
  omega

theorem yearStart_succ (year : Int) : yearStart (year + 1) = yearStart year + 365 + (isLeap year).toNat := by
  -- each of the three counts goes up in the years that its number divides
  have h4 : year / 4 = (year - 1) / 4 + if year % 4 = 0 then 1 else 0 := by split <;> omega
  have h100 : year / 100 = (year - 1) / 100 + if year % 100 = 0 then 1 else 0 := by split <;> omega
  have h400 : year / 400 = (year - 1) / 400 + if year % 400 = 0 then 1 else 0 := by split <;> omega
  have hcentury : year % 400 = 0 → year % 100 = 0 := by omega
  have hfour : year % 100 = 0 → year % 4 = 0 := by omega
  unfold yearStart isLeap
  rw [Int.add_sub_cancel, h4, h100, h400]
  by_cases hy400 : year % 400 = 0
  · simp [hy400, hcentury hy400, hfour (hcentury hy400)]
    ring
  by_cases hy100 : year % 100 = 0
  · simp [hy400, hy100, hfour hy100]
    ring
  by_cases hy4 : year % 4 = 0
  · simp [hy400, hy100, hy4]
    ring
  · simp [hy400, hy100, hy4]
    ring

theorem daysBefore_of_ge (leap : Bool) {m : Nat} (h : 12 ≤ m) : daysBefore leap m = 365 + leap.toNat := by
  unfold daysBefore
  rw [List.getD_eq_getElem?_getD, List.getElem?_eq_none h, Option.getD_none]
  cases leap <;> simp [show 2 ≤ m by omega]

theorem daysBefore_le (leap : Bool) {i j : Nat} (h : i < j) : daysBefore leap (i + 1) ≤ daysBefore leap j := by
  refine monotone_nat_of_le_succ (fun m => ?_) h
  by_cases hm : m < 12
  · revert leap m
    decide
  · rw [daysBefore_of_ge leap (by omega), daysBefore_of_ge leap (by omega)]

theorem daysBefore_succ_le : ∀ leap : Bool, ∀ month < 12, daysBefore leap (month + 1) ≤ daysBefore leap month + 31 := by
  decide

theorem monthOf_spec (leap : Bool) (yday : Nat) (h : yday < 365 + leap.toNat) :
    daysBefore leap (monthOf leap yday) ≤ yday ∧ yday < daysBefore leap (monthOf leap yday + 1) ∧
      monthOf leap yday < 12 ∧
      yday < daysBefore leap (monthOf leap yday) + 31 := by
  have hcell : monthOf leap yday ≤ 11 ∧ daysBefore leap (monthOf leap yday) ≤ yday ∧
      (monthOf leap yday < 11 → yday < daysBefore leap (monthOf leap yday + 1)) :=
    cell_of_count (daysBefore_le leap) (show daysBefore leap 0 ≤ yday by cases leap <;> exact Nat.zero_le _) 11
  obtain ⟨hmonth, hlow, hnext⟩ := hcell
  have hhigh : yday < daysBefore leap (monthOf leap yday + 1) := by
    rcases hmonth.lt_or_eq with hlt | heq
    · exact hnext hlt
    · rw [heq, daysBefore_of_ge leap le_rfl]
      exact h
  have hdays := daysBefore_succ_le leap (monthOf leap yday) (by omega)
  exact ⟨hlow, hhigh, by omega, by omega⟩

/-! ## The text -/

/-- The clock of the value's zone, in nanoseconds from the first instant of year 1. -/
def Time.wall (t : Time) : Int := t.unixNano + t.offset * 10 ^ 9 - Time.zero.unixNano

/-- A number with zeros in front up to a width. -/
def appendInt (x : Int) (width : Nat) : List Char :=
  (if x < 0 then ['-'] else []) ++ if x.natAbs < 10 ^ width then digits width x.natAbs else Nat.toDigits 10 x.natAbs

/-- `2006-01-02`, for a day counted from the first of year 1. -/
def dateText (day : Int) : List Char :=
  let year := yearOf day
  let yday := (day - yearStart year).toNat
  let month := monthOf (isLeap year) yday
  appendInt year 4 ++ '-' :: (digits 2 (month + 1) ++ '-' :: digits 2 (yday - daysBefore (isLeap year) month + 1))

/-- `15:04:05`, for a second of the day. -/
def clockText (sec : Nat) : List Char :=
  digits 2 (sec / 3600) ++ ':' :: (digits 2 (sec / 60 % 60) ++ ':' :: digits 2 (sec % 60))

/-- `.999999999`: no zeros at the end, and no point without digits. -/
def fractionText (nanos : Nat) : List Char := if nanos = 0 then [] else '.' :: trimEnd '0' (digits 9 nanos)

/-- `-07:00`; the offset is cut down to minutes. -/
def zoneText (offset : Int) : List Char :=
  let zone := offset.tdiv 60
  (if zone < 0 then '-' else '+') :: (appendInt (zone.natAbs / 60 : Nat) 2 ++ ':' :: digits 2 (zone.natAbs % 60))

def Time.text (t : Time) : List Char :=
  dateText (t.wall / (86400 * 10 ^ 9)) ++ ' ' ::
    (clockText (t.wall / 10 ^ 9 % 86400).toNat ++ (fractionText (t.wall % 10 ^ 9).toNat ++ zoneText t.offset))

example : Time.zero.text = "0001-01-01 00:00:00+00:00".toList := by decide +kernel

example : (Time.mk 1709210096120000000 (-16200)).text = "2024-02-29 08:04:56.12-04:30".toList := by decide +kernel

/-! ## The order of texts -/

/-- The times whose text has four digits for the year and two for the hours of the zone. -/
structure Time.Dated (t : Time) : Prop where
  year : 0 ≤ yearOf (t.wall / (86400 * 10 ^ 9)) ∧ yearOf (t.wall / (86400 * 10 ^ 9)) < 10000
  zone : (t.offset.tdiv 60).natAbs < 6000

/-- Where the text of a zone stands among those of all zones: the ones with a plus come first. -/
def zoneRank (offset : Int) : Int := if offset.tdiv 60 < 0 then 6000 - offset.tdiv 60 else offset.tdiv 60

/-- The clock of the one zone shows an earlier time than that of the other. -/
def Time.WrittenBefore (t u : Time) : Prop := t.wall < u.wall ∨ t.wall = u.wall ∧ zoneRank t.offset < zoneRank u.offset

theorem cons_lt_cons_self {c : Char} {x y : List Char} : c :: x < c :: y ↔ x < y := by
  rw [List.cons_lt_cons_iff]
  simp

theorem appendInt_of_lt {x : Int} {width : Nat} (h : 0 ≤ x) (hx : x.natAbs < 10 ^ width) :
    appendInt x width = digits width x.natAbs := by
  unfold appendInt
  rw [if_neg (by omega), if_pos hx, List.nil_append]

theorem monthDay_lex {leap : Bool} {a b : Nat} (ha : a < 365 + leap.toNat) (hb : b < 365 + leap.toNat) {P : Prop} :
    (monthOf leap a + 1 < monthOf leap b + 1 ∨ monthOf leap a + 1 = monthOf leap b + 1 ∧
      (a - daysBefore leap (monthOf leap a) + 1 < b - daysBefore leap (monthOf leap b) + 1 ∨
        a - daysBefore leap (monthOf leap a) + 1 = b - daysBefore leap (monthOf leap b) + 1 ∧
          P)) ↔ a < b ∨ a = b ∧ P := by
  obtain ⟨hlow, hhigh, -⟩ := monthOf_spec leap a ha
  obtain ⟨hlow', hhigh', -⟩ := monthOf_spec leap b hb
  rw [lex_iff_of_cells (daysBefore_le leap) ⟨hlow, hhigh⟩ ⟨hlow', hhigh'⟩, Nat.add_lt_add_iff_right,
    Nat.add_right_cancel_iff]
  refine or_congr_right (and_congr_right fun heq => ?_)
  rw [heq] at hlow ⊢
  rw [Nat.add_lt_add_iff_right, Nat.add_right_cancel_iff, Nat.sub_lt_sub_iff_right hlow, tsub_left_inj hlow hlow']

theorem dateText_append_lt {d e : Int} {x y : List Char} (hd : 0 ≤ yearOf d ∧ yearOf d < 10000)
    (he : 0 ≤ yearOf e ∧ yearOf e < 10000) : dateText d ++ x < dateText e ++ y ↔ d < e ∨ d = e ∧ x < y := by
  have hyear := yearOf_spec d
  have hyear' := yearOf_spec e
  have hsucc := yearStart_succ (yearOf d)
  have hsucc' := yearStart_succ (yearOf e)
  have hyday : (d - yearStart (yearOf d)).toNat < 365 + (isLeap (yearOf d)).toNat := by omega
  have hyday' : (e - yearStart (yearOf e)).toNat < 365 + (isLeap (yearOf e)).toNat := by omega
  have hmonth := monthOf_spec _ _ hyday
  have hmonth' := monthOf_spec _ _ hyday'
  unfold dateText
  simp only [List.append_assoc, List.cons_append]
  rw [appendInt_of_lt hd.1 (by omega), appendInt_of_lt he.1 (by omega),
    digits_append_lt (by omega) (by omega), cons_lt_cons_self,
    digits_append_lt (by omega) (by omega), cons_lt_cons_self, digits_append_lt (by omega) (by omega),
    lex_iff_of_cells yearStart_le hyear hyear']
  have hlt : (yearOf d).natAbs < (yearOf e).natAbs ↔ yearOf d < yearOf e := by omega
  have heq : (yearOf d).natAbs = (yearOf e).natAbs ↔ yearOf d = yearOf e := by omega
  rw [hlt, heq]
  refine or_congr_right (and_congr_right fun hsame => ?_)
  rw [← hsame] at hyday' hyear' ⊢
  rw [monthDay_lex hyday hyday']
  have hlt : (d - yearStart (yearOf d)).toNat < (e - yearStart (yearOf d)).toNat ↔ d < e := by omega
  have heq : (d - yearStart (yearOf d)).toNat = (e - yearStart (yearOf d)).toNat ↔ d = e := by omega
  rw [hlt, heq]

theorem clockText_append_lt {s r : Nat} {x y : List Char} (hs : s < 86400) (hr : r < 86400) :
    clockText s ++ x < clockText r ++ y ↔ s < r ∨ s = r ∧ x < y := by
  unfold clockText
  simp only [List.append_assoc, List.cons_append]
  rw [digits_append_lt (by omega) (by omega), cons_lt_cons_self,
    digits_append_lt (by omega) (by omega), cons_lt_cons_self, digits_append_lt (by omega) (by omega)]
  constructor
  · rintro (h | ⟨h, h' | ⟨h', h'' | ⟨h'', hxy⟩⟩⟩)
    · exact .inl (by omega)
    · exact .inl (by omega)
    · exact .inl (by omega)
    · exact .inr ⟨by omega, hxy⟩
  · rintro (h | ⟨rfl, hxy⟩)
    · omega
    · simp [hxy]

theorem headBelow_zoneText (offset : Int) : HeadBelow '.' (zoneText offset) := by
  unfold zoneText
  refine ⟨_, _, rfl, ?_⟩
  split <;> decide

theorem fractionText_append_lt {n m : Nat} {x y : List Char} (hn : n < 10 ^ 9) (hm : m < 10 ^ 9) (hx : HeadBelow '.' x)
    (hy : HeadBelow '.' y) : fractionText n ++ x < fractionText m ++ y ↔ n < m ∨ n = m ∧ x < y := by
  unfold fractionText
  by_cases hn0 : n = 0 <;> by_cases hm0 : m = 0
  · simp [hn0, hm0]
  · rw [if_pos hn0, if_neg hm0]
    exact iff_of_true (hx.lt_cons le_rfl) (.inl (by omega))
  · rw [if_neg hn0, if_pos hm0]
    exact iff_of_false (List.lt_asymm (hy.lt_cons le_rfl)) (by omega)
  · have hzero : '.' ≤ '0' := by decide
    rw [if_neg hn0, if_neg hm0, List.cons_append, List.cons_append, cons_lt_cons_self,
      trimEnd_append_lt (hx.mono hzero) (hy.mono hzero) (by simp) (fun _ => zero_le_of_mem_digits)
        (fun _ => zero_le_of_mem_digits),
      digits_lt hn hm, digits_inj hn hm]

theorem zoneText_lt {a b : Int} (ha : (a.tdiv 60).natAbs < 6000) (hb : (b.tdiv 60).natAbs < 6000) :
    zoneText a < zoneText b ↔ zoneRank a < zoneRank b := by
  unfold zoneText zoneRank
  generalize a.tdiv 60 = z at ha ⊢
  generalize b.tdiv 60 = z' at hb ⊢
  simp only
  rw [List.cons_lt_cons_iff, appendInt_of_lt (by omega) (by omega), appendInt_of_lt (by omega) (by omega),
    digits_append_lt (by omega) (by omega), cons_lt_cons_self, digits_lt (by omega) (by omega)]
  by_cases hz : z < 0 <;> by_cases hz' : z' < 0
  · simp only [hz, hz', if_true, lt_self_iff_false, false_or, true_and]
    omega
  · rw [if_pos hz, if_neg hz', if_pos hz, if_neg hz']
    refine iff_of_false ?_ (by omega)
    rintro (h | ⟨h, -⟩)
    · exact absurd h (by decide)
    · cases h
  · rw [if_neg hz, if_pos hz', if_neg hz, if_pos hz']
    exact iff_of_true (.inl (by decide)) (by omega)
  · simp only [hz, hz', if_false, lt_self_iff_false, false_or, true_and]
    omega

/-- SQLite compares two stored times by what their clocks show. -/
theorem Time.text_lt_iff {t u : Time} (ht : t.Dated) (hu : u.Dated) : t.text < u.text ↔ t.WrittenBefore u := by
  unfold Time.text Time.WrittenBefore
  rw [dateText_append_lt ht.year hu.year, cons_lt_cons_self, clockText_append_lt (by omega) (by omega),
    fractionText_append_lt (by omega) (by omega) (headBelow_zoneText _) (headBelow_zoneText _),
    zoneText_lt ht.zone hu.zone]
  by_cases hrank : zoneRank t.offset < zoneRank u.offset
  · simp only [hrank, and_true]
    omega
  · simp only [hrank, and_false, or_false]
    omega

end Wig
