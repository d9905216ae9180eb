/-
Collecting what a function gives on each element of a list, up to the first error.
-/
import Mathlib.Tactic
import Mathlib.Data.List.Forall2

namespace Wig.Lib

variable {α β ε : Type} {f : α → Except ε β}

/-- A list of results was collected if each of them is the result on its element. -/
theorem mapM_eq_ok_iff : ∀ {l : List α} {bs : List β}, l.mapM f = .ok bs ↔ List.Forall₂ (fun a b => f a = .ok b) l bs
  | [], bs => by
    rw [List.mapM_nil, List.forall₂_nil_left_iff]
    exact ⟨fun h => by cases h; rfl, fun h => by rw [h]; rfl⟩
  | a :: l, bs => by
    rw [List.mapM_cons, List.forall₂_cons_left_iff]
    constructor
    · intro h
      cases ha : f a with
      | error e => rw [ha] at h; cases h
      | ok b =>
        cases hl : l.mapM f with
        | error e => rw [ha, hl] at h; cases h
        | ok bs' => rw [ha, hl] at h; cases h; exact ⟨b, bs', rfl, mapM_eq_ok_iff.1 hl, rfl⟩
    · rintro ⟨b, bs', ha, hl, rfl⟩
      rw [ha, mapM_eq_ok_iff.2 hl]
      rfl

theorem exists_forall₂ {R : α → β → Prop} : ∀ {l : List α}, (∀ a ∈ l, ∃ b, R a b) → ∃ bs, List.Forall₂ R l bs
  | [], _ => ⟨[], .nil⟩
  | a :: l, h => by
    obtain ⟨⟨b, hb⟩, hl⟩ := List.forall_mem_cons.1 h
    obtain ⟨bs, hbs⟩ := exists_forall₂ hl
    exact ⟨b :: bs, .cons hb hbs⟩

theorem forall₂_left {R : α → β → Prop} {l : List α} {bs : List β} (h : List.Forall₂ R l bs) : ∀ a ∈ l, ∃ b, R a b := by
  induction h with
  | nil => exact fun a ha => (List.not_mem_nil ha).elim
  | cons hab _ ih => exact List.forall_mem_cons.2 ⟨⟨_, hab⟩, ih⟩

/-- Results can be collected just if there is one on each element. -/
theorem exists_mapM_ok_iff {l : List α} : (∃ bs, l.mapM f = .ok bs) ↔ ∀ a ∈ l, ∃ b, f a = .ok b :=
  ⟨fun ⟨_, h⟩ => forall₂_left (mapM_eq_ok_iff.1 h), fun h => (exists_forall₂ h).imp fun _ hbs => mapM_eq_ok_iff.2 hbs⟩

/-- Where each element has a result that is related to it, those are collected. -/
theorem exists_mapM_forall₂ {R : α → β → Prop} {l : List α} (h : ∀ a ∈ l, ∃ b, f a = .ok b ∧ R a b) :
    ∃ bs, l.mapM f = .ok bs ∧ List.Forall₂ R l bs := by
  obtain ⟨bs, hbs⟩ := exists_forall₂ h
  exact ⟨bs, mapM_eq_ok_iff.2 (hbs.imp fun _ _ => And.left), hbs.imp fun _ _ => And.right⟩

theorem mapM_eq_map {g : α → β} {l : List α} (h : ∀ a ∈ l, f a = .ok (g a)) : l.mapM f = .ok (l.map g) :=
  mapM_eq_ok_iff.2 (List.forall₂_map_right_iff.2 (List.forall₂_same.2 h))

/-- Related elements with the same image give the same list of images. -/
theorem map_eq_of_forall₂ {κ : Type} {R : α → β → Prop} {g : α → κ} {g' : β → κ} {l : List α} {bs : List β}
    (hg : ∀ a b, R a b → g a = g' b) (h : List.Forall₂ R l bs) : l.map g = bs.map g' := by
  induction h with
  | nil => rfl
  | cons hab _ ih => rw [List.map_cons, List.map_cons, hg _ _ hab, ih]

end Wig.Lib
