/-
URLs made of segments. `JoinURL` puts one slash between two parts, whether or not the first ends and the second begins
with one.
-/
import Mathlib.Tactic

namespace Wig.Httptransport

/-! ## The code -/

/-- `strings.HasSuffix(out, "/")`. -/
def hasSlash (out : String) : Bool := out.toList.getLast? = some '/'

/-- `strings.TrimPrefix(part, "/")`. -/
def trimSlash (part : String) : String :=
  match part.toList with
  | '/' :: rest => String.ofList rest
  | _ => part

/-- The body of the loop. -/
def joinPart (out part : String) : String := (if hasSlash out then out else out ++ "/") ++ trimSlash part

/-- `JoinURL`, which has a first part. -/
def joinURL (first : String) (parts : List String) : String := parts.foldl joinPart first

example : joinURL "http://localhost:5005/" ["/api/v1", "peer"] = "http://localhost:5005/api/v1/peer" := by decide

/-! ## One slash -/

/-- A text without its trailing slash. -/
def withoutSlash (u : String) : String := if hasSlash u then String.ofList u.toList.dropLast else u

theorem hasSlash_iff {u : String} : hasSlash u = true ↔ ∃ b, u = b ++ "/" := by
  unfold hasSlash
  rw [decide_eq_true_iff, List.getLast?_eq_some_iff]
  constructor
  · rintro ⟨b, hb⟩
    refine ⟨String.ofList b, ?_⟩
    rw [← String.toList_inj, String.toList_append, String.toList_ofList, hb]
    rfl
  · rintro ⟨b, rfl⟩
    exact ⟨b.toList, String.toList_append⟩

theorem withoutSlash_append_slash (b : String) : withoutSlash (b ++ "/") = b := by
  have hslash : hasSlash (b ++ "/") = true := hasSlash_iff.2 ⟨b, rfl⟩
  rw [withoutSlash, if_pos hslash, String.toList_append]
  simp

theorem withoutSlash_of_not {u : String} (h : hasSlash u = false) : withoutSlash u = u := by
  rw [withoutSlash, h, if_neg Bool.false_ne_true]

theorem joinPart_eq (out part : String) : joinPart out part = withoutSlash out ++ "/" ++ trimSlash part := by
  unfold joinPart
  cases h : hasSlash out with
  | false => rw [if_neg Bool.false_ne_true, withoutSlash_of_not h]
  | true =>
    obtain ⟨b, rfl⟩ := hasSlash_iff.1 h
    rw [if_pos rfl, withoutSlash_append_slash]

theorem hasSlash_append {s : String} (h : s ≠ "") (u : String) : hasSlash (u ++ s) = hasSlash s := by
  have hne : s.toList ≠ [] := fun hnil => h (String.toList_eq_nil_iff.1 hnil)
  rw [hasSlash, hasSlash, String.toList_append, List.getLast?_append_of_ne_nil _ hne]

/-! ## Segments -/

/-- A name between two slashes. -/
structure PathSegment (s : String) : Prop where
  nonempty : s ≠ ""
  free : '/' ∉ s.toList

namespace PathSegment

variable {s : String}

theorem trimSlash_eq (h : PathSegment s) : trimSlash s = s := by
  unfold trimSlash
  split
  · rename_i rest hs
    exact absurd (hs ▸ List.mem_cons_self) h.free
  · rfl

theorem hasSlash_eq (h : PathSegment s) : hasSlash s = false := by
  rw [Bool.eq_false_iff]
  intro hslash
  obtain ⟨b, rfl⟩ := hasSlash_iff.1 hslash
  refine h.free ?_
  rw [String.toList_append]
  exact List.mem_append_right _ (List.mem_singleton_self '/')

/-- Nothing is trimmed behind a segment. -/
theorem withoutSlash_append (h : PathSegment s) (u : String) : withoutSlash (u ++ s) = u ++ s :=
  withoutSlash_of_not ((hasSlash_append h.nonempty u).trans h.hasSlash_eq)

theorem joinPart_eq (h : PathSegment s) (u : String) : joinPart u s = withoutSlash u ++ "/" ++ s := by
  rw [Httptransport.joinPart_eq, h.trimSlash_eq]

end PathSegment

/-- A path from the root, that does not end in a slash. -/
structure RootedPath (p : String) : Prop where
  root : "/" ++ trimSlash p = p
  noSlash : hasSlash p = false

namespace RootedPath

variable {p : String}

theorem joinURL_eq (h : RootedPath p) (u : String) : joinURL u [p] = withoutSlash u ++ p := by
  show joinPart u p = _
  rw [joinPart_eq, String.append_assoc, h.root]

theorem withoutSlash_append (h : RootedPath p) (u : String) : withoutSlash (u ++ p) = u ++ p := by
  have hne : p ≠ "" := by
    rintro rfl
    exact absurd h.root (by decide)
  exact withoutSlash_of_not ((hasSlash_append hne u).trans h.noSlash)

end RootedPath

end Wig.Httptransport
