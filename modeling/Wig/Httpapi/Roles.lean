/-
The role specification of TLS clients, against what it stands for: each segment gives the roles of a common name,
which is what stands before the first `=` of the segment, and the last segment with a name decides.
-/
import Wig.Httpapi.Mtls

namespace Wig.Httpapi

open Wig.Lib

/-! ## Segments -/

/-- What stands before the first `=`. -/
def commonNameOf (seg : String) : String := String.ofList (seg.toList.takeWhile (· ≠ '='))

/-- The roles behind it. -/
def rolesOf (seg : String) : List String := (String.ofList (seg.toList.dropWhile (· ≠ '=')).tail).splitOn ","

/-- A segment is a name without `=`, the first `=`, and the text of the roles. -/
structure Segment (seg name roles : String) : Prop where
  text : seg.toList = name.toList ++ '=' :: roles.toList
  free : '=' ∉ name.toList

theorem exists_segment {seg : String} (h : '=' ∈ seg.toList) : ∃ name roles, Segment seg name roles := by
  obtain ⟨name, roles, htext, hfree⟩ := List.eq_append_cons_of_mem h
  exact ⟨String.ofList name, String.ofList roles, by simpa using htext, by simpa using hfree⟩

namespace Segment

variable {seg name roles : String}

theorem mem (h : Segment seg name roles) : '=' ∈ seg.toList := by
  rw [h.text]
  exact List.mem_append_right _ List.mem_cons_self

theorem before (h : Segment seg name roles) : ∀ c ∈ name.toList, decide (c ≠ '=') = true :=
  fun _ hc => decide_eq_true fun he => h.free (he ▸ hc)

theorem commonNameOf_eq (h : Segment seg name roles) : commonNameOf seg = name := by
  rw [commonNameOf, h.text, List.takeWhile_append_of_pos h.before]
  simp

theorem rolesOf_eq (h : Segment seg name roles) : rolesOf seg = roles.splitOn "," := by
  rw [rolesOf, h.text, List.dropWhile_append_of_pos h.before]
  simp

/-- `SplitN` cuts at the first `=` only: the rest of the text is joined again. -/
theorem splitSpec_eq (h : Segment seg name roles) : splitSpec seg = some (name, roles) := by
  have hparts : seg.splitOn "=" = name :: roles.splitOn "=" := by
    have hchars := splitOn_char '=' seg
    rw [h.text, List.splitOn_append_cons_self_of_not_mem h.free, List.map_cons, String.ofList_toList,
      ← splitOn_char] at hchars
    exact hchars
  have hjoin : "=".intercalate (roles.splitOn "=") = roles := intercalate_splitOn '=' roles
  obtain ⟨first, rest, hrest⟩ := List.exists_cons_of_ne_nil (splitOn_ne_nil '=' roles)
  have hroles : roles.splitOn "=" = first :: rest := hrest
  rw [hroles] at hparts hjoin
  simp only [splitSpec, hparts, hjoin]

end Segment

theorem splitSpec_of_not_mem {seg : String} (h : '=' ∉ seg.toList) : splitSpec seg = none := by
  have hparts : seg.splitOn "=" = [seg] := by
    have hchars := splitOn_char '=' seg
    rw [List.splitOn_eq_singleton h, List.map_singleton, String.ofList_toList] at hchars
    exact hchars
  simp only [splitSpec, hparts]

theorem addSpec_eq (m : RoleMap) (seg : String) : addSpec m seg =
    if '=' ∈ seg.toList then
      .ok (Function.update m (commonNameOf seg) (some (rolesOf seg))) else .error .syntaxError := by
  split_ifs with h
  · obtain ⟨name, roles, hseg⟩ := exists_segment h
    rw [addSpec, hseg.splitSpec_eq, hseg.commonNameOf_eq, hseg.rolesOf_eq]
  · rw [addSpec, splitSpec_of_not_mem h]

/-! ## The map of a specification -/

def addSegment (m : RoleMap) (seg : String) : RoleMap := Function.update m (commonNameOf seg) (some (rolesOf seg))

def specMap (segs : List String) : RoleMap := segs.foldl addSegment fun _ => none

/-- A loop that stops at the first bad segment: without one it is the loop over the map alone. -/
theorem foldlM_addSpec : ∀ (segs : List String) (m : RoleMap), segs.foldlM addSpec m =
    if ∀ seg ∈ segs, '=' ∈ seg.toList then .ok (segs.foldl addSegment m) else .error .syntaxError
  | [], _ => by simp; rfl
  | seg :: segs, m => by
    rw [List.foldlM_cons, addSpec_eq]
    by_cases hseg : '=' ∈ seg.toList
    · have hall : (∀ s ∈ seg :: segs, '=' ∈ s.toList) ↔ ∀ s ∈ segs, '=' ∈ s.toList := by simp [hseg]
      rw [if_pos hseg, if_congr hall rfl rfl]
      exact foldlM_addSpec segs (addSegment m seg)
    · rw [if_neg hseg, if_neg fun hall => hseg (hall seg List.mem_cons_self)]
      rfl

theorem newTLSAuthn_eq (s : String) : newTLSAuthn s =
    if ∀ seg ∈ s.splitOn ";", '=' ∈ seg.toList then .ok (specMap (s.splitOn ";")) else .error .syntaxError :=
  foldlM_addSpec _ _

/-- A segment is the last that has the name. -/
structure LastFor (name : String) (segs : List String) (seg : String) : Prop where
  named : commonNameOf seg = name
  last : ∃ before after, segs = before ++ seg :: after ∧ ∀ later ∈ after, commonNameOf later ≠ name

theorem LastFor.mem {name : String} {segs : List String} {seg : String} (h : LastFor name segs seg) : seg ∈ segs := by
  obtain ⟨before, after, rfl, _⟩ := h.last
  exact List.mem_append_right _ List.mem_cons_self

theorem exists_lastFor {name : String} : ∀ {segs : List String}, (∃ seg ∈ segs, commonNameOf seg = name) →
    ∃ seg, LastFor name segs seg
  | [], ⟨_, hmem, _⟩ => absurd hmem List.not_mem_nil
  | first :: segs, ⟨seg, hmem, hname⟩ => by
    by_cases hlater : ∃ later ∈ segs, commonNameOf later = name
    · obtain ⟨last, hnamed, before, after, rfl, hafter⟩ := exists_lastFor hlater
      exact ⟨last, hnamed, first :: before, after, rfl, hafter⟩
    · have hnone : ∀ later ∈ segs, commonNameOf later ≠ name := fun later hl he => hlater ⟨later, hl, he⟩
      rcases List.mem_cons.1 hmem with rfl | hmem
      · exact ⟨seg, hname, [], segs, rfl, hnone⟩
      · exact absurd hname (hnone seg hmem)

/-- Segments of other names leave the roles of a name as they are. -/
theorem foldl_addSegment_of_ne {name : String} : ∀ {segs : List String} (m : RoleMap),
    (∀ seg ∈ segs, commonNameOf seg ≠ name) → segs.foldl addSegment m name = m name
  | [], _, _ => rfl
  | seg :: segs, m, h => by
    have hne : name ≠ commonNameOf seg := (h seg List.mem_cons_self).symm
    rw [List.foldl_cons, foldl_addSegment_of_ne _ fun later hl => h later (List.mem_cons_of_mem _ hl)]
    exact Function.update_of_ne hne _ _

theorem LastFor.specMap_eq {name : String} {segs : List String} {seg : String} (h : LastFor name segs seg) :
    specMap segs name = some (rolesOf seg) := by
  obtain ⟨rfl, before, after, rfl, hafter⟩ := h
  rw [specMap, List.foldl_append, List.foldl_cons, foldl_addSegment_of_ne _ hafter]
  exact Function.update_self ..

theorem specMap_eq_none {name : String} {segs : List String} (h : ∀ seg ∈ segs, commonNameOf seg ≠ name) :
    specMap segs name = none :=
  foldl_addSegment_of_ne _ h

/-! ## Writing a map -/

def roleSegment (name : String) (roles : List String) : String := name ++ "=" ++ ",".intercalate roles

def roleSpec (entries : List (String × List String)) : String :=
  ";".intercalate (entries.map fun e => roleSegment e.1 e.2)

/-- Entries in some order are those of the map, which the separators do not get in the way of. -/
structure RoleMap.Lists (m : RoleMap) (entries : List (String × List String)) : Prop where
  mem_iff : ∀ name roles, (name, roles) ∈ entries ↔ m name = some roles
  nonempty : entries ≠ []
  names : ∀ e ∈ entries, '=' ∉ e.1.toList ∧ ';' ∉ e.1.toList
  roles : ∀ e ∈ entries, e.2 ≠ [] ∧ ∀ role ∈ e.2, ',' ∉ role.toList ∧ ';' ∉ role.toList

theorem segment_roleSegment {name : String} (h : '=' ∉ name.toList) (roles : List String) :
    Segment (roleSegment name roles) name (",".intercalate roles) := by
  refine ⟨?_, h⟩
  rw [roleSegment, String.toList_append, String.toList_append, List.append_assoc]
  rfl

namespace RoleMap.Lists

variable {m : RoleMap} {entries : List (String × List String)}

theorem segment (h : m.Lists entries) {e : String × List String} (he : e ∈ entries) :
    Segment (roleSegment e.1 e.2) e.1 (",".intercalate e.2) :=
  segment_roleSegment (h.names e he).1 e.2

theorem rolesOf_eq (h : m.Lists entries) {e : String × List String} (he : e ∈ entries) :
    rolesOf (roleSegment e.1 e.2) = e.2 := by
  obtain ⟨hne, hroles⟩ := h.roles e he
  rw [(h.segment he).rolesOf_eq]
  exact splitOn_intercalate (c := ',') (fun role hr => (hroles role hr).1) hne

theorem free (h : m.Lists entries) {e : String × List String} (he : e ∈ entries) :
    ';' ∉ (roleSegment e.1 e.2).toList := by
  rw [(h.segment he).text, String.toList_intercalate, List.mem_append, List.mem_cons]
  have hroles : ';' ∉ [','].intercalate (e.2.map String.toList) := by
    refine not_mem_intercalate (by decide) fun part hpart => ?_
    obtain ⟨role, hrole, rfl⟩ := List.mem_map.1 hpart
    exact ((h.roles e he).2 role hrole).2
  rintro (hname | hequals | htext)
  · exact (h.names e he).2 hname
  · cases hequals
  · exact hroles htext

theorem splitOn_roleSpec (h : m.Lists entries) :
    (roleSpec entries).splitOn ";" = entries.map fun e => roleSegment e.1 e.2 := by
  refine splitOn_intercalate (c := ';') (fun seg hseg => ?_) (by simpa using h.nonempty)
  obtain ⟨e, he, rfl⟩ := List.mem_map.1 hseg
  exact h.free he

/-- The segment of an entry names the entry: what the map has of a name is what the last segment with it says. -/
theorem specMap_eq (h : m.Lists entries) : specMap (entries.map fun e => roleSegment e.1 e.2) = m := by
  funext name
  by_cases hsome : ∃ seg ∈ entries.map fun e => roleSegment e.1 e.2, commonNameOf seg = name
  · obtain ⟨seg, hlast⟩ := exists_lastFor hsome
    obtain ⟨e, he, rfl⟩ := List.mem_map.1 hlast.mem
    rw [hlast.specMap_eq, h.rolesOf_eq he, ← hlast.named, (h.segment he).commonNameOf_eq]
    exact ((h.mem_iff e.1 e.2).1 he).symm
  · have hnone : ∀ seg ∈ entries.map fun e => roleSegment e.1 e.2, commonNameOf seg ≠ name :=
      fun seg hs he => hsome ⟨seg, hs, he⟩
    rw [specMap_eq_none hnone]
    cases hm : m name with
    | none => rfl
    | some roles =>
      have he := (h.mem_iff name roles).2 hm
      exact absurd (h.segment he).commonNameOf_eq (hnone _ (List.mem_map_of_mem he))

theorem newTLSAuthn_roleSpec (h : m.Lists entries) : newTLSAuthn (roleSpec entries) = .ok m := by
  rw [newTLSAuthn_eq, h.splitOn_roleSpec, h.specMap_eq, if_pos]
  intro seg hseg
  obtain ⟨e, he, rfl⟩ := List.mem_map.1 hseg
  exact (h.segment he).mem

end RoleMap.Lists

/-! ## The specification is exact -/

theorem newTLSAuthn_ok_iff (s : String) (m : RoleMap) : newTLSAuthn s = .ok m ↔
    (∀ seg ∈ s.splitOn ";", '=' ∈ seg.toList) ∧ specMap (s.splitOn ";") = m := by
  rw [newTLSAuthn_eq]
  split_ifs with h
  · rw [Except.ok.injEq]
    exact ⟨fun hm => ⟨h, hm⟩, And.right⟩
  · exact ⟨nofun, fun hm => absurd hm.1 h⟩

/-- The parser is exact. A specification is accepted just if each segment has an `=`; a map, written in any
order, is read as that map; and a client with one certificate has the roles of the last segment with its name,
or is turned away. -/
theorem role_spec_exact :
    (∀ s, (∃ m, newTLSAuthn s = .ok m) ↔ ∀ seg ∈ s.splitOn ";", '=' ∈ seg.toList) ∧
      (∀ (m : RoleMap) (entries : List (String × List String)), m.Lists entries →
        newTLSAuthn (roleSpec entries) = .ok m) ∧
      ∀ (s : String) (m : RoleMap), newTLSAuthn s = .ok m → ∀ cert : Certificate,
        (∀ seg, LastFor cert.commonName (s.splitOn ";") seg →
          authTLS m ⟨some [cert]⟩ = .ok ⟨cert.commonName, rolesOf seg⟩) ∧
          ((∀ seg ∈ s.splitOn ";", commonNameOf seg ≠ cert.commonName) →
            authTLS m ⟨some [cert]⟩ = .error .unknownCertificate) := by
  refine ⟨fun s => ?_, fun m entries h => h.newTLSAuthn_roleSpec, fun s m hm cert => ?_⟩
  · simp [newTLSAuthn_ok_iff]
  · obtain ⟨_, rfl⟩ := (newTLSAuthn_ok_iff s m).1 hm
    refine ⟨fun seg hlast => authTLS_known hlast.specMap_eq [], fun hnone => ?_⟩
    rw [authTLS_unknown (specMap_eq_none hnone), firstKnown]

/-- Two names, and a client that is neither. -/
theorem role_spec_exact_two :
    let m : RoleMap := fun name => if name = "control" then some ["admin", "ops"] else if name = "guest" then
      some ["user"] else none
    m.Lists [("guest", ["user"]), ("control", ["admin", "ops"])] ∧ newTLSAuthn "guest=user;control=admin,ops" = .ok m ∧
      authTLS m ⟨some [⟨"stranger", ""⟩]⟩ = .error .unknownCertificate := by
  intro m
  have hlists : m.Lists [("guest", ["user"]), ("control", ["admin", "ops"])] := by
    refine ⟨fun name roles => ?_, List.cons_ne_nil _ _, ?_, ?_⟩
    · simp only [m]
      split_ifs with hcontrol hguest
      · simp [hcontrol, eq_comm]
      · simp [hguest, eq_comm]
      · simp [hcontrol, hguest]
    · decide
    · decide
  have hspec : roleSpec [("guest", ["user"]), ("control", ["admin", "ops"])] = "guest=user;control=admin,ops" := by
    decide
  have hm : newTLSAuthn "guest=user;control=admin,ops" = .ok m := hspec ▸ role_spec_exact.2.1 m _ hlists
  refine ⟨hlists, hm, (role_spec_exact.2.2 _ m hm _).2 ?_⟩
  rw [← hspec, hlists.splitOn_roleSpec]
  decide

end Wig.Httpapi
