/-
Authentication by client certificates. A specification maps common names to roles; the identity of a
request is the first certificate of its chain that the map knows, and not the client's own.
-/
import Wig.Httpapi.Auth
import Wig.Lib.Split

namespace Wig.Httpapi

open Wig.Lib

/-- A certificate: the common name of its subject, and whatever else it holds. -/
structure Certificate where
  commonName : String
  raw : String

/-- A request, as far as TLS goes: the certificates that the client sent, its own first, if the
connection has TLS at all. -/
structure TLSRequest where
  peerCertificates : Option (List Certificate)

abbrev RoleMap := String → Option (List String)

/-- `strings.SplitN(spec, "=", 2)`, if it gives two parts. -/
def splitSpec (spec : String) : Option (String × String) :=
  match spec.splitOn "=" with
  | cn :: roles :: rest => some (cn, "=".intercalate (roles :: rest))
  | _ => none

def addSpec (m : RoleMap) (spec : String) : Except AuthError RoleMap :=
  match splitSpec spec with
  | none => .error .syntaxError
  | some (cn, roles) => .ok (Function.update m cn (some (roles.splitOn ",")))

def newTLSAuthn (s : String) : Except AuthError RoleMap := (s.splitOn ";").foldlM addSpec fun _ => none

/-- The loop over the certificates ends at the first that the map knows. -/
def firstKnown (m : RoleMap) : List Certificate → Except AuthError Credentials
  | [] => .error .unknownCertificate
  | cert :: certs =>
    match m cert.commonName with
    | some roles => .ok ⟨cert.commonName, roles⟩
    | none => firstKnown m certs

def authTLS (m : RoleMap) : Authn TLSRequest := fun req =>
  match req.peerCertificates with
  | none => .error .noTLS
  | some certs => firstKnown m certs

/-! ## What a role map knows -/

/-- A map has a name. -/
def RoleMap.Knows (m : RoleMap) : Prop := ∃ cn, (m cn).isSome

theorem addSpec_knows {m m' : RoleMap} {spec : String} (h : addSpec m spec = .ok m') : m'.Knows := by
  unfold addSpec at h
  split at h
  · cases h
  · rename_i cn roles _
    cases h
    exact ⟨cn, by simp⟩

theorem foldlM_knows : ∀ (specs : List String) {m m' : RoleMap}, m.Knows → specs.foldlM addSpec m = .ok m' → m'.Knows
  | [], m, m', hm, h => by cases h; exact hm
  | spec :: specs, m, m', _, h => by
    rw [List.foldlM_cons] at h
    cases hs : addSpec m spec with
    | error e => rw [hs] at h; cases h
    | ok m₁ => rw [hs] at h; exact foldlM_knows specs (addSpec_knows hs) h

/-- A specification that is accepted names someone: there is at least one part, and each is added. -/
theorem newTLSAuthn_knows {s : String} {m : RoleMap} (h : newTLSAuthn s = .ok m) : m.Knows := by
  unfold newTLSAuthn at h
  obtain ⟨spec, specs, hsplit⟩ := List.exists_cons_of_ne_nil (splitOn_ne_nil ';' s)
  have hspecs : s.splitOn ";" = spec :: specs := hsplit
  rw [hspecs, List.foldlM_cons] at h
  cases hs : addSpec (fun _ => none) spec with
  | error e => rw [hs] at h; cases h
  | ok m₁ => rw [hs] at h; exact foldlM_knows specs (addSpec_knows hs) h

/-! ## Whose certificate counts -/

/-- The client's own certificate decides: what the client sends after it changes neither the roles of
a request nor what any rules permit it. -/
structure LeafDecides (m : RoleMap) (leaf : Certificate) : Prop where
  roles : ∀ rest rest', (authTLS m ⟨some (leaf :: rest)⟩).toOption.map Credentials.roles =
    (authTLS m ⟨some (leaf :: rest')⟩).toOption.map Credentials.roles
  permitted : ∀ (rules : Rules) (target : String) (rest rest' : List Certificate),
    Runs (authTLS m) (hasPermission rules) target ⟨some (leaf :: rest)⟩ ↔
      Runs (authTLS m) (hasPermission rules) target ⟨some (leaf :: rest')⟩

theorem authTLS_known {m : RoleMap} {leaf : Certificate} {roles : List String} (h : m leaf.commonName = some roles)
    (rest : List Certificate) : authTLS m ⟨some (leaf :: rest)⟩ = .ok ⟨leaf.commonName, roles⟩ := by
  simp only [authTLS, firstKnown, h]

theorem authTLS_unknown {m : RoleMap} {leaf : Certificate} (h : m leaf.commonName = none) (rest : List Certificate) :
    authTLS m ⟨some (leaf :: rest)⟩ = firstKnown m rest := by
  simp only [authTLS, firstKnown, h]

theorem LeafDecides.of_known {m : RoleMap} {leaf : Certificate} (h : (m leaf.commonName).isSome) :
    LeafDecides m leaf := by
  obtain ⟨roles, hroles⟩ := Option.isSome_iff_exists.1 h
  refine ⟨fun rest rest' => ?_, fun rules target rest rest' => ?_⟩
  · rw [authTLS_known hroles, authTLS_known hroles]
  · rw [runs_iff, runs_iff, authTLS_known hroles, authTLS_known hroles]

/-- A client without a name of its own in the map takes one from a certificate it sends along. -/
theorem not_leafDecides {m : RoleMap} (hm : m.Knows) {leaf : Certificate} (h : m leaf.commonName = none) :
    ¬ LeafDecides m leaf := by
  obtain ⟨cn, hcn⟩ := hm
  obtain ⟨roles, hroles⟩ := Option.isSome_iff_exists.1 hcn
  intro hdecides
  have hsame := hdecides.roles [] [⟨cn, ""⟩]
  rw [authTLS_unknown h, authTLS_unknown h] at hsame
  simp [firstKnown, hroles, Except.toOption] at hsame

/-- The certificate of the client decides just if the role map knows its name. -/
theorem leafDecides_iff {s : String} {m : RoleMap} (h : newTLSAuthn s = .ok m) (leaf : Certificate) :
    LeafDecides m leaf ↔ (m leaf.commonName).isSome := by
  refine ⟨fun hdecides => ?_, .of_known⟩
  cases hleaf : m leaf.commonName with
  | none => exact absurd hdecides (not_leafDecides (newTLSAuthn_knows h) hleaf)
  | some roles => rfl

/-! ## A specification with one name -/

/-- One part, with one name and one role. -/
theorem newTLSAuthn_one :
    ∃ m, newTLSAuthn "control=admin" = .ok m ∧ m "control" = some ["admin"] ∧ m "guest" = none := by
  have hspec : "control=admin".splitOn ";" = ["control=admin"] :=
    splitOn_intercalate (c := ';') (show ∀ s ∈ ["control=admin"], ';' ∉ s.toList by decide) (List.cons_ne_nil _ _)
  have hparts : "control=admin".splitOn "=" = ["control", "admin"] :=
    splitOn_intercalate (c := '=') (show ∀ s ∈ ["control", "admin"], '=' ∉ s.toList by decide) (List.cons_ne_nil _ _)
  have hroles : ("=".intercalate ["admin"]).splitOn "," = ["admin"] :=
    splitOn_intercalate (c := ',') (show ∀ s ∈ ["admin"], ',' ∉ s.toList by decide) (List.cons_ne_nil _ _)
  refine ⟨Function.update (fun _ => none) "control" (some ["admin"]), ?_, ?_, ?_⟩
  · unfold newTLSAuthn
    rw [hspec, List.foldlM_cons]
    simp only [addSpec, splitSpec, hparts, hroles]
    rfl
  · exact Function.update_self ..
  · exact Function.update_of_ne (by decide) _ _

theorem leafDecides_control : ∃ m, newTLSAuthn "control=admin" = .ok m ∧ LeafDecides m ⟨"control", ""⟩ ∧
    ¬ LeafDecides m ⟨"guest", ""⟩ := by
  obtain ⟨m, hm, hcontrol, hguest⟩ := newTLSAuthn_one
  refine ⟨m, hm, (leafDecides_iff hm _).2 (by rw [hcontrol]; rfl), fun h => ?_⟩
  have hsome := (leafDecides_iff hm _).1 h
  rw [show m (⟨"guest", ""⟩ : Certificate).commonName = none from hguest] at hsome
  cases hsome

/-- The guest becomes an administrator by sending the administrator's certificate along. -/
theorem guest_becomes_admin :
    ¬ ∀ (s : String) (m : RoleMap), newTLSAuthn s = .ok m → ∀ (leaf : Certificate) (rest rest' : List Certificate),
    (authTLS m ⟨some (leaf :: rest)⟩).toOption.map Credentials.roles = (authTLS m ⟨some (leaf :: rest')⟩).toOption.map
      Credentials.roles := by
  intro h
  obtain ⟨m, hm, hcontrol, hguest⟩ := newTLSAuthn_one
  have hsame := h _ m hm ⟨"guest", ""⟩ [] [⟨"control", ""⟩]
  rw [authTLS_unknown hguest, authTLS_unknown hguest] at hsame
  simp [firstKnown, hcontrol, Except.toOption] at hsame

end Wig.Httpapi
