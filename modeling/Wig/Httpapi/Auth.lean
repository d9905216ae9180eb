/-
Who may call the HTTP API: an authenticator finds the credentials of a request, the role rules say what
they permit, and every handler sits behind both.
-/
import Wig.Model.Basic

namespace Wig.Httpapi

/-! ## The API -/

inductive AuthError where
  | noTLS
  | unknownCertificate
  | syntaxError
  | missingCredentials
  | badSecret
  | sql (e : Error)

structure Credentials where
  identity : String
  roles : List String

/-- `Authn`, for requests `Q`. -/
abbrev Authn (Q : Type) := Q → Except AuthError Credentials

abbrev Authz := Credentials → String → Bool

/-- What a request gets: one of two refusals, or what the handler says. -/
inductive Answer (α : Type) where
  | unauthenticated
  | unauthorized
  | served (a : α)

def withAuth {Q α : Type} (authn : Authn Q) (authz : Authz) (target : String) (h : Q → α) (req : Q) : Answer α :=
  match authn req with
  | .error _ => .unauthenticated
  | .ok creds => if authz creds target then .served (h req) else .unauthorized

/-- The handler behind `WithAuth` runs. -/
def Runs {Q : Type} (authn : Authn Q) (authz : Authz) (target : String) (req : Q) : Prop :=
  withAuth authn authz target (fun _ => ()) req = .served ()

theorem runs_iff {Q : Type} {authn : Authn Q} {authz : Authz} {target : String} {req : Q} :
    Runs authn authz target req ↔ ∃ creds, authn req = .ok creds ∧ authz creds target = true := by
  unfold Runs withAuth
  cases authn req with
  | error e => simp
  | ok creds => by_cases h : authz creds target = true <;> simp [h]

/-! ## Role rules -/

/-- `rbac`: the targets of each role; a role without a rule has none. -/
abbrev Rules := String → List String

def targetsForRole (rules : Rules) (role : String) : List String := rules role

def hasPermission (rules : Rules) : Authz := fun creds target =>
  creds.roles.any fun role => (targetsForRole rules role).any fun t => t == target

theorem hasPermission_iff {rules : Rules} {creds : Credentials} {target : String} :
    hasPermission rules creds target = true ↔ ∃ role ∈ creds.roles, target ∈ rules role := by
  simp [hasPermission, targetsForRole]

end Wig.Httpapi
