/-
Authentication by bearer tokens. The roles of a token are stored as one text, joined by commas, and
split again in two places; a role that has a comma in it comes back as other roles.
-/
import Wig.Httpapi.Auth
import Wig.Lib.Split
import Wig.Model.Registered

namespace Wig.Httpapi

open Wig.Lib Wig.Model Wig.Crud

/-- A request with the user name and password of its basic authentication, if it has one. -/
structure BearerRequest where
  basicAuth : Option (String × String)

/-- `authBearerToken.CredentialsFromRequest`. The row is scanned into strings, which a NULL is not. The
transaction of the lookup may fail to open or to commit. -/
def authBearer (opens commits : Bool) (tokens : Table TokenRow.id) : Authn BearerRequest := fun req =>
  match req.basicAuth with
  | none => .error .missingCredentials
  | some (tokenID, tokenSecret) =>
    if opens then
      match tokens.find? tokenID with
      | none => .error (.sql .noRows)
      | some row =>
        match row.roles with
        | none => .error (.sql .ioError)
        | some rolesStr =>
          if commits then
            if tokenSecret = row.secret then .ok ⟨tokenID, rolesStr.splitOn ","⟩ else .error .badSecret
          else .error (.sql .commit)
    else .error (.sql .ioError)

/-! ## Tokens created through the API -/

/-- `handleCreate` for tokens, as far as the tables go. -/
def handleCreateToken (stack : Nat) (doc : Json) : Proc Tables Error Unit := do
  let tok ← Proc.lift (Token.unmarshalJSON doc)
  (crud stack).create (.token tok)

/-- The tokens were created, by their documents, in tables that had none. -/
def Created (stack : Nat) (toks : List Token) (t₀ t : Tables) : Prop :=
  t₀.tokens.rows = [] ∧ Proc.forEach (handleCreateToken stack) (toks.map Token.marshalJSON) t₀ = (.ok (), t)

theorem handleCreateToken_ok {stack : Nat} {tok : Token} {t t' : Tables}
    (h : handleCreateToken stack tok.marshalJSON t = (.ok (), t')) : t'.tokens.rows = t.tokens.rows ++ [tok.row] := by
  have hdoc : (Proc.lift (Token.unmarshalJSON tok.marshalJSON) : Proc Tables Error Token) t = (.ok tok, t) := by
    rw [Token.unmarshalJSON_marshalJSON]
    rfl
  unfold handleCreateToken at h
  rw [Proc.bind_of_ok hdoc, crud_create] at h
  have hinsert : t.insert (.token tok.row) = .ok t' := namedExec_ok h
  simp only [Tables.insert] at hinsert
  split at hinsert
  · cases hinsert
  · rename_i tab htab
    cases hinsert
    exact (Table.insert_rows htab).2

theorem forEach_handleCreateToken {stack : Nat} : ∀ (toks : List Token) {t t' : Tables},
    Proc.forEach (handleCreateToken stack) (toks.map Token.marshalJSON) t = (.ok (), t') →
      t'.tokens.rows = t.tokens.rows ++ toks.map Token.row
  | [], t, t', h => by cases h; simp
  | tok :: toks, t, t', h => by
    rw [List.map_cons, Proc.forEach_cons] at h
    obtain ⟨_, t₁, h₁, h₂⟩ := Proc.bind_ok h
    rw [forEach_handleCreateToken toks h₂, handleCreateToken_ok h₁, List.append_assoc]
    rfl

theorem Created.rows {stack : Nat} {toks : List Token} {t₀ t : Tables} (h : Created stack toks t₀ t) :
    t.tokens.rows = toks.map Token.row := by
  rw [forEach_handleCreateToken toks h.2, h.1, List.nil_append]

/-! ## Roles, stored and split -/

/-- The roles of a token, without the difference between a nil and an empty list. -/
def roleList (tok : Token) : List String := tok.roles.getD []

theorem commaSepValue_eq {tok : Token} :
    commaSepValue tok.roles = if roleList tok = [] then none else some (",".intercalate (roleList tok)) := by
  unfold roleList
  cases tok.roles with
  | none => rfl
  | some l => cases l <;> rfl

/-- The roles that a stored text is split to. -/
def storedRoles (tok : Token) : List String := ((commaSepValue tok.roles).map fun s => s.splitOn ",").getD []

theorem scan_roles (tok : Token) : roleList tok.row.scan = storedRoles tok := by
  unfold roleList storedRoles TokenRow.scan Token.row
  rfl

theorem storedRoles_eq {tok : Token} (h : ∀ r ∈ roleList tok, ',' ∉ r.toList) : storedRoles tok = roleList tok := by
  unfold storedRoles
  rw [commaSepValue_eq]
  by_cases hnil : roleList tok = []
  · rw [if_pos hnil, hnil]; rfl
  · rw [if_neg hnil]
    exact splitOn_intercalate (c := ',') h hnil

theorem mem_storedRoles {tok : Token} {r : String} :
    r ∈ storedRoles tok ↔ ∃ rolesStr, tok.row.roles = some rolesStr ∧ r ∈ rolesStr.splitOn "," := by
  have hroles : tok.row.roles = commaSepValue tok.roles := rfl
  unfold storedRoles
  rw [hroles]
  cases commaSepValue tok.roles <;> simp

/-- A role with a comma is not among those that come back. -/
theorem not_mem_storedRoles {tok : Token} {r : String} (h : ',' ∈ r.toList) : r ∉ storedRoles tok := by
  intro hr
  obtain ⟨rolesStr, -, hr⟩ := mem_storedRoles.1 hr
  exact not_mem_of_mem_splitOn (c := ',') hr h

/-! ## Who gets in -/

theorem find?_row {toks : List Token} {t : Tables} (ht : t.tokens.rows = toks.map Token.row)
    {tok : Token} (h : tok ∈ toks) : t.tokens.find? tok.id = some tok.row :=
  Table.find?_eq_some.2 ⟨by rw [ht]; exact List.mem_map_of_mem h, rfl⟩

/-- A lookup that goes through gives credentials just for a row with the id, the secret and some roles. -/
theorem authBearer_eq_ok {tokens : Table TokenRow.id} {req : BearerRequest} {creds : Credentials} :
    authBearer true true tokens req = .ok creds ↔ ∃ row rolesStr, tokens.find? row.id = some row ∧
      req.basicAuth = some (row.id, row.secret) ∧ row.roles = some rolesStr ∧
        creds = ⟨row.id, rolesStr.splitOn ","⟩ := by
  constructor
  · intro h
    unfold authBearer at h
    split at h
    · cases h
    · rename_i tokenID tokenSecret hreq
      rw [if_pos rfl] at h
      split at h
      · cases h
      · rename_i row hrow
        -- the row is found under the id of the request
        obtain rfl := (Table.find?_eq_some.1 hrow).2
        split at h
        · cases h
        · rename_i rolesStr hroles
          rw [if_pos rfl] at h
          split at h
          · rename_i hsecret
            cases h
            exact ⟨row, rolesStr, hrow, by rw [hreq, hsecret], hroles, rfl⟩
          · cases h
  · rintro ⟨row, rolesStr, hrow, hreq, hroles, rfl⟩
    simp only [authBearer, hreq, hrow, hroles, if_true]

/-- The credentials that a request has by a stored token, if the lookup goes through. -/
theorem authBearer_iff {toks : List Token} {t : Tables} (ht : t.tokens.rows = toks.map Token.row) {req : BearerRequest}
    {rules : Rules} {target : String} : Runs (authBearer true true t.tokens) (hasPermission rules) target req ↔
      ∃ tok ∈ toks, req.basicAuth = some (tok.id, tok.secret) ∧ ∃ r ∈ storedRoles tok, target ∈ rules r := by
  rw [runs_iff]
  constructor
  · rintro ⟨creds, hcreds, hperm⟩
    obtain ⟨row, rolesStr, hrow, hreq, hroles, rfl⟩ := authBearer_eq_ok.1 hcreds
    have hmem := (Table.find?_eq_some.1 hrow).1
    rw [ht] at hmem
    obtain ⟨tok, htok, rfl⟩ := List.mem_map.1 hmem
    obtain ⟨r, hr, htarget⟩ := hasPermission_iff.1 hperm
    exact ⟨tok, htok, hreq, r, mem_storedRoles.2 ⟨rolesStr, hroles, hr⟩, htarget⟩
  · rintro ⟨tok, htok, hreq, r, hr, htarget⟩
    obtain ⟨rolesStr, hroles, hr⟩ := mem_storedRoles.1 hr
    exact ⟨⟨tok.id, rolesStr.splitOn ","⟩, authBearer_eq_ok.2 ⟨tok.row, rolesStr, find?_row ht htok, hreq, hroles, rfl⟩,
      hasPermission_iff.2 ⟨r, hr, htarget⟩⟩

theorem not_runs_of_fault {opens commits : Bool} (h : ¬ (opens = true ∧ commits = true))
    (tokens : Table TokenRow.id) (authz : Authz) (target : String) (req : BearerRequest) :
    ¬ Runs (authBearer opens commits tokens) authz target req := by
  rw [runs_iff]
  rintro ⟨creds, hcreds, -⟩
  unfold authBearer at hcreds
  split at hcreds
  · cases hcreds
  · split at hcreds
    · rename_i hopens
      split at hcreds
      · cases hcreds
      · split at hcreds
        · cases hcreds
        · split at hcreds
          · rename_i hcommits
            exact h ⟨hopens, hcommits⟩
          · cases hcreds
    · cases hcreds

/-- A token opens just what its roles open, under every table of rules; and the roles stored for it,
read back with the token or at authentication, are its roles. -/
structure RolesKept (toks : List Token) (opens commits : Bool) (t : Tables) : Prop where
  runs : ∀ (rules : Rules) (target : String) (req : BearerRequest),
    Runs (authBearer opens commits t.tokens) (hasPermission rules) target req ↔
      ∃ tok ∈ toks, req.basicAuth = some (tok.id, tok.secret) ∧ ∃ r ∈ roleList tok, target ∈ rules r
  stored : ∀ tok ∈ toks, ∀ r, (r ∈ storedRoles tok ↔ r ∈ roleList tok) ∧
    (r ∈ roleList tok.row.scan ↔ r ∈ roleList tok)

/-- Bearer authorization is by the roles of the created tokens just if no role has a comma, and the
lookup goes through, unless no token has a role anyway. -/
theorem rolesKept_iff {stack : Nat} {toks : List Token} {t₀ t : Tables} (h : Created stack toks t₀ t)
    (opens commits : Bool) :
    RolesKept toks opens commits t ↔ (∀ tok ∈ toks, ∀ r ∈ roleList tok, ',' ∉ r.toList) ∧
      ((opens = true ∧ commits = true) ∨ ∀ tok ∈ toks, roleList tok = []) := by
  constructor
  · intro hkept
    refine ⟨fun tok htok r hr hcomma => ?_, ?_⟩
    · exact not_mem_storedRoles hcomma ((hkept.stored tok htok r).1.2 hr)
    · by_contra hnot
      rw [not_or] at hnot
      obtain ⟨hfault, hroles⟩ := hnot
      push Not at hroles
      obtain ⟨tok, htok, hne⟩ := hroles
      obtain ⟨r, rest, hr⟩ := List.exists_cons_of_ne_nil hne
      -- rules that permit something to every role
      refine not_runs_of_fault hfault t.tokens _ _ _
        ((hkept.runs (fun _ => [""]) "" ⟨some (tok.id, tok.secret)⟩).2 ⟨tok, htok, rfl, r, ?_, ?_⟩)
      · rw [hr]; exact List.mem_cons_self
      · exact List.mem_cons_self
  · rintro ⟨hcomma, hlookup⟩
    have hstored : ∀ tok ∈ toks, storedRoles tok = roleList tok := fun tok htok => storedRoles_eq (hcomma tok htok)
    refine ⟨fun rules target req => ?_, fun tok htok r => ?_⟩
    · by_cases hfault : opens = true ∧ commits = true
      · obtain ⟨rfl, rfl⟩ := hfault
        rw [authBearer_iff h.rows]
        constructor
        · rintro ⟨tok, htok, hreq, hrole⟩
          exact ⟨tok, htok, hreq, hstored tok htok ▸ hrole⟩
        · rintro ⟨tok, htok, hreq, hrole⟩
          exact ⟨tok, htok, hreq, (hstored tok htok).symm ▸ hrole⟩
      · refine ⟨fun hruns => absurd hruns (not_runs_of_fault hfault _ _ _ _), ?_⟩
        rintro ⟨tok, htok, -, r, hr, -⟩
        rw [(hlookup.resolve_left hfault) tok htok] at hr
        exact (List.not_mem_nil hr).elim
    · rw [scan_roles, hstored tok htok]
      exact ⟨Iff.rfl, Iff.rfl⟩

/-! ## One token -/

/-- A token with a role list. -/
def withRoles (roles : List String) : Token := ⟨"t", "s", some roles⟩

theorem created_withRoles (roles : List String) : ∃ t, Created 0 [withRoles roles] Tables.empty t := by
  have hdoc : (Proc.lift (Token.unmarshalJSON (withRoles roles).marshalJSON) : Proc Tables Error Token) Tables.empty =
      (.ok (withRoles roles), Tables.empty) := by
    rw [Token.unmarshalJSON_marshalJSON]
    rfl
  have hcreate : handleCreateToken 0 (withRoles roles).marshalJSON Tables.empty =
      (.ok (), { Tables.empty with tokens := ⟨[(withRoles roles).row], by simp⟩ }) := by
    unfold handleCreateToken
    rw [Proc.bind_of_ok hdoc]
    rfl
  exact ⟨_, rfl, by rw [List.map_singleton, Proc.forEach_singleton]; exact hcreate⟩

/-- Two roles, which are stored joined by a comma. -/
theorem rolesKept_twoRoles : ∃ t, Created 0 [withRoles ["guest", "admin"]] Tables.empty t ∧
    RolesKept [withRoles ["guest", "admin"]] true true t := by
  obtain ⟨t, ht⟩ := created_withRoles ["guest", "admin"]
  refine ⟨t, ht, (rolesKept_iff ht true true).2 ⟨fun tok htok r hr => ?_, .inl ⟨rfl, rfl⟩⟩⟩
  have hcommas : ∀ r ∈ ["guest", "admin"], ',' ∉ r.toList := by decide
  rw [List.mem_singleton.1 htok] at hr
  exact hcommas r hr

/-- A token with the one role `guest,admin` opens what administrators may. -/
theorem comma_adds_admin : ¬ ∀ (stack : Nat) (toks : List Token) (t₀ t : Tables), Created stack toks t₀ t →
    ∀ (rules : Rules) (target : String) (req : BearerRequest),
      Runs (authBearer true true t.tokens) (hasPermission rules) target req ↔
        ∃ tok ∈ toks, req.basicAuth = some (tok.id, tok.secret) ∧ ∃ r ∈ tok.roles.getD [], target ∈ rules r := by
  intro h
  obtain ⟨t, ht⟩ := created_withRoles ["guest,admin"]
  have hsplit : storedRoles (withRoles ["guest,admin"]) = ["guest", "admin"] :=
    splitOn_intercalate (c := ',') (show ∀ s ∈ ["guest", "admin"], ',' ∉ s.toList by decide) (List.cons_ne_nil _ _)
  have hruns : Runs (authBearer true true t.tokens) (hasPermission fun r => if r = "admin" then
    ["write"] else []) "write"
      ⟨some ("t", "s")⟩ := by
    refine (authBearer_iff ht.rows).2 ⟨withRoles ["guest,admin"], List.mem_singleton_self _, rfl, "admin", ?_, ?_⟩
    · rw [hsplit]; decide
    · decide
  obtain ⟨tok, htok, -, r, hr, htarget⟩ := (h 0 _ _ t ht _ _ _).1 hruns
  rw [List.mem_singleton.1 htok] at hr
  rw [List.mem_singleton.1 hr] at htarget
  exact absurd htarget (by decide)

end Wig.Httpapi
