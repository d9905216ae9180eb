/-
The objects of the data model (interfaces, peers and tokens), their JSON documents, and the rows
that hold them. A row is what the `db` tags of an object bind; a nil and an empty network have the
same row, and so do a nil and an empty list of roles.
-/
import Wig.Model.CIDR

namespace Wig.Model

structure Interface where
  name : String
  port : Int64
  ip : Option CIDR
  ip6 : Option CIDR
  fwmark : Int64
  privateKey : String
  publicKey : String
  deriving DecidableEq

structure Peer where
  publicKey : String
  interface : String
  ip : Option CIDR
  ip6 : Option CIDR
  expire : Time
  deriving DecidableEq

/-- `roles` is a Go slice, which may be nil. -/
structure Token where
  id : String
  secret : String
  roles : Option (List String)
  deriving DecidableEq

/-! ## Rows -/

structure InterfaceRow where
  name : String
  port : Int64
  ip : Option String
  ip6 : Option String
  fwmark : Int64
  privateKey : String
  publicKey : String
  deriving DecidableEq, Repr

structure PeerRow where
  publicKey : String
  interface : String
  ip : Option String
  ip6 : Option String
  expire : Time
  deriving DecidableEq, Repr

structure TokenRow where
  id : String
  secret : String
  roles : Option String
  deriving DecidableEq, Repr

/-- `CommaSepList.Value`. -/
def commaSepValue : Option (List String) → Option String
  | none => none
  | some [] => none
  | some l => some (",".intercalate l)

def Interface.row (i : Interface) : InterfaceRow :=
  { name := i.name, port := i.port, ip := CIDR.value i.ip, ip6 := CIDR.value i.ip6, fwmark := i.fwmark,
    privateKey := i.privateKey, publicKey := i.publicKey }

def Peer.row (p : Peer) : PeerRow :=
  { publicKey := p.publicKey, interface := p.interface, ip := CIDR.value p.ip, ip6 := CIDR.value p.ip6,
    expire := p.expire }

def Token.row (t : Token) : TokenRow := { id := t.id, secret := t.secret, roles := commaSepValue t.roles }

@[simp] theorem Interface.row_name (i : Interface) : i.row.name = i.name := rfl
@[simp] theorem Peer.row_publicKey (p : Peer) : p.row.publicKey = p.publicKey := rfl
@[simp] theorem Peer.row_interface (p : Peer) : p.row.interface = p.interface := rfl
@[simp] theorem Token.row_id (t : Token) : t.row.id = t.id := rfl

/-! ## JSON -/

def Interface.marshalJSON (i : Interface) : Json :=
  .obj [("name", .str i.name), ("port", .num i.port.toInt), ("ip", CIDR.marshalJSON i.ip),
    ("ip6", CIDR.marshalJSON i.ip6), ("fwmark", .num i.fwmark.toInt), ("private_key", .str i.privateKey),
    ("public_key", .str i.publicKey)]

def Interface.unmarshalJSON (doc : Json) : Except Error Interface := do
  let doc ← doc.decodeStruct
  let name ← Json.decodeString (doc.field "name")
  let port ← Json.decodeInt (doc.field "port")
  let ip ← CIDR.unmarshalJSON (doc.field "ip")
  let ip6 ← CIDR.unmarshalJSON (doc.field "ip6")
  let fwmark ← Json.decodeInt (doc.field "fwmark")
  let privateKey ← Json.decodeString (doc.field "private_key")
  let publicKey ← Json.decodeString (doc.field "public_key")
  return { name, port, ip, ip6, fwmark, privateKey, publicKey }

def Peer.marshalJSON (p : Peer) : Json :=
  .obj [("public_key", .str p.publicKey), ("interface", .str p.interface), ("ip", CIDR.marshalJSON p.ip),
    ("ip6", CIDR.marshalJSON p.ip6), ("expire", .time p.expire)]

def Peer.unmarshalJSON (doc : Json) : Except Error Peer := do
  let doc ← doc.decodeStruct
  let publicKey ← Json.decodeString (doc.field "public_key")
  let interface ← Json.decodeString (doc.field "interface")
  let ip ← CIDR.unmarshalJSON (doc.field "ip")
  let ip6 ← CIDR.unmarshalJSON (doc.field "ip6")
  let expire ← Json.decodeTime (doc.field "expire")
  return { publicKey, interface, ip, ip6, expire }

/-- A nil slice is `null`, an empty one `[]`. -/
def marshalStrings : Option (List String) → Json
  | none => .null
  | some l => .arr (l.map .str)

def Token.marshalJSON (t : Token) : Json :=
  .obj [("id", .str t.id), ("secret", .str t.secret), ("roles", marshalStrings t.roles)]

def Token.unmarshalJSON (doc : Json) : Except Error Token := do
  let doc ← doc.decodeStruct
  let id ← Json.decodeString (doc.field "id")
  let secret ← Json.decodeString (doc.field "secret")
  let roles ← Json.decodeStrings (doc.field "roles")
  return { id, secret, roles }

/-! ## Round trips -/

/-- The interface read back from the document of `i`. -/
def Interface.reread (i : Interface) : Interface := { i with ip := i.ip.map CIDR.reread, ip6 := i.ip6.map CIDR.reread }

/-- The peer read back from the document of `p`. -/
def Peer.reread (p : Peer) : Peer := { p with ip := p.ip.map CIDR.reread, ip6 := p.ip6.map CIDR.reread }

theorem CIDR.unmarshalJSON_marshalJSON (p : Option CIDR) :
    CIDR.unmarshalJSON [CIDR.marshalJSON p] = .ok (p.map CIDR.reread) := by
  unfold CIDR.unmarshalJSON
  cases p with
  | none => rfl
  | some c =>
    rw [Json.decodeInto_singleton, CIDR.marshalJSON, CIDR.unmarshalInto_none, CIDR.parse_string]
    rfl

theorem decodeStrings_marshalStrings (l : Option (List String)) : Json.decodeStrings [marshalStrings l] = .ok l := by
  unfold Json.decodeStrings
  cases l with
  | none => rfl
  | some l =>
    rw [Json.decodeInto_singleton, marshalStrings, Json.stringsInto, Json.mapM_decodeString]
    rfl

theorem Interface.unmarshalJSON_marshalJSON (i : Interface) :
    Interface.unmarshalJSON i.marshalJSON = .ok i.reread := by
  simp [Interface.unmarshalJSON, Interface.marshalJSON, Json.field_cons, Json.sameName, Json.foldChar,
    CIDR.unmarshalJSON_marshalJSON, Interface.reread, pure, Except.pure, bind, Except.bind]

theorem Peer.unmarshalJSON_marshalJSON (p : Peer) : Peer.unmarshalJSON p.marshalJSON = .ok p.reread := by
  simp [Peer.unmarshalJSON, Peer.marshalJSON, Json.field_cons, Json.sameName, Json.foldChar,
    CIDR.unmarshalJSON_marshalJSON, Peer.reread, pure, Except.pure, bind, Except.bind]

theorem Token.unmarshalJSON_marshalJSON (t : Token) : Token.unmarshalJSON t.marshalJSON = .ok t := by
  simp [Token.unmarshalJSON, Token.marshalJSON, Json.field_cons, Json.sameName, Json.foldChar,
    decodeStrings_marshalStrings, pure, Except.pure, bind, Except.bind]

@[simp] theorem Interface.marshalJSON_reread (i : Interface) : i.reread.marshalJSON = i.marshalJSON := by
  simp [Interface.marshalJSON, Interface.reread]

@[simp] theorem Peer.marshalJSON_reread (p : Peer) : p.reread.marshalJSON = p.marshalJSON := by
  simp [Peer.marshalJSON, Peer.reread]

/-- Reading an object back keeps its row. -/
@[simp] theorem Interface.row_reread (i : Interface) : i.reread.row = i.row := by
  simp [Interface.row, Interface.reread]

@[simp] theorem Peer.row_reread (p : Peer) : p.reread.row = p.row := by
  simp [Peer.row, Peer.reread]

/-! ## Objects read from rows -/

def InterfaceRow.scan (r : InterfaceRow) : Except Error Interface := do
  let ip ← CIDR.scan r.ip
  let ip6 ← CIDR.scan r.ip6
  return ⟨r.name, r.port, ip, ip6, r.fwmark, r.privateKey, r.publicKey⟩

def PeerRow.scan (r : PeerRow) : Except Error Peer := do
  let ip ← CIDR.scan r.ip
  let ip6 ← CIDR.scan r.ip6
  return ⟨r.publicKey, r.interface, ip, ip6, r.expire⟩

/-- `CommaSepList.Scan` does not fail. -/
def TokenRow.scan (r : TokenRow) : Token :=
  { id := r.id, secret := r.secret, roles := r.roles.map fun s => s.splitOn "," }

/-- No network is empty: each is a nil pointer or has an address. -/
def NoneEmpty (ip ip6 : Option CIDR) : Prop := ∀ c, ip = some c ∨ ip6 = some c → c.isNil = false

theorem CIDR.scan_value {p : Option CIDR} (h : ∀ c, p = some c → c.isNil = false) :
    CIDR.scan (CIDR.value p) = .ok (p.map CIDR.reread) := by
  cases p with
  | none => rfl
  | some c =>
    have hvalue : CIDR.value (some c) = some c.string := if_neg (by rw [h c rfl]; decide)
    rw [hvalue]
    unfold CIDR.scan
    simp only [CIDR.parse_string]
    rfl

/-- Without empty networks, the row and the document of an object read back as the same one. -/
theorem Interface.scan_row {i : Interface} (h : NoneEmpty i.ip i.ip6) : i.row.scan = .ok i.reread := by
  unfold InterfaceRow.scan Interface.row
  rw [CIDR.scan_value fun c hc => h c (.inl hc), CIDR.scan_value fun c hc => h c (.inr hc)]
  rfl

theorem Peer.scan_row {p : Peer} (h : NoneEmpty p.ip p.ip6) : p.row.scan = .ok p.reread := by
  unfold PeerRow.scan Peer.row
  rw [CIDR.scan_value fun c hc => h c (.inl hc), CIDR.scan_value fun c hc => h c (.inr hc)]
  rfl

theorem InterfaceRow.scan_eq {r : InterfaceRow} {i : Interface} (h : r.scan = .ok i) :
    i.name = r.name ∧ i.port = r.port ∧ i.fwmark = r.fwmark ∧ i.privateKey = r.privateKey := by
  unfold InterfaceRow.scan at h
  cases h4 : CIDR.scan r.ip with
  | error e => rw [h4] at h; cases h
  | ok ip =>
    cases h6 : CIDR.scan r.ip6 with
    | error e => rw [h4, h6] at h; cases h
    | ok ip6 => rw [h4, h6] at h; cases h; exact ⟨rfl, rfl, rfl, rfl⟩

theorem PeerRow.scan_eq {r : PeerRow} {p : Peer} (h : r.scan = .ok p) :
    p.publicKey = r.publicKey ∧ p.interface = r.interface := by
  unfold PeerRow.scan at h
  cases h4 : CIDR.scan r.ip with
  | error e => rw [h4] at h; cases h
  | ok ip =>
    cases h6 : CIDR.scan r.ip6 with
    | error e => rw [h4, h6] at h; cases h
    | ok ip6 => rw [h4, h6] at h; cases h; exact ⟨rfl, rfl⟩

end Wig.Model
