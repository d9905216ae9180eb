/-
`wgInterface`: the calls that bring the device of an interface up and down and set its key, port and
mark. A device is configured only while it exists.
-/
import Wig.Gateway.Driver
import Wig.Model.Object

namespace Wig.Gateway

open Wig.Lib Wig.Net Wig.Model Kernel

/-- The networks that are not nil pointers. -/
def networks (ip ip6 : Option CIDR) : List IPNet := (ip.toList ++ ip6.toList).map CIDR.ipnet

/-! ## The calls -/

/-- Take the link down and delete it, if it is found. -/
def bringDown (name : String) : Proc Kernel Error Unit := do
  if ← Proc.succeeds (linkByName name) then do
    linkSetDown name
    linkDel name

def stopInterface (i : Interface) : Proc Kernel Error Unit := bringDown i.name

def startInterface (i : Interface) : Proc Kernel Error Unit := do
  bringDown i.name
  linkAdd i.name
  Proc.forEach (addrAdd i.name) (networks i.ip i.ip6)
  linkSetUp i.name

/-- What `initialize` asks of the device, given the parsed private key. -/
def initialConfig (i : Interface) (key : Key) : Config :=
  { privateKey := some key
    listenPort := some i.port
    firewallMark := if 0 < i.fwmark then some i.fwmark else none
    replacePeers := false
    peers := [] }

def initializeInterface (i : Interface) : Proc Kernel Error Unit :=
  match parseKey i.privateKey with
  | none => .fail .parseKey
  | some key => configureDevice i.name (initialConfig i key)

def newInterface (i : Interface) : Proc Kernel Error Unit := do
  startInterface i
  initializeInterface i

/-! ## Every call returns -/

theorem bringDown_keeps (name : String) : (bringDown name).Keeps fun _ => True := by
  refine (onDevice_keeps _ name _).succeeds.bind fun found => ?_
  split
  · exact (onDevice_keeps _ name _).bind fun _ => onDevice_keeps _ name _
  · exact Proc.keeps_pure ()

theorem startInterface_keeps (i : Interface) : (startInterface i).Keeps fun _ => True :=
  (bringDown_keeps i.name).bind fun _ => (linkAdd_keeps i.name).bind fun _ =>
    (Proc.Keeps.forEach (fun _ => ask_keeps _ i.name _) _).bind fun _ => ask_keeps _ i.name _

theorem initializeInterface_keeps (i : Interface) : (initializeInterface i).Keeps fun _ => True := by
  unfold initializeInterface
  split
  · exact Proc.keeps_fail _
  · exact configureDevice_keeps i.name _

theorem newInterface_keeps (i : Interface) : (newInterface i).Keeps fun _ => True :=
  (startInterface_keeps i).bind fun _ => initializeInterface_keeps i

/-! ## What they do without faults -/

theorem bringDown_eq {k : Kernel} (h : k.FaultFree) (name : String) :
    bringDown name k = (.ok (), k.setDevice name none) := by
  unfold bringDown
  cases hd : k.devices name with
  | none =>
    have hmissing : linkByName name k = (.err .netlink, k) := onDevice_none h hd
    rw [Proc.bind_of_ok (Proc.succeeds_of_err hmissing), setDevice_same hd]
    rfl
  | some d =>
    have hfound : linkByName name k = (.ok (), k) := by
      unfold linkByName
      rw [onDevice_some h hd rfl, setDevice_same hd]
    have hdown : linkSetDown name k = (.ok (), k.setDevice name (some { d with up := false })) :=
      onDevice_some h hd rfl
    have hdel : linkDel name (k.setDevice name (some { d with up := false })) = (.ok (), _) :=
      onDevice_some (setDevice_faultFree h name _) (setDevice_self k name _) rfl
    rw [Proc.bind_of_ok (Proc.succeeds_of_ok hfound)]
    show (linkSetDown name >>= fun _ => linkDel name) k = _
    rw [Proc.bind_of_ok hdown]
    exact hdel.trans (by rw [setDevice_setDevice])

/-- An absent device cannot be initialised. -/
theorem initializeInterface_absent {k : Kernel} (h : k.FaultFree) {i : Interface} (hd : k.devices i.name = none) :
    initializeInterface i k = (.err (if (parseKey i.privateKey).isSome then .notExist else .parseKey), k) := by
  unfold initializeInterface
  cases hk : parseKey i.privateKey with
  | none => rfl
  | some key =>
    show configureDevice i.name (initialConfig i key) k = _
    rw [configureDevice_small i.name _ (Nat.zero_le _)]
    exact configureBatch_absent h (fun p hp => (List.not_mem_nil hp).elim) hd

/-! ## Calls on one device -/

/-- What the calls leave, if they go through, is the device changed. -/
def Changes (name : String) (x : Proc Kernel Error Unit) : Prop :=
  ∀ k k' d, k.FaultFree → k.devices name = some d → x k = (.ok (), k') → ∃ d', k' = k.setDevice name (some d')

/-- The calls go through if nothing is refused. -/
def Succeeds (name : String) (x : Proc Kernel Error Unit) : Prop :=
  ∀ k d, k.FaultFree → k.driver.Obliging → k.devices name = some d → ∃ d', x k = (.ok (), k.setDevice name (some d'))

section OneDevice

variable {name : String} {x y : Proc Kernel Error Unit}

theorem ask_changes (missing : Error) (a : Ask) : Changes name (ask missing name a) := by
  intro k k' d h _ ho
  obtain ⟨d', -, rfl⟩ := (ask_ok_iff _ h).1 ho
  exact ⟨d', rfl⟩

theorem ask_succeeds (missing : Error) (a : Ask) : Succeeds name (ask missing name a) := by
  intro k d h hob hd
  obtain ⟨d', hd'⟩ := hob k.devices name d a hd
  exact ⟨d', (ask_ok_iff _ h).2 ⟨d', ⟨d, hd, hd'⟩, rfl⟩⟩

theorem Changes.bind (hx : Changes name x) (hy : Changes name y) : Changes name (x >>= fun _ => y) := by
  intro k k' d h hd ho
  obtain ⟨_, k₁, ho₁, ho₂⟩ := Proc.bind_ok ho
  obtain ⟨d₁, rfl⟩ := hx k k₁ d h hd ho₁
  obtain ⟨d₂, rfl⟩ := hy _ k' d₁ (setDevice_faultFree h name _) (setDevice_self k name _) ho₂
  exact ⟨d₂, setDevice_setDevice k name _ _⟩

theorem Succeeds.bind (hx : Succeeds name x) (hy : Succeeds name y) : Succeeds name (x >>= fun _ => y) := by
  intro k d h hob hd
  obtain ⟨d₁, ho₁⟩ := hx k d h hob hd
  obtain ⟨d₂, ho₂⟩ := hy _ d₁ (setDevice_faultFree h name _) hob (setDevice_self k name _)
  exact ⟨d₂, by rw [Proc.bind_of_ok ho₁, ho₂, setDevice_setDevice]⟩

variable {α : Type} {f : α → Proc Kernel Error Unit}

theorem Changes.forEach (hf : ∀ a, Changes name (f a)) : ∀ as : List α, Changes name (Proc.forEach f as)
  | [] => by
    intro k k' d _ hd ho
    cases ho
    exact ⟨d, (setDevice_same hd).symm⟩
  | a :: as => (hf a).bind (Changes.forEach hf as)

theorem Succeeds.forEach (hf : ∀ a, Succeeds name (f a)) : ∀ as : List α, Succeeds name (Proc.forEach f as)
  | [] => by
    intro k d _ _ hd
    exact ⟨d, by rw [Proc.forEach_nil, setDevice_same hd]⟩
  | a :: as => (hf a).bind (Succeeds.forEach hf as)

end OneDevice

/-- What follows once the link is added. -/
def setUpInterface (i : Interface) : Proc Kernel Error Unit := do
  Proc.forEach (addrAdd i.name) (networks i.ip i.ip6)
  linkSetUp i.name

theorem setUpInterface_changes (i : Interface) : Changes i.name (setUpInterface i) :=
  (Changes.forEach (fun _ => ask_changes _ _) _).bind (ask_changes _ _)

theorem setUpInterface_succeeds (i : Interface) : Succeeds i.name (setUpInterface i) :=
  (Succeeds.forEach (fun _ => ask_succeeds _ _) _).bind (ask_succeeds _ _)

theorem initializeInterface_of_key {i : Interface} {key : Key} (hk : parseKey i.privateKey = some key) :
    initializeInterface i = ask .notExist i.name (.configure (initialConfig i key).attrs) := by
  funext k
  unfold initializeInterface
  rw [hk]
  show configureDevice i.name (initialConfig i key) k = _
  rw [configureDevice_small i.name _ (Nat.zero_le _), configureBatch_of_valid fun p hp => (List.not_mem_nil hp).elim]

section New

variable {k k' : Kernel} {i : Interface} {key : Key}

/-- A name that the kernel takes leads to the link's own calls. -/
theorem startInterface_eq (h : k.FaultFree) (hne : i.name ≠ "") (hv : k.validName i.name = true) :
    startInterface i k = setUpInterface i (k.setDevice i.name (some Device.new)) := by
  have hadd := linkAdd_ok (setDevice_faultFree h i.name none) hne hv (setDevice_self k i.name none)
  rw [setDevice_setDevice] at hadd
  unfold startInterface
  rw [Proc.bind_of_ok (bringDown_eq h i.name), Proc.bind_of_ok hadd]
  rfl

/-- Only an interface with a name the kernel takes and a key that parses can be made. -/
theorem newInterface_ok (h : k.FaultFree) (ho : newInterface i k = (.ok (), k')) :
    i.name ≠ "" ∧ k.validName i.name = true ∧ (∃ key, parseKey i.privateKey = some key) ∧
      ∃ d, k' = k.setDevice i.name (some d) := by
  obtain ⟨_, k₁, hs, hi⟩ := Proc.bind_ok ho
  have hadd : ¬ (i.name = "" ∨ k.validName i.name = false) := by
    intro hbad
    obtain ⟨e, he⟩ := linkAdd_err (setDevice_faultFree h i.name none) hbad
    unfold startInterface at hs
    rw [Proc.bind_of_ok (bringDown_eq h i.name), Proc.bind_of_err he] at hs
    cases hs
  have hne : i.name ≠ "" := fun hne => hadd (.inl hne)
  have hv : k.validName i.name = true := by simpa using fun hv => hadd (.inr hv)
  rw [startInterface_eq h hne hv] at hs
  obtain ⟨d₁, rfl⟩ := setUpInterface_changes i _ _ _ (setDevice_faultFree h i.name _) (setDevice_self k i.name _) hs
  rw [setDevice_setDevice] at hi
  cases hk : parseKey i.privateKey with
  | none =>
    unfold initializeInterface at hi
    rw [hk] at hi
    cases hi
  | some key =>
    rw [initializeInterface_of_key hk] at hi
    obtain ⟨d, rfl⟩ := ask_changes _ _ _ _ _ (setDevice_faultFree h i.name _) (setDevice_self k i.name _) hi
    exact ⟨hne, hv, ⟨key, rfl⟩, d, setDevice_setDevice k i.name _ _⟩

theorem newInterface_succeeds (h : k.FaultFree) (hob : k.driver.Obliging) (hne : i.name ≠ "")
    (hv : k.validName i.name = true) (hk : parseKey i.privateKey = some key) :
    ∃ d, newInterface i k = (.ok (), k.setDevice i.name (some d)) := by
  obtain ⟨d₁, hs⟩ := setUpInterface_succeeds i _ _ (setDevice_faultFree h i.name (some Device.new)) hob
    (setDevice_self k i.name _)
  rw [setDevice_setDevice] at hs
  obtain ⟨d, hi⟩ := ask_succeeds .notExist (.configure (initialConfig i key).attrs) _ _
    (setDevice_faultFree h i.name (some d₁)) hob (setDevice_self k i.name _)
  refine ⟨d, ?_⟩
  unfold newInterface
  rw [Proc.bind_of_ok ((startInterface_eq h hne hv).trans hs), initializeInterface_of_key hk, hi, setDevice_setDevice]

end New

/-! ## An interface that the host takes -/

/-- The device that an interface describes, with the 16 and 32 bits that the kernel is given of its port
and its mark. -/
def interfaceDevice (i : Interface) (key : Key) (peers : Key → Option WgPeer) : Device :=
  { privateKey := some key
    listenPort := port16 i.port
    fwmark := if 0 < i.fwmark then mark32 i.fwmark else 0
    addrs := networks i.ip i.ip6
    up := true
    peers := peers }

/-- The device of a new interface. -/
def newDevice (i : Interface) (key : Key) : Device := interfaceDevice i key fun _ => none

/-- The host takes the interface as it is. -/
structure Granted (validName : String → Bool) (τ : Terms) (i : Interface) : Prop where
  name : i.name ≠ ""
  valid : validName i.name = true
  key : ∀ key ∈ parseKey i.privateKey, τ.keptKey key = true
  addrs : ∀ n ∈ networks i.ip i.ip6, τ.validAddr n = true
  distinct : ((networks i.ip i.ip6).map IPNet.chars).Nodup
  port : τ.freePort (port16 i.port) = true

instance (validName : String → Bool) (τ : Terms) (i : Interface) : Decidable (Granted validName τ i) :=
  decidable_of_iff (_ ∧ _ ∧ _ ∧ _ ∧ _ ∧ _)
    ⟨fun ⟨a, b, c, d, e, f⟩ => ⟨a, b, c, d, e, f⟩, fun ⟨a, b, c, d, e, f⟩ => ⟨a, b, c, d, e, f⟩⟩

section Lawful

variable {τ : Terms} {k : Kernel}

theorem addrAdd_forEach (name : String) (hl : k.driver.Lawful τ) (h : k.FaultFree) :
    ∀ (addrs : List IPNet) {d : Device}, d.up = false → (∀ a ∈ addrs, τ.validAddr a = true) →
      ((d.addrs ++ addrs).map IPNet.chars).Nodup →
      Proc.forEach (addrAdd name) addrs (k.setDevice name (some d)) =
        (.ok (), k.setDevice name (some { d with addrs := d.addrs ++ addrs }))
  | [], d, _, _, _ => by rw [Proc.forEach_nil, List.append_nil]
  | a :: addrs, d, hup, hva, hnd => by
    have hnew : ∀ b ∈ d.addrs, b.chars ≠ a.chars := by
      intro b hb heq
      rw [List.map_append, List.map_cons] at hnd
      exact (List.nodup_append.1 hnd).2.2 b.chars (List.mem_map_of_mem hb) a.chars List.mem_cons_self heq
    have hadd : addrAdd name a (k.setDevice name (some d)) =
        (.ok (), k.setDevice name (some { d with addrs := d.addrs ++ [a] })) := by
      have hdrv := hl.addrAdd (k.setDevice name (some d)).devices name d a hup (hva a List.mem_cons_self) hnew
      refine (ask_ok_iff _ (setDevice_faultFree h name _)).2 ⟨_, ⟨d, setDevice_self k name _, hdrv⟩, ?_⟩
      rw [setDevice_setDevice]
    have hrest := addrAdd_forEach name hl h addrs (d := { d with addrs := d.addrs ++ [a] }) hup
      (fun b hb => hva b (List.mem_cons_of_mem _ hb)) (by simpa using hnd)
    rw [Proc.forEach_cons, Proc.bind_of_ok hadd, hrest]
    simp

/-- A port that no other device has: the interface gets the device it describes. -/
theorem newInterface_granted (hl : k.driver.Lawful τ) (h : k.FaultFree) {i : Interface}
    (hg : Granted k.validName τ i) {key : Key} (hk : parseKey i.privateKey = some key)
    (hport : ∀ other d, other ≠ i.name → k.devices other = some d → d.listenPort ≠ port16 i.port) :
    newInterface i k = (.ok (), k.setDevice i.name (some (newDevice i key))) := by
  have haddrs := addrAdd_forEach i.name hl h (networks i.ip i.ip6) (d := Device.new) rfl hg.addrs hg.distinct
  obtain ⟨port, hup⟩ :=
    hl.setUp (k.setDevice i.name (some { Device.new with addrs := [] ++ networks i.ip i.ip6 })).devices
    i.name { Device.new with addrs := [] ++ networks i.ip i.ip6 } rfl rfl
  -- whatever port the link came up with, it is configured with the interface's own
  have hclean : Clean τ (k.setDevice i.name (some
        { Device.new with addrs := [] ++ networks i.ip i.ip6, up := true, listenPort := port })).devices i.name
      { Device.new with addrs := [] ++ networks i.ip i.ip6, up := true, listenPort :=
        port } (initialConfig i key).attrs := by
    refine ⟨fun key' hkey' => ?_, fun p hp => ?_, trivial⟩
    · cases hkey'
      exact ⟨hg.key key hk, fun _ => rfl⟩
    · cases hp
      refine ⟨hg.port, fun other d hne hd _ => hport other d hne ?_⟩
      rwa [setDevice_of_ne k hne] at hd
  have hsetup := (ask_ok_iff .netlink (setDevice_faultFree h i.name _)).2
    ⟨_, ⟨_, setDevice_self k i.name _, hup⟩, rfl⟩
  have hconf := (ask_ok_iff .notExist (setDevice_faultFree h i.name _)).2
    ⟨_, ⟨_, setDevice_self k i.name _, hl.configure _ i.name _ _ hclean⟩, rfl⟩
  rw [setDevice_setDevice] at hsetup hconf
  have hstart : startInterface i k = (.ok (), _) :=
    (startInterface_eq h hg.name hg.valid).trans ((Proc.bind_of_ok haddrs).trans hsetup)
  unfold newInterface
  rw [Proc.bind_of_ok hstart, initializeInterface_of_key hk, hconf]
  refine congrArg (fun d => ((.ok () : Outcome Error Unit), k.setDevice i.name (some d))) ?_
  unfold newDevice interfaceDevice initialConfig Config.attrs Device.configure
  by_cases hm : 0 < i.fwmark
  · simp only [if_pos hm]; rfl
  · simp only [if_neg hm]; rfl

end Lawful

end Wig.Gateway
