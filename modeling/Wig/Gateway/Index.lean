/-
The index of peers against the map of interfaces. The calls look an interface up by the name the
index gives and dereference what they find; a deleted interface stays in the index. So the gateway
survives exactly the runs that never delete an interface with peers, nor a peer it does not know.
-/
import Wig.Gateway.Wireguard

namespace Wig.Gateway

open Wig.Lib Wig.Net Wig.Model Wig.Crudlog Kernel

/-- Every interface the index names is there. -/
def Indexed (g : Gateway) : Prop := ∀ key name, g.peerIndex key = some name → name ∈ g.intfs.keys

/-- The call returns, with nil or with an error. -/
def Returns (g : Gateway) (e : Event) : Prop := (handle e g).1.Returned

/-- A peer operation is one of the three known ones; an interface is deleted after its peers have
left the index; a peer is deleted from an interface that is there, or not at all because its key
does not parse. -/
def Purged (g : Gateway) : Event → Prop
  | .apply ⟨_, .delete, _, .interface i⟩ _ => ∀ key, g.peerIndex key ≠ some i.name
  | .apply ⟨_, .delete, _, .peer p⟩ _ => parseKey p.publicKey = none ∨ g.indexed p.publicKey ∈ g.intfs.keys
  | .apply ⟨_, .unknown _, _, .peer _⟩ _ => False
  | _ => True

/-! ## Calls that keep the index -/

/-- What does not depend on the devices is kept by calls on them. -/
theorem onKernel_keeps {I : Gateway → Prop} {α : Type} {x : Proc Kernel Error α} (hx : x.Keeps fun _ => True)
    (hI : ∀ (g : Gateway) k, I g → I { g with kernel := k }) : (onKernel x).Keeps I :=
  hx.zoom fun g k h => hI g k h

theorem configureWGDevice_keeps {I : Gateway → Prop} (hI : ∀ (g : Gateway) k, I g → I { g with kernel := k })
    (wgi : Interface) (cfg : Config) : (configureWGDevice (some wgi) cfg).Keeps I :=
  onKernel_keeps (configureDevice_keeps wgi.name cfg) hI

theorem Indexed.onKernel {g : Gateway} (k : Kernel) (h : Indexed g) : Indexed { g with kernel := k } := h

theorem applyInterface_create_keeps (i : Interface) : (applyInterface .create i).Keeps Indexed := by
  intro g hg
  cases hf : g.intfs.find? i.name with
  | some wgi => rw [applyInterface_create_exists hf]; exact ⟨trivial, hg⟩
  | none =>
    rw [applyInterface_create hf]
    -- the map only grows, so the names the index gives stay in it
    refine (onKernel_keeps (newInterface_keeps i) fun _ k h => h.onKernel k).bind (fun _ => Proc.keeps_modify ?_) g hg
    intro g h key name hkey
    exact Table.mem_keys_upsert.2 (.inr (h key name hkey))

theorem reconfigure_keeps (wgi i : Interface) : (reconfigure wgi i).Keeps Indexed := by
  have hk : ∀ (g : Gateway) k, Indexed g → Indexed { g with kernel := k } := fun _ k h => h.onKernel k
  refine (onKernel_keeps (bringDown_keeps wgi.name) hk).bind fun _ => Proc.Keeps.bind (Proc.keeps_modify ?_) fun _ =>
    (onKernel_keeps (initializeInterface_keeps i) hk).bind fun _ => onKernel_keeps (startInterface_keeps i) hk
  intro g h key name hkey
  show name ∈ (g.intfs.replace i).keys
  rw [Table.keys_replace]
  exact h key name hkey

theorem applyInterface_update_keeps (i : Interface) : (applyInterface .update i).Keeps Indexed := by
  intro g hg
  cases hf : g.intfs.find? i.name with
  | none => rw [applyInterface_update_missing hf]; exact ⟨trivial, hg⟩
  | some wgi => rw [applyInterface_update hf]; exact reconfigure_keeps wgi i g hg

/-- Deleting an interface takes it out of the map whatever the kernel says. -/
theorem applyInterface_delete_eq {g : Gateway} {i wgi : Interface} (hf : g.intfs.find? i.name = some wgi) :
    ∃ k, applyInterface .delete i g = (.ok (), { g with intfs := g.intfs.erase i.name, kernel := k }) := by
  rw [applyInterface_delete hf]
  have hret := (bringDown_keeps wgi.name g.kernel trivial).1
  -- the error of stopInterface is ignored, and the entry deleted in any case
  rcases hs : stopInterface wgi g.kernel with ⟨(u | e | _ | _), k⟩
  · exact ⟨k, by rw [Proc.bind_of_ok (Proc.ignoreErr_of_ok (onKernel_of_ok hs))]; rfl⟩
  · exact ⟨k, by rw [Proc.bind_of_ok (Proc.ignoreErr_of_err (onKernel_of_err hs))]; rfl⟩
  · unfold stopInterface at hs; rw [hs] at hret; exact absurd hret id
  · unfold stopInterface at hs; rw [hs] at hret; exact absurd hret id

/-- Setting the index to an interface that is there keeps it right. -/
theorem setIndex_keeps (key name : String) :
    (setIndex key name).Keeps fun g => Indexed g ∧ name ∈ g.intfs.keys := by
  refine Proc.keeps_modify fun g ⟨hg, hname⟩ => ⟨?_, hname⟩
  intro key' name' h
  change Function.update g.peerIndex key (some name) key' = some name' at h
  by_cases hk : key' = key
  · subst hk
    rw [Function.update_self] at h
    cases h
    exact hname
  · rw [Function.update_of_ne hk] at h
    exact hg key' name' h

theorem deconfigure_keeps (p : Peer) : (deconfigure p).Keeps fun g => Indexed g ∧ p.interface ∈ g.intfs.keys := by
  intro g hg
  unfold deconfigure
  rw [Proc.bind_of_ok (Proc.get_apply g)]
  split
  · rename_i hold
    -- a name that is not empty comes from an entry of the index
    have hmem : g.indexed p.publicKey ∈ g.intfs.keys := hg.1 _ _ ((indexed_eq_iff hold.1).1 rfl)
    obtain ⟨wgi, hwgi⟩ := Table.mem_keys_iff_find?.1 hmem
    rw [hwgi]
    have hconf := configureWGDevice_keeps (I := fun g => Indexed g ∧ p.interface ∈ g.intfs.keys) (fun _ _ h => h) wgi
    exact (hconf _).ignoreErr g hg
  · exact ⟨trivial, hg⟩

theorem applyPeer_create_keeps (p : Peer) : (applyPeer .create p).Keeps Indexed := by
  intro g hg
  cases hf : g.intfs.find? p.interface with
  | none => rw [applyPeer_create_missing hf]; exact ⟨trivial, hg⟩
  | some wgi =>
    rw [applyPeer_create hf]
    have h := (setIndex_keeps p.publicKey p.interface).bind fun _ =>
      (Proc.keeps_lift (peerToConfig p false false)).bind fun cfg =>
        configureWGDevice_keeps (fun _ _ h => h) wgi (peersConfig false [cfg])
    obtain ⟨hret, hI, -⟩ := h g ⟨hg, Table.mem_keys_iff_find?.2 ⟨wgi, hf⟩⟩
    exact ⟨hret, hI⟩

theorem applyPeer_update_keeps (p : Peer) : (applyPeer .update p).Keeps Indexed := by
  intro g hg
  cases hf : g.intfs.find? p.interface with
  | none => rw [applyPeer_update_missing hf]; exact ⟨trivial, hg⟩
  | some wgi =>
    rw [applyPeer_update hf]
    have h := (deconfigure_keeps p).bind fun _ => (setIndex_keeps p.publicKey p.interface).bind fun _ =>
      (Proc.keeps_lift (peerToConfig p true false)).bind fun cfg =>
        configureWGDevice_keeps (fun _ _ h => h) wgi (peersConfig false [cfg])
    obtain ⟨hret, hI, -⟩ := h g ⟨hg, Table.mem_keys_iff_find?.2 ⟨wgi, hf⟩⟩
    exact ⟨hret, hI⟩

/-! ## Snapshots -/

theorem indexPeers_some {name : String} : ∀ (peers : List Peer) {index : String → Option String} {key name' : String},
    indexPeers index name peers key = some name' → name' = name ∨ index key = some name'
  | [], _, _, _, h => .inr h
  | p :: peers, index, key, name', h => by
    rcases indexPeers_some peers h with rfl | h
    · exact .inl rfl
    · change Function.update index p.publicKey (some name) key = some name' at h
      by_cases hk : key = p.publicKey
      · subst hk
        rw [Function.update_self] at h
        cases h
        exact .inl rfl
      · rw [Function.update_of_ne hk] at h
        exact .inr h

/-- The maps that a loaded snapshot leaves name only its own interfaces. -/
theorem loadInterfaces_indexed (peers : String → List Peer) : ∀ (intfs : List Interface) {t t' : Table Interface.name}
    {index index' : String → Option String} {k k' : Kernel}, (∀ key name, index key = some name → name ∈ t.keys) →
    loadInterfaces peers intfs t index k = (.ok (t', index'), k') → ∀ key name, index' key = some name → name ∈ t'.keys
  | [], _, _, _, _, _, _, h, ho => by cases ho; exact h
  | i :: intfs, t, t', index, index', k, k', h, ho => by
    obtain ⟨_, k1, -, ho⟩ := Proc.bind_ok ho
    obtain ⟨wgPeers, k2, -, ho⟩ := Proc.bind_ok ho
    obtain ⟨_, k3, -, ho⟩ := Proc.bind_ok ho
    refine loadInterfaces_indexed peers intfs ?_ ho
    intro key name hkey
    rcases indexPeers_some _ hkey with rfl | hkey
    · exact Table.mem_keys_upsert.2 (.inl rfl)
    · exact Table.mem_keys_upsert.2 (.inr (h key name hkey))

theorem loadInterfaces_keeps (peers : String → List Peer) : ∀ (intfs : List Interface) (t : Table Interface.name)
    (index : String → Option String), (loadInterfaces peers intfs t index).Keeps fun _ => True
  | [], _, _ => Proc.keeps_pure _
  | i :: intfs, _, _ =>
    (newInterface_keeps i).bind fun _ => (Proc.keeps_lift _).bind fun _ =>
      (configureDevice_keeps i.name _).bind fun _ => loadInterfaces_keeps peers intfs _ _

theorem loadSnapshot_keeps (snap : Snapshot Value) : (loadSnapshot snap).Keeps Indexed := by
  intro g hg
  have hclose : (onKernel (closeAllInterfaces g.intfs.rows)).Keeps Indexed :=
    onKernel_keeps (Proc.Keeps.forEach (fun i : Interface => (bringDown_keeps i.name).ignoreErr) _)
      fun _ k h => h.onKernel k
  unfold loadSnapshot
  rw [Proc.bind_of_ok (Proc.get_apply g)]
  -- the maps are replaced only after the loop, so an error in it leaves the old ones
  refine hclose.bind (fun _ => ?_) g hg
  intro g hg
  have hret := (loadInterfaces_keeps (snapshotPeers snap.items) (snapshotInterfaces snap.items) Table.empty
    (fun _ => none) g.kernel trivial).1
  rcases hl : loadInterfaces (snapshotPeers snap.items) (snapshotInterfaces snap.items) Table.empty (fun _ => none)
    g.kernel with ⟨(r | e | _ | _), k⟩
  · obtain ⟨t, index⟩ := r
    rw [Proc.bind_of_ok (onKernel_of_ok hl)]
    exact ⟨trivial, loadInterfaces_indexed _ _ (fun _ _ h => by cases h) hl⟩
  · rw [Proc.bind_of_err (onKernel_of_err hl)]
    exact ⟨trivial, hg.onKernel k⟩
  · rw [hl] at hret; exact absurd hret id
  · rw [hl] at hret; exact absurd hret id

/-! ## Which calls keep the index -/

theorem step_iff (I : Gateway → Prop) (g : Gateway) (e : Event) :
    (Returns g e ∧ ∀ g', step g e = some g' → I g') ↔ (handle e g).1.Returned ∧ I (handle e g).2 := by
  unfold Returns step
  rcases handle e g with ⟨(u | e | _ | _), g'⟩
  · exact and_congr_right fun _ => ⟨fun h => h g' rfl, fun h _ heq => by cases heq; exact h⟩
  · exact and_congr_right fun _ => ⟨fun h => h g' rfl, fun h _ heq => by cases heq; exact h⟩
  · exact ⟨fun h => absurd h.1 id, fun h => absurd h.1 id⟩
  · exact ⟨fun h => absurd h.1 id, fun h => absurd h.1 id⟩

/-- Storing the sequence number changes neither map. -/
theorem apply_indexed_iff (op : Op Value) (fromLog : Bool) (g : Gateway) :
    ((apply op fromLog g).1.Returned ∧ Indexed (apply op fromLog g).2) ↔
      (dispatch op g).1.Returned ∧ Indexed (dispatch op g).2 := by
  rw [apply_eq]
  rcases h : dispatch op g with ⟨(u | e | _ | _), g'⟩
  · rw [Proc.bind_of_ok h]; exact Iff.rfl
  · rw [Proc.bind_of_err h]
  · rw [Proc.bind_of_crash h]
  · rw [Proc.bind_of_block h]

theorem applyInterface_delete_iff {g : Gateway} (hg : Indexed g) (i : Interface) :
    (∀ key, g.peerIndex key ≠ some i.name) ↔
      (applyInterface .delete i g).1.Returned ∧ Indexed (applyInterface .delete i g).2 := by
  cases hf : g.intfs.find? i.name with
  | none =>
    rw [applyInterface_delete_missing hf]
    exact ⟨fun _ => ⟨trivial, hg⟩, fun _ key hkey => Table.find?_eq_none.1 hf (hg key i.name hkey)⟩
  | some wgi =>
    obtain ⟨k, hk⟩ := applyInterface_delete_eq hf
    rw [hk]
    constructor
    · intro h
      refine ⟨trivial, fun key name hkey => ?_⟩
      exact Table.mem_keys_erase.2 ⟨hg key name hkey, fun heq => h key (heq ▸ hkey)⟩
    · rintro ⟨-, h⟩ key hkey
      exact (Table.mem_keys_erase.1 (h key i.name hkey)).2 rfl

theorem applyPeer_delete_iff {g : Gateway} (hg : Indexed g) (p : Peer) :
    (parseKey p.publicKey = none ∨ g.indexed p.publicKey ∈ g.intfs.keys) ↔
      (applyPeer .delete p g).1.Returned ∧ Indexed (applyPeer .delete p g).2 := by
  rw [applyPeer_delete, peerToConfig_remove]
  cases parseKey p.publicKey with
  | none => exact ⟨fun _ => ⟨trivial, hg⟩, fun _ => .inl rfl⟩
  | some key =>
    rw [Proc.bind_of_ok (Proc.lift_ok_iff.2 ⟨rfl, rfl⟩)]
    cases hf : g.intfs.find? (g.indexed p.publicKey) with
    | none =>
      -- the call dereferences nil
      have hmem := Table.find?_eq_none.1 hf
      constructor
      · rintro (h | h)
        · cases h
        · exact absurd h hmem
      · rintro ⟨h, -⟩
        exact absurd h id
    | some wgi =>
      have hkeep := configureWGDevice_keeps (I := Indexed) (fun _ k h => h.onKernel k) wgi
      exact ⟨fun _ => hkeep _ g hg, fun _ => .inr (Table.mem_keys_iff_find?.2 ⟨wgi, hf⟩)⟩

/-- The index survives a call, and the gateway too, exactly if the call is one of `Purged`. -/
theorem purged_iff (g : Gateway) (e : Event) (hg : Indexed g) :
    Purged g e ↔ Returns g e ∧ ∀ g', step g e = some g' → Indexed g' := by
  rw [step_iff]
  cases e with
  | loadSnapshot snap => exact ⟨fun _ => loadSnapshot_keeps snap g hg, fun _ => trivial⟩
  | apply op fromLog =>
    refine Iff.trans ?_ (apply_indexed_iff op fromLog g).symm
    obtain ⟨seq, ty, ts, v⟩ := op
    cases v with
    | token t => cases ty <;> exact ⟨fun _ => ⟨trivial, hg⟩, fun _ => trivial⟩
    | other => cases ty <;> exact ⟨fun _ => ⟨trivial, hg⟩, fun _ => trivial⟩
    | interface i =>
      cases ty with
      | create => exact ⟨fun _ => applyInterface_create_keeps i g hg, fun _ => trivial⟩
      | update => exact ⟨fun _ => applyInterface_update_keeps i g hg, fun _ => trivial⟩
      | delete => exact applyInterface_delete_iff hg i
      | unknown c => exact ⟨fun _ => ⟨trivial, hg⟩, fun _ => trivial⟩
    | peer p =>
      cases ty with
      | create => exact ⟨fun _ => applyPeer_create_keeps p g hg, fun _ => trivial⟩
      | update => exact ⟨fun _ => applyPeer_update_keeps p g hg, fun _ => trivial⟩
      | delete => exact applyPeer_delete_iff hg p
      | unknown c =>
        show False ↔ (applyPeer (.unknown c) p g).1.Returned ∧ _
        rw [applyPeer_unknown]
        exact ⟨False.elim, fun h => absurd h.1 id⟩

/-! ## Runs -/

/-- A run of a new gateway on any kernel keeps the index within the map, and never dereferences a
missing interface, exactly if each of its calls is one of `Purged`. -/
theorem index_safe_iff (k : Kernel) (es : List Event) :
    system.Along Purged (new k) es ↔ system.Throughout Indexed (new k) es ∧ system.Along Returns (new k) es :=
  System.along_iff_throughout purged_iff es (new k) fun _ _ h => by cases h

/-- Two interfaces and a peer on the first, which is then deleted. -/
def staleRun : List Event :=
  [sampleOp .create (.interface (sampleInterface "wg0")), sampleOp .create (.interface (sampleInterface "wg1")),
    sampleOp .create (.peer (samplePeer "wg0")), sampleOp .delete (.interface (sampleInterface "wg0"))]

/-- The index still names the deleted interface, and moving the peer away from it dereferences nil. -/
theorem index_unsafe : ∃ g, system.run (new sampleHost) staleRun = some g ∧ ¬ Indexed g ∧
    ¬ Returns g (sampleOp .update (.peer (samplePeer "wg1"))) := by
  have hrun : (system.run (new sampleHost) staleRun).map
      (fun g => (g.peerIndex (samplePeer "wg0").publicKey, g.intfs.keys,
        (handle (sampleOp .update (.peer (samplePeer "wg1"))) g).1)) = some (some "wg0", ["wg1"], .crash) := by
    decide +kernel
  obtain ⟨g, hg, hstate⟩ := Option.map_eq_some_iff.1 hrun
  rw [Prod.mk.injEq, Prod.mk.injEq] at hstate
  obtain ⟨hindex, hkeys, hcrash⟩ := hstate
  refine ⟨g, hg, fun h => ?_, fun h => ?_⟩
  · have hmem := h _ _ hindex
    rw [hkeys] at hmem
    exact absurd hmem (by decide)
  · unfold Returns at h
    rw [hcrash] at h
    exact h

end Wig.Gateway
