import HelixProxy.Postgres
import HelixProxy.RoutingFacts

/-!
# Compiling a store state

The listing statements of `internal/store/postgres.go` over tables that keep the
schema's keys and foreign keys, and what a compile pass over them makes of one
target: the tunnel of its lowest tier, else of its own profile.
-/

namespace HelixProxy.Store

set_option autoImplicit false

/-- The keys and foreign keys of the schema. An id is a uuid, so never empty. -/
structure Keyed (t : Tables) : Prop where
  profile_ids : (t.vpnProfiles.map VPNProfile.id).Nodup
  profile_names : (t.vpnProfiles.map VPNProfile.name).Nodup
  profile_id_ne : ∀ p ∈ t.vpnProfiles, p.id ≠ []
  target_ids : (t.targetHosts.map TargetHost.id).Nodup
  target_aliases : (t.targetHosts.map TargetHost.publicAlias).Nodup
  target_profile : ∀ h ∈ t.targetHosts, h.vpnProfileID = [] ∨
    ∃ p ∈ t.vpnProfiles, p.id = h.vpnProfileID
  tier_slots : (t.tiers.map fun r => (r.targetID, r.tier)).Nodup
  tier_profiles : (t.tiers.map fun r => (r.targetID, r.vpnProfileID)).Nodup
  tier_target : ∀ r ∈ t.tiers, ∃ h ∈ t.targetHosts, h.id = r.targetID
  tier_profile : ∀ r ∈ t.tiers, ∃ p ∈ t.vpnProfiles, p.id = r.vpnProfileID

structure Database where
  tables : Tables
  keyed : Keyed tables

/-- How the server answers the listings: the order of its collation, and `host()`. -/
structure Reader where
  before : Bytes → Bytes → Bool
  host : Bytes → Bytes

def Reader.target (rd : Reader) (h : TargetHost) : TargetHost :=
  { h with privateIP := rd.host h.privateIP }

def sqlListProfiles (rd : Reader) (t : Tables) : List VPNProfile :=
  t.vpnProfiles.insertionSort fun p q => rd.before p.name q.name

def sqlListTargets (rd : Reader) (t : Tables) : List TargetHost :=
  (t.targetHosts.map rd.target).insertionSort fun h k => rd.before h.publicAlias k.publicAlias

def sqlListTiers (targetID : Bytes) (t : Tables) : List TargetTunnelTier :=
  (t.tiers.filter (·.targetID = targetID)).insertionSort fun r s => r.tier ≤ s.tier

def Database.queries (rd : Reader) (db : Database) : Queries where
  listProfiles := some
    { rows := sqlListProfiles rd db.tables
      ids_nodup := ((List.perm_insertionSort _ _).map _).nodup_iff.mpr db.keyed.profile_ids
      names_nodup := ((List.perm_insertionSort _ _).map _).nodup_iff.mpr db.keyed.profile_names }
  listTargets := some
    { rows := sqlListTargets rd db.tables
      aliases_nodup := ((List.perm_insertionSort _ _).map _).nodup_iff.mpr (by
        rw [List.map_map]
        exact db.keyed.target_aliases) }
  listTiers id := some (sqlListTiers id db.tables)

/-- The row of the target with the lowest tier. -/
def LowestTier (tiers : List TargetTunnelTier) (targetID : Bytes) (r : TargetTunnelTier) : Prop :=
  r ∈ tiers ∧ r.targetID = targetID ∧ ∀ s ∈ tiers, s.targetID = targetID → r.tier ≤ s.tier

/-- The id of the primary profile of a target and the tier it comes from. -/
inductive PrimaryID (tiers : List TargetTunnelTier) (h : TargetHost) : Bytes → Int → Prop
  | tier {r : TargetTunnelTier} : LowestTier tiers h.id r → PrimaryID tiers h r.vpnProfileID r.tier
  | fallback : (∀ r ∈ tiers, r.targetID ≠ h.id) → h.vpnProfileID ≠ [] →
      PrimaryID tiers h h.vpnProfileID 0

theorem mem_sqlListTiers {targetID : Bytes} {t : Tables} {r : TargetTunnelTier} :
    r ∈ sqlListTiers targetID t ↔ r ∈ t.tiers ∧ r.targetID = targetID := by
  simp [sqlListTiers]

/-- The first row of the listing is the lowest tier. -/
theorem lowestTier_of_cons {targetID : Bytes} {t : Tables} {first : TargetTunnelTier}
    {rest : List TargetTunnelTier} (h : sqlListTiers targetID t = first :: rest) :
    LowestTier t.tiers targetID first := by
  have hfirst : first ∈ sqlListTiers targetID t := by simp [h]
  obtain ⟨hmem, htarget⟩ := mem_sqlListTiers.mp hfirst
  refine ⟨hmem, htarget, fun s hs hst => ?_⟩
  have hsorted : (sqlListTiers targetID t).Pairwise fun r s => r.tier ≤ s.tier :=
    List.pairwise_insertionSort _ _
  rw [h, List.pairwise_cons] at hsorted
  have hs' : s ∈ first :: rest := h ▸ mem_sqlListTiers.mpr ⟨hs, hst⟩
  rcases List.mem_cons.mp hs' with rfl | hs'
  · exact Int.le_refl _
  · exact hsorted.1 s hs'

theorem LowestTier.unique {t : Tables} (ht : Keyed t) {targetID : Bytes} {r s : TargetTunnelTier}
    (hr : LowestTier t.tiers targetID r) (hs : LowestTier t.tiers targetID s) : r = s := by
  have htier : r.tier = s.tier :=
    Int.le_antisymm (hr.2.2 s hs.1 hs.2.1) (hs.2.2 r hr.1 hr.2.1)
  refine List.inj_on_of_nodup_map ht.tier_slots hr.1 hs.1 ?_
  simp only [hr.2.1, hs.2.1, htier]

theorem PrimaryID.unique {t : Tables} (ht : Keyed t) {h : TargetHost} {u v : Bytes} {m n : Int}
    (hu : PrimaryID t.tiers h u m) (hv : PrimaryID t.tiers h v n) : u = v ∧ m = n := by
  cases hu with
  | tier hr =>
    cases hv with
    | tier hs =>
      obtain rfl := hr.unique ht hs
      exact ⟨rfl, rfl⟩
    | fallback hnone _ => exact absurd hr.2.1 (hnone _ hr.1)
  | fallback hnone _ =>
    cases hv with
    | tier hs => exact absurd hs.2.1 (hnone _ hs.1)
    | fallback _ _ => exact ⟨rfl, rfl⟩

/-- Read off the listing, the primary profile is that of the lowest tier. -/
theorem primary_iff {t : Tables} (ht : Keyed t) (h : TargetHost) (p : VPNProfile) (tier : Int) :
    Routing.Primary h (sqlListTiers h.id t) p tier ↔ PrimaryID t.tiers h p.id tier := by
  cases hlist : sqlListTiers h.id t with
  | nil =>
    have hnone : ∀ r ∈ t.tiers, r.targetID ≠ h.id := by
      intro r hr htarget
      have hmem := mem_sqlListTiers.mpr ⟨hr, htarget⟩
      simp [hlist] at hmem
    constructor
    · rintro ⟨hne, hid, rfl⟩
      rw [hid]
      exact .fallback hnone hne
    · intro hp
      generalize hu : p.id = u at hp
      cases hp with
      | tier hr => exact absurd hr.2.1 (hnone _ hr.1)
      | fallback _ hne => exact ⟨hne, hu, rfl⟩
  | cons first rest =>
    have hfirst := lowestTier_of_cons hlist
    constructor
    · rintro ⟨hid, rfl⟩
      rw [hid]
      exact .tier hfirst
    · intro hp
      exact hp.unique ht (.tier hfirst)

end HelixProxy.Store

namespace HelixProxy.Routing

open Store
set_option autoImplicit false

/-- The routes and Dante blocks a compile pass made for an alias. -/
def Compiled.forAlias (c : Compiled) (publicAlias : Bytes) : List Resolved :=
  c.resolved.filter (·.route.target = publicAlias)

theorem filter_key_eq {α κ : Type} [DecidableEq κ] {keyOf : α → κ} {l : List α}
    (hl : (l.map keyOf).Nodup) {a : α} (ha : a ∈ l) : l.filter (keyOf · = keyOf a) = [a] := by
  obtain ⟨s, t, rfl⟩ := List.append_of_mem ha
  rw [List.map_append, List.map_cons, List.nodup_middle, ← List.map_append, List.nodup_cons] at hl
  have hother : ∀ x ∈ s ++ t, ¬decide (keyOf x = keyOf a) = true := by
    intro x hx heq
    exact hl.1 (of_decide_eq_true heq ▸ List.mem_map_of_mem hx)
  have hs : s.filter (keyOf · = keyOf a) = [] :=
    List.filter_eq_nil_iff.mpr fun x hx => hother x (List.mem_append_left t hx)
  have ht : t.filter (keyOf · = keyOf a) = [] :=
    List.filter_eq_nil_iff.mpr fun x hx => hother x (List.mem_append_right s hx)
  rw [List.filter_append, hs, List.filter_cons_of_pos (by simp), ht, List.nil_append]

/-- Values made from elements with different keys, of which they keep the key, are
found again under it. -/
theorem filter_filterMap_key {α β κ : Type} [DecidableEq κ] {f : α → Option β} {keyOf : α → κ}
    {key : β → κ} (hf : ∀ a b, f a = some b → key b = keyOf a) {l : List α}
    (hl : (l.map keyOf).Nodup) {a : α} (ha : a ∈ l) :
    (l.filterMap f).filter (key · = keyOf a) = (f a).toList := by
  have hkeys : (l.filterMap f).filter (key · = keyOf a) =
      (l.filter (keyOf · = keyOf a)).filterMap f := by
    rw [List.filter_filterMap, List.filterMap_filter]
    refine List.filterMap_congr fun x _ => ?_
    cases hx : f x with
    | none => simp
    | some b => simp [Option.filter, hf x b hx]
  rw [hkeys, filter_key_eq hl ha]
  cases hfa : f a <;> simp [hfa]

section Compile

variable (rd : Reader) (db : Database)

theorem compileAll_database : ∃ c, compileAll (db.queries rd) = some c := by
  refine (compileAll_isSome_iff _).mpr ⟨_, _, rfl, rfl, fun _ _ _ => ⟨_, rfl⟩⟩

variable {rd db} {c : Compiled} (hc : compileAll (db.queries rd) = some c)
include hc

theorem tunnels_database : c.tunnels = resolveTunnels (sqlListProfiles rd db.tables) := by
  obtain ⟨ps, ts, hps, -, htun, -⟩ := compileAll_eq_some hc
  cases hps
  exact htun

/-- A target has one route at most, and it has one exactly if its primary profile
can carry it. -/
theorem forAlias_eq {h : TargetHost} (hh : h ∈ sqlListTargets rd db.tables) :
    ∃ out : Option Resolved, c.forAlias h.publicAlias = out.toList ∧
      ∀ x, out = some x ↔ h.enabled = true ∧ ∃ p ∈ db.tables.vpnProfiles, p.enabled = true ∧
        p.name ≠ [] ∧ ∃ tier, PrimaryID db.tables.tiers h p.id tier ∧ x = resolvedVia h p tier := by
  obtain ⟨ps, ts, hps, hts, -, hrs⟩ := compileAll_eq_some hc
  have hres := fun tgt x => resolveTarget_eq_some_iff (db.queries rd) ps tgt x
  have heq := resolveTargets_eq_filterMap hrs
  cases hps
  cases hts
  refine ⟨(resolveTarget (db.queries rd) (nameByID (sqlListProfiles rd db.tables))
    (peerByProfile (resolveTunnels (sqlListProfiles rd db.tables))) h).join, ?_, fun x => ?_⟩
  · rw [Compiled.forAlias, heq]
    refine filter_filterMap_key (fun tgt x hx => ?_) (Targets.aliases_nodup _) hh
    obtain ⟨p, tier, -, rfl⟩ := (hres tgt x).mp (Option.join_eq_some_iff.mp hx)
    rfl
  · rw [Option.join_eq_some_iff, hres]
    simp only [ResolvesTo, Database.queries, Option.some.injEq, exists_eq_left',
      primary_iff db.keyed, sqlListProfiles, List.mem_insertionSort]
    grind

theorem forAlias_of_primary {h : TargetHost} (hh : h ∈ sqlListTargets rd db.tables) {u : Bytes}
    {tier : Int} (hu : PrimaryID db.tables.tiers h u tier) {p : VPNProfile}
    (hp : p ∈ db.tables.vpnProfiles) (hid : p.id = u) :
    c.forAlias h.publicAlias =
      if h.enabled = true ∧ p.enabled = true ∧ p.name ≠ [] then [resolvedVia h p tier] else [] := by
  obtain ⟨out, hout, hiff⟩ := forAlias_eq hc hh
  rw [hout]
  split
  · next hcan =>
    have hsome := (hiff _).mpr ⟨hcan.1, p, hp, hcan.2.1, hcan.2.2, tier, hid ▸ hu, rfl⟩
    simp [hsome]
  · next hcan =>
    cases out with
    | none => rfl
    | some x =>
      obtain ⟨hen, p', hp', hen', hne', tier', hu', -⟩ := (hiff x).mp rfl
      have hsame : p' = p :=
        List.inj_on_of_nodup_map db.keyed.profile_ids hp' hp ((hu'.unique db.keyed hu).1.trans hid.symm)
      exact absurd ⟨hen, hsame ▸ hen', hsame ▸ hne'⟩ hcan

theorem forAlias_of_no_primary {h : TargetHost} (hh : h ∈ sqlListTargets rd db.tables)
    (hnone : ∀ u tier, ¬PrimaryID db.tables.tiers h u tier) : c.forAlias h.publicAlias = [] := by
  obtain ⟨out, hout, hiff⟩ := forAlias_eq hc hh
  rw [hout]
  cases out with
  | none => rfl
  | some x =>
    obtain ⟨-, p, -, -, -, tier, hu, -⟩ := (hiff x).mp rfl
    exact absurd hu (hnone p.id tier)

end Compile

end HelixProxy.Routing
