import HelixProxy.ControlAudit
import HelixProxy.StoreReads

/-!
# Deleting a profile

What a compile pass makes of the store after `deleteProfile` has committed: the
profile is gone from every output, a target that used it moves to its lowest
remaining tier or to its own profile, and nothing else changes.
-/

namespace HelixProxy.Store

set_option autoImplicit false

/-- `ON DELETE SET NULL`. -/
def TargetHost.clearProfile (u : Bytes) (h : TargetHost) : TargetHost :=
  if h.vpnProfileID = u then { h with vpnProfileID := [] } else h

def Tables.withoutProfile (u : Bytes) (t : Tables) : Tables :=
  { t with
    vpnProfiles := t.vpnProfiles.filter (·.id ≠ u)
    targetHosts := t.targetHosts.map (TargetHost.clearProfile u)
    tiers := t.tiers.filter (·.vpnProfileID ≠ u) }

theorem sqlDeleteProfile_eq {pg : Server} {id u : Bytes} (h : pg.uuid id = some u) (t : Tables) :
    sqlDeleteProfile pg id t = .ok (t.withoutProfile u) := by
  simp only [sqlDeleteProfile, h]
  rfl

theorem clearProfile_eq (u : Bytes) (h : TargetHost) : h.clearProfile u =
    { h with vpnProfileID := if h.vpnProfileID = u then [] else h.vpnProfileID } := by
  unfold TargetHost.clearProfile
  split <;> rfl

theorem clearProfile_of_ne {u : Bytes} {h : TargetHost} (hne : h.vpnProfileID ≠ u) :
    h.clearProfile u = h := if_neg hne

@[simp] theorem clearProfile_id (u : Bytes) (h : TargetHost) : (h.clearProfile u).id = h.id := by
  rw [clearProfile_eq]

@[simp] theorem clearProfile_publicAlias (u : Bytes) (h : TargetHost) :
    (h.clearProfile u).publicAlias = h.publicAlias := by
  rw [clearProfile_eq]

@[simp] theorem clearProfile_privateIP (u : Bytes) (h : TargetHost) :
    (h.clearProfile u).privateIP = h.privateIP := by
  rw [clearProfile_eq]

@[simp] theorem clearProfile_enabled (u : Bytes) (h : TargetHost) :
    (h.clearProfile u).enabled = h.enabled := by
  rw [clearProfile_eq]

theorem clearProfile_vpnProfileID (u : Bytes) (h : TargetHost) :
    (h.clearProfile u).vpnProfileID = if h.vpnProfileID = u then [] else h.vpnProfileID := by
  rw [clearProfile_eq]

theorem Keyed.withoutProfile {t : Tables} (ht : Keyed t) (u : Bytes) :
    Keyed (t.withoutProfile u) where
  profile_ids := ht.profile_ids.sublist (List.filter_sublist.map _)
  profile_names := ht.profile_names.sublist (List.filter_sublist.map _)
  profile_id_ne p hp := ht.profile_id_ne p (List.mem_of_mem_filter hp)
  target_ids := by
    simpa [Tables.withoutProfile, Function.comp_def] using ht.target_ids
  target_aliases := by
    simpa [Tables.withoutProfile, Function.comp_def] using ht.target_aliases
  target_profile := by
    intro h hh
    obtain ⟨k, hk, rfl⟩ := List.mem_map.mp hh
    rw [clearProfile_vpnProfileID]
    split
    · exact .inl rfl
    · next hne =>
      refine (ht.target_profile k hk).imp_right ?_
      rintro ⟨p, hp, hid⟩
      exact ⟨p, List.mem_filter.mpr ⟨hp, by simpa [hid] using hne⟩, hid⟩
  tier_slots := ht.tier_slots.sublist (List.filter_sublist.map _)
  tier_profiles := ht.tier_profiles.sublist (List.filter_sublist.map _)
  tier_target := by
    intro r hr
    obtain ⟨h, hh, hid⟩ := ht.tier_target r (List.mem_of_mem_filter hr)
    exact ⟨_, List.mem_map_of_mem hh, by simpa using hid⟩
  tier_profile := by
    intro r hr
    obtain ⟨hr, hne⟩ := List.mem_filter.mp hr
    obtain ⟨p, hp, hid⟩ := ht.tier_profile r hr
    exact ⟨p, List.mem_filter.mpr ⟨hp, by simpa [hid] using hne⟩, hid⟩

theorem Keyed.withAudit {t : Tables} (ht : Keyed t) (entries : List AuditLogEntry) :
    Keyed { t with auditLog := entries } :=
  ⟨ht.profile_ids, ht.profile_names, ht.profile_id_ne, ht.target_ids, ht.target_aliases,
    ht.target_profile, ht.tier_slots, ht.tier_profiles, ht.tier_target, ht.tier_profile⟩

def Database.withoutProfile (u : Bytes) (entries : List AuditLogEntry) (db : Database) : Database :=
  ⟨{ db.tables.withoutProfile u with auditLog := entries },
    (db.keyed.withoutProfile u).withAudit entries⟩

/-- The targets are listed as before, in the same order. -/
theorem sqlListTargets_withoutProfile (rd : Reader) (u : Bytes) (t : Tables) :
    sqlListTargets rd (t.withoutProfile u) =
      (sqlListTargets rd t).map (TargetHost.clearProfile u) := by
  have hread : ∀ h : TargetHost, rd.target (h.clearProfile u) = (rd.target h).clearProfile u := by
    intro h
    unfold TargetHost.clearProfile Reader.target
    split <;> rfl
  unfold sqlListTargets
  rw [List.map_insertionSort _ (fun h k : TargetHost => rd.before h.publicAlias k.publicAlias) _ _
    (by simp)]
  simp only [Tables.withoutProfile, List.map_map, Function.comp_def, hread]

theorem exists_lowestTier {t : Tables} {targetID : Bytes} {r : TargetTunnelTier} (hr : r ∈ t.tiers)
    (htarget : r.targetID = targetID) : ∃ first, LowestTier t.tiers targetID first := by
  have hmem := mem_sqlListTiers.mpr ⟨hr, htarget⟩
  cases hlist : sqlListTiers targetID t with
  | nil => simp [hlist] at hmem
  | cons first rest => exact ⟨first, lowestTier_of_cons hlist⟩

section Primary

variable {t : Tables} {h : TargetHost} {u : Bytes}

/-- A primary profile that stays is still the primary one. -/
theorem PrimaryID.withoutProfile {v : Bytes} {tier : Int} (hv : PrimaryID t.tiers h v tier)
    (hne : v ≠ u) : PrimaryID (t.withoutProfile u).tiers (h.clearProfile u) v tier := by
  cases hv with
  | @tier r hr =>
    refine .tier ⟨List.mem_filter.mpr ⟨hr.1, by simpa using hne⟩, by simpa using hr.2.1, ?_⟩
    intro s hs hst
    exact hr.2.2 s (List.mem_of_mem_filter hs) (by simpa using hst)
  | fallback hnone hset =>
    rw [clearProfile_of_ne hne]
    exact .fallback (fun r hr => hnone r (List.mem_of_mem_filter hr)) hset

/-- The profile column of a listed target refers to a row. -/
theorem Database.listed_profile {rd : Reader} {db : Database} (hh : h ∈ sqlListTargets rd db.tables)
    (hset : h.vpnProfileID ≠ []) : ∃ p ∈ db.tables.vpnProfiles, p.id = h.vpnProfileID := by
  obtain ⟨k, hk, rfl⟩ : ∃ k ∈ db.tables.targetHosts, rd.target k = h := by
    simpa [sqlListTargets] using hh
  exact (db.keyed.target_profile k hk).resolve_left hset

/-- A target without a primary profile gets none. -/
theorem no_primaryID_withoutProfile (hnone : ∀ v tier, ¬PrimaryID t.tiers h v tier) :
    ∀ v tier, ¬PrimaryID (t.withoutProfile u).tiers (h.clearProfile u) v tier := by
  have htiers : ∀ r ∈ t.tiers, r.targetID ≠ h.id := by
    intro r hr htarget
    obtain ⟨first, hfirst⟩ := exists_lowestTier hr htarget
    exact hnone _ _ (.tier hfirst)
  intro v tier hv
  cases hv with
  | tier hr => exact htiers _ (List.mem_of_mem_filter hr.1) (by simpa using hr.2.1)
  | fallback _ hset =>
    rw [clearProfile_vpnProfileID] at hset
    split at hset
    · exact hset rfl
    · exact hnone _ _ (.fallback htiers hset)

end Primary

end HelixProxy.Store

namespace HelixProxy.Routing

open Store
set_option autoImplicit false

/-- The passes before and after `p` was deleted, where `carries` tells which
profiles a target can be routed through. -/
structure ProfileDeleted (carries : VPNProfile → Bool) (rd : Reader) (t : Tables) (p : VPNProfile)
    (c c' : Compiled) : Prop where
  tunnels : c'.tunnels = c.tunnels.filter (·.profile ≠ p.name)
  resolved : ∀ x ∈ c'.resolved, x.route.tunnel ≠ p.name
  others : ∀ h ∈ sqlListTargets rd t, (∀ tier, ¬PrimaryID t.tiers h p.id tier) →
    c'.forAlias h.publicAlias = c.forAlias h.publicAlias
  next_tier : ∀ h ∈ sqlListTargets rd t, ∀ r,
    LowestTier (t.tiers.filter (·.vpnProfileID ≠ p.id)) h.id r →
    ∃ p' ∈ t.vpnProfiles, p'.id = r.vpnProfileID ∧
      c'.forAlias h.publicAlias =
        if h.enabled && carries p' then [resolvedVia h p' r.tier] else []
  fallback : ∀ h ∈ sqlListTargets rd t, (∀ r ∈ t.tiers, r.targetID = h.id → r.vpnProfileID = p.id) →
    h.vpnProfileID ≠ [] → h.vpnProfileID ≠ p.id →
    ∃ p' ∈ t.vpnProfiles, p'.id = h.vpnProfileID ∧
      c'.forAlias h.publicAlias = if h.enabled && carries p' then [resolvedVia h p' 0] else []
  orphaned : ∀ h ∈ sqlListTargets rd t, (∀ r ∈ t.tiers, r.targetID = h.id → r.vpnProfileID = p.id) →
    h.vpnProfileID = [] ∨ h.vpnProfileID = p.id → c'.forAlias h.publicAlias = []

theorem resolvedVia_clearProfile (u : Bytes) (h : TargetHost) (p : VPNProfile) (tier : Int) :
    resolvedVia (h.clearProfile u) p tier = resolvedVia h p tier := by
  simp [resolvedVia]

section Deletion

variable {rd : Reader} {db : Database} {p : VPNProfile} {entries : List AuditLogEntry}
  {c c' : Compiled} (hc : compileAll (db.queries rd) = some c)
  (hc' : compileAll ((Database.withoutProfile p.id entries db).queries rd) = some c')

theorem mem_listTargets_withoutProfile {h : TargetHost} (hh : h ∈ sqlListTargets rd db.tables) :
    h.clearProfile p.id ∈ sqlListTargets rd (Database.withoutProfile p.id entries db).tables := by
  change _ ∈ sqlListTargets rd (db.tables.withoutProfile p.id)
  rw [sqlListTargets_withoutProfile]
  exact List.mem_map_of_mem hh

include hc'

/-- After the deletion a target is routed through its primary profile of then. -/
theorem forAlias_withoutProfile {h : TargetHost} (hh : h ∈ sqlListTargets rd db.tables) {u : Bytes}
    {tier : Int} (hu : PrimaryID (db.tables.withoutProfile p.id).tiers (h.clearProfile p.id) u tier)
    {p' : VPNProfile} (hp' : p' ∈ db.tables.vpnProfiles) (hid : p'.id = u) (hne : u ≠ p.id) :
    c'.forAlias h.publicAlias =
      if h.enabled = true ∧ p'.enabled = true ∧ p'.name ≠ [] then [resolvedVia h p' tier] else [] := by
  have hmem : p' ∈ (Database.withoutProfile p.id entries db).tables.vpnProfiles :=
    List.mem_filter.mpr ⟨hp', by simpa [hid] using hne⟩
  have hfor := forAlias_of_primary hc' (mem_listTargets_withoutProfile hh) hu hmem hid
  simpa only [clearProfile_publicAlias, clearProfile_enabled, resolvedVia_clearProfile] using hfor

include hc in
theorem others_unchanged {h : TargetHost} (hh : h ∈ sqlListTargets rd db.tables)
    (hother : ∀ tier, ¬PrimaryID db.tables.tiers h p.id tier) :
    c'.forAlias h.publicAlias = c.forAlias h.publicAlias := by
  by_cases hsome : ∃ u tier, PrimaryID db.tables.tiers h u tier
  · obtain ⟨u, tier, hu⟩ := hsome
    have hne : u ≠ p.id := by
      rintro rfl
      exact hother tier hu
    obtain ⟨p', hp', hid⟩ : ∃ p' ∈ db.tables.vpnProfiles, p'.id = u := by
      cases hu with
      | tier hr => exact db.keyed.tier_profile _ hr.1
      | fallback _ hset => exact Database.listed_profile hh hset
    rw [forAlias_withoutProfile hc' hh (hu.withoutProfile hne) hp' hid hne,
      forAlias_of_primary hc hh hu hp' hid]
  · have hnone : ∀ u tier, ¬PrimaryID db.tables.tiers h u tier :=
      fun u tier hu => hsome ⟨u, tier, hu⟩
    have hfor := forAlias_of_no_primary hc' (mem_listTargets_withoutProfile hh)
      (no_primaryID_withoutProfile (u := p.id) hnone)
    rw [clearProfile_publicAlias] at hfor
    rw [hfor, forAlias_of_no_primary hc hh hnone]

include hc in
theorem tunnels_withoutProfile (hp : p ∈ db.tables.vpnProfiles) :
    c'.tunnels = c.tunnels.filter (·.profile ≠ p.name) := by
  have hsame : ∀ q ∈ db.tables.vpnProfiles, (q.id ≠ p.id ↔ q.name ≠ p.name) := by
    intro q hq
    refine not_congr ⟨fun hid => ?_, fun hname => ?_⟩
    · rw [List.inj_on_of_nodup_map db.keyed.profile_ids hq hp hid]
    · rw [List.inj_on_of_nodup_map db.keyed.profile_names hq hp hname]
  have hlisted : ∀ t : Tables, (resolveTunnels (sqlListProfiles rd t)).Perm
      ((t.vpnProfiles.filter VPNProfile.enabled).map tunnelOf) := fun t =>
    (resolveTunnels_perm _).trans (((List.perm_insertionSort _ _).filter _).map _)
  have hsorted : ∀ (d : Database), (resolveTunnels (sqlListProfiles rd d.tables)).Pairwise
      fun s t => s.profile < t.profile := fun d =>
    resolveTunnels_strictly_sorted
      (((List.perm_insertionSort _ _).map _).nodup_iff.mpr d.keyed.profile_names)
  rw [tunnels_database hc, tunnels_database hc']
  -- both sides are in name order, so it is enough that they have the same elements
  refine List.Perm.eq_of_pairwise (fun s t _ _ hst hts => ?_) (hsorted _) ((hsorted db).filter _) ?_
  · exact absurd hts (List.lt_asymm hst)
  · refine (hlisted _).trans (List.Perm.trans ?_ ((hlisted db.tables).filter _).symm)
    rw [List.filter_map, List.filter_filter]
    refine List.Perm.of_eq (congrArg _ ?_)
    change (db.tables.vpnProfiles.filter _).filter _ = _
    rw [List.filter_filter]
    refine List.filter_congr fun q hq => ?_
    rw [Bool.and_comm]
    exact congrArg (· && q.enabled) (decide_eq_decide.mpr (hsame q hq))

theorem resolved_withoutProfile (hp : p ∈ db.tables.vpnProfiles) :
    ∀ x ∈ c'.resolved, x.route.tunnel ≠ p.name := by
  intro x hx htunnel
  obtain ⟨ps, ts, hps, -, tgt, -, q, tier, ⟨-, hq, -⟩, hroute⟩ :=
    (mem_routes_iff hc' x.route).mp (List.mem_map_of_mem hx)
  cases hps
  obtain ⟨hq, hne⟩ : q ∈ db.tables.vpnProfiles ∧ q.id ≠ p.id := by
    simpa [sqlListProfiles, Database.withoutProfile, Tables.withoutProfile] using hq
  have hname : q.name = p.name := by simpa [hroute, resolvedVia] using htunnel
  exact hne (congrArg VPNProfile.id (List.inj_on_of_nodup_map db.keyed.profile_names hq hp hname))

include hc in
theorem profileDeleted (hp : p ∈ db.tables.vpnProfiles) :
    ProfileDeleted (fun q => q.enabled && q.name ≠ []) rd db.tables p c c' where
  tunnels := tunnels_withoutProfile hc hc' hp
  resolved := resolved_withoutProfile hc' hp
  others _ hh hother := others_unchanged hc hc' hh hother
  next_tier := by
    intro h hh r hr
    obtain ⟨hmem, hne⟩ := List.mem_filter.mp hr.1
    obtain ⟨q, hq, hid⟩ := db.keyed.tier_profile r hmem
    have hu : PrimaryID (db.tables.withoutProfile p.id).tiers (h.clearProfile p.id) r.vpnProfileID
        r.tier := .tier (by simpa [Tables.withoutProfile] using hr)
    refine ⟨q, hq, hid, ?_⟩
    rw [forAlias_withoutProfile hc' hh hu hq hid (by simpa using hne)]
    simp
  fallback := by
    intro h hh hnone hset hne
    obtain ⟨q, hq, hid⟩ := Database.listed_profile hh hset
    have hu : PrimaryID (db.tables.withoutProfile p.id).tiers (h.clearProfile p.id)
        h.vpnProfileID 0 := by
      rw [clearProfile_of_ne hne]
      refine .fallback (fun r hr htarget => ?_) hset
      obtain ⟨hr, hrne⟩ := List.mem_filter.mp hr
      exact absurd (hnone r hr htarget) (by simpa using hrne)
    refine ⟨q, hq, hid, ?_⟩
    rw [forAlias_withoutProfile hc' hh hu hq hid hne]
    simp
  orphaned := by
    intro h hh hnone hlost
    have hgone : ∀ u tier, ¬PrimaryID (db.tables.withoutProfile p.id).tiers
        (h.clearProfile p.id) u tier := by
      intro u tier hu
      cases hu with
      | tier hr =>
        obtain ⟨hmem, hne⟩ := List.mem_filter.mp hr.1
        exact absurd (hnone _ hmem (by simpa using hr.2.1)) (by simpa using hne)
      | fallback _ hset =>
        rw [clearProfile_vpnProfileID] at hset
        rcases hlost with hlost | hlost <;> simp [hlost] at hset
    have hfor := forAlias_of_no_primary hc' (mem_listTargets_withoutProfile hh) hgone
    rwa [clearProfile_publicAlias] at hfor

end Deletion

/-- `deleteProfile` that answers 204 has taken the row, its tiers and its uses. -/
theorem deleteProfile_tables {env : Api.Env} {id u : Bytes} (hid : env.pg.uuid id = some u)
    (t : Tables) (hok : (Api.deleteProfile env id t).2 = Api.noContent) :
    ∃ entries, (Api.deleteProfile env id t).1 =
      { t.withoutProfile u with auditLog := entries } := by
  obtain ⟨-, hcommit⟩ | ⟨hfail, -⟩ := Api.serve_served env t (.deleteProfile id)
  · obtain ⟨stmt, changed, newID, detail, hstmt, hexec, -, hafter⟩ := hcommit
    cases hstmt
    have hdel := map_ok_fst hexec
    rw [sqlDeleteProfile_eq hid] at hdel
    cases hdel
    exact ⟨_, hafter⟩
  · change Api.Response.failure (Api.deleteProfile env id t).2 = true at hfail
    rw [hok] at hfail
    exact absurd hfail (by decide)

/-- After a profile was deleted, a compile pass knows it no more, what did not go
through it is unchanged, and a target that did goes to its lowest remaining tier or
else to its own profile, if that one is enabled and has a name. -/
theorem deleteProfile_complete (rd : Reader) (env : Api.Env) (db : Database) {p : VPNProfile}
    (hp : p ∈ db.tables.vpnProfiles) {id : Bytes} (hid : env.pg.uuid id = some p.id)
    (hok : (Api.deleteProfile env id db.tables).2 = Api.noContent) :
    ∃ (db' : Database) (c c' : Compiled), db'.tables = (Api.deleteProfile env id db.tables).1 ∧
      compileAll (db.queries rd) = some c ∧ compileAll (db'.queries rd) = some c' ∧
      ProfileDeleted (fun q => q.enabled && q.name ≠ []) rd db.tables p c c' := by
  obtain ⟨entries, htables⟩ := deleteProfile_tables hid db.tables hok
  obtain ⟨c, hc⟩ := compileAll_database rd db
  obtain ⟨c', hc'⟩ := compileAll_database rd (Database.withoutProfile p.id entries db)
  exact ⟨_, c, c', htables.symm, hc, hc', profileDeleted hc hc' hp⟩

def eu : VPNProfile where
  id := lit "1"
  name := lit "eu"

/-- One target with `eu` at tier 0 and another profile at tier 1. -/
def tiered (second : Bytes) (hne : lit "eu" ≠ second) : Database where
  tables :=
    { vpnProfiles := [eu, { id := lit "2", name := second }]
      targetHosts := [{ id := lit "t1", publicAlias := lit "crm", privateIP := lit "10.0.0.5" }]
      tiers := [⟨lit "t1", lit "1", 0⟩, ⟨lit "t1", lit "2", 1⟩] }
  keyed :=
    { profile_ids := by simp [eu]
      profile_names := by simp [eu, hne]
      profile_id_ne := by simp [eu]; decide
      target_ids := by simp
      target_aliases := by simp
      target_profile := by simp
      tier_slots := by simp
      tier_profiles := by simp
      tier_target := by simp
      tier_profile := by simp [eu] }

def plainReader : Reader := ⟨fun _ _ => true, id⟩

def plainEnv : Api.Env where
  pg := ⟨some, some, some, fun _ => []⟩

theorem deleteProfile_tiered (second : Bytes) (hne : lit "eu" ≠ second) :
    (Api.deleteProfile plainEnv (lit "1") (tiered second hne).tables).2 = Api.noContent := by
  rfl

theorem deleteProfile_complete_tiered :
    ∃ (db' : Database) (c c' : Compiled),
      db'.tables = (Api.deleteProfile plainEnv (lit "1") (tiered (lit "us") (by simp)).tables).1 ∧
      compileAll ((tiered (lit "us") (by simp)).queries plainReader) = some c ∧
      compileAll (db'.queries plainReader) = some c' ∧
      ProfileDeleted (fun q => q.enabled && q.name ≠ []) plainReader
        (tiered (lit "us") (by simp)).tables eu c c' :=
  deleteProfile_complete plainReader plainEnv (tiered (lit "us") (by simp)) List.mem_cons_self rfl
    (deleteProfile_tiered _ _)

/-- The next tier's profile is enabled but its name is empty, which the schema
admits: the target is left without a route. -/
theorem unnamed_profile_carries_nothing :
    ∃ (db' : Database) (c c' : Compiled),
      db'.tables = (Api.deleteProfile plainEnv (lit "1") (tiered [] (by decide)).tables).1 ∧
      compileAll ((tiered [] (by decide)).queries plainReader) = some c ∧
      compileAll (db'.queries plainReader) = some c' ∧
      ¬ProfileDeleted VPNProfile.enabled plainReader (tiered [] (by decide)).tables eu c c' := by
  obtain ⟨entries, htables⟩ := @deleteProfile_tables plainEnv _ eu.id rfl _
    (deleteProfile_tiered [] (by decide))
  obtain ⟨c, hc⟩ := compileAll_database plainReader (tiered [] (by decide))
  obtain ⟨c', hc'⟩ := compileAll_database plainReader
    (Database.withoutProfile eu.id entries (tiered [] (by decide)))
  refine ⟨_, c, c', htables.symm, hc, hc', fun hdel => ?_⟩
  have hgood := profileDeleted hc hc' List.mem_cons_self
  have hlisted : ∃ h, sqlListTargets plainReader (tiered [] (by decide)).tables = [h] ∧
      h.id = lit "t1" ∧ h.enabled = true := ⟨_, rfl, rfl, rfl⟩
  obtain ⟨h, hlist, hid, hen⟩ := hlisted
  have hh : h ∈ sqlListTargets plainReader (tiered [] (by decide)).tables := by simp [hlist]
  have hnext : LowestTier ((tiered [] (by decide)).tables.tiers.filter (·.vpnProfileID ≠ eu.id)) h.id
      ⟨lit "t1", lit "2", 1⟩ := by
    simp [LowestTier, tiered, eu, hid]
  have hsecond : ∀ q ∈ (tiered [] (by decide)).tables.vpnProfiles, q.id = lit "2" →
      q.enabled = true ∧ q.name = [] := by
    simp [tiered, eu]
  obtain ⟨q, hq, hqid, hfor⟩ := hdel.next_tier h hh _ hnext
  obtain ⟨q', hq', hqid', hfor'⟩ := hgood.next_tier h hh _ hnext
  simp only [hen, (hsecond q hq hqid).1, (hsecond q' hq' hqid').2] at hfor hfor'
  simp [hfor] at hfor'

end HelixProxy.Routing
