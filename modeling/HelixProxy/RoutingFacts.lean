import HelixProxy.Routing

/-!
# What a compile pass resolves

Every resolved target is an enabled target whose primary profile is an enabled
row of the profile list, and carries that profile's own tunnel.
-/

namespace HelixProxy.Routing

open Store
set_option autoImplicit false

theorem keptRune_lt {r : Nat} (h : keptRune r = true) : r < 128 := by
  simp only [keptRune, Bool.or_eq_true, Bool.and_eq_true, decide_eq_true_eq, beq_iff_eq] at h
  omega

theorem sanitizeToken_kept (s : Bytes) : Kept (sanitizeToken s) := by
  unfold sanitizeToken
  simp only
  split
  · decide
  · intro b hb
    obtain ⟨r, _, rfl⟩ := List.mem_map.mp hb
    by_cases hr : keptRune r = true
    · have hlt := keptRune_lt hr
      have hmod : (UInt8.ofNat r).toNat = r := by
        rw [UInt8.toNat_ofNat']
        exact Nat.mod_eq_of_lt (by omega)
      simp [hr, hmod]
    · simp only [hr, Bool.false_eq_true, if_false]
      decide

theorem sanitizeToken_ne_nil (s : Bytes) : sanitizeToken s ≠ [] := by
  unfold sanitizeToken
  simp only
  split
  · decide
  · rename_i h
    simpa using h

theorem Kept.ascii {s : Bytes} (h : Kept s) : Utf8.Ascii s := by
  intro b hb
  have hlt := keptRune_lt (h b hb)
  simpa [UInt8.lt_iff_toNat_lt] using hlt

theorem sanitizeToken_of_kept {s : Bytes} (h : Kept s) (hne : s ≠ []) : sanitizeToken s = s := by
  unfold sanitizeToken
  rw [Utf8.runes_ascii h.ascii, List.map_map]
  have hmap : s.map ((fun r => if keptRune r then UInt8.ofNat r else 95) ∘ UInt8.toNat) = s := by
    conv_rhs => rw [← List.map_id s]
    apply List.map_congr_left
    intro b hb
    simp [h b hb]
  simp only [hmap]
  simp [hne]

theorem mem_resolveTunnels {ps : List VPNProfile} {t : Tunnel} :
    t ∈ resolveTunnels ps ↔ ∃ p ∈ ps, p.enabled = true ∧ tunnelOf p = t := by
  simp [resolveTunnels, List.mem_insertionSort, and_assoc]

theorem resolveTunnels_perm (ps : List VPNProfile) :
    (resolveTunnels ps).Perm ((ps.filter VPNProfile.enabled).map tunnelOf) :=
  List.perm_insertionSort _ _

instance : Std.Total nameLE := ⟨fun s t => List.le_total s.profile t.profile⟩

instance : IsTrans Tunnel nameLE := ⟨fun _ _ _ h h' => List.le_trans h h'⟩

theorem resolveTunnels_sorted (ps : List VPNProfile) : (resolveTunnels ps).Pairwise nameLE :=
  List.pairwise_insertionSort _ _

theorem resolveTunnels_profiles_nodup {ps : List VPNProfile}
    (h : (ps.map VPNProfile.name).Nodup) : ((resolveTunnels ps).map Tunnel.profile).Nodup := by
  have hperm := (resolveTunnels_perm ps).map Tunnel.profile
  rw [hperm.nodup_iff, List.map_map]
  exact h.sublist ((List.filter_sublist).map VPNProfile.name)

theorem resolveTunnels_strictly_sorted {ps : List VPNProfile}
    (h : (ps.map VPNProfile.name).Nodup) :
    (resolveTunnels ps).Pairwise fun s t => s.profile < t.profile := by
  have hne := List.pairwise_map.mp (resolveTunnels_profiles_nodup h)
  refine ((resolveTunnels_sorted ps).and hne).imp ?_
  rintro s t ⟨hle, hne⟩
  by_contra hlt
  exact hne (List.le_antisymm hle (List.not_lt.mp hlt))

theorem nameByID_eq_some_iff (ps : Profiles) (id name : Bytes) :
    nameByID ps.rows id = some name ↔ ∃ p ∈ ps.rows, p.id = id ∧ p.name = name :=
  LastWins.assign_eq_some_iff _ _ ps.ids_nodup id name

theorem peerByProfile_eq_some_iff {ps : List VPNProfile} (h : (ps.map VPNProfile.name).Nodup)
    (name : Bytes) (t : Tunnel) :
    peerByProfile (resolveTunnels ps) name = some t ↔
      ∃ p ∈ ps, p.enabled = true ∧ p.name = name ∧ tunnelOf p = t := by
  rw [peerByProfile, LastWins.assign_eq_some_iff _ _ (resolveTunnels_profiles_nodup h)]
  constructor
  · rintro ⟨x, hx, hname, rfl⟩
    obtain ⟨p, hp, hen, rfl⟩ := mem_resolveTunnels.mp hx
    exact ⟨p, hp, hen, hname, rfl⟩
  · rintro ⟨p, hp, hen, rfl, rfl⟩
    exact ⟨tunnelOf p, mem_resolveTunnels.mpr ⟨p, hp, hen, rfl⟩, rfl, rfl⟩

/-- `p` at tier `tier` is the primary profile of the target: its first tier
row's profile if it has tier rows, else its own `vpn_profile_id`. -/
def Primary (tgt : TargetHost) (tiers : List TargetTunnelTier) (p : VPNProfile) (tier : Int) :
    Prop :=
  match tiers with
  | first :: _ => p.id = first.vpnProfileID ∧ tier = first.tier
  | [] => tgt.vpnProfileID ≠ [] ∧ p.id = tgt.vpnProfileID ∧ tier = 0

theorem namedProfile_eq_some_iff (ps : Profiles) (id name : Bytes) :
    namedProfile (nameByID ps.rows) id = some name ↔
      name ≠ [] ∧ ∃ p ∈ ps.rows, p.name = name ∧ p.id = id := by
  simp only [namedProfile, Option.bind_eq_some_iff, Option.ite_none_right_eq_some,
    Option.some.injEq, nameByID_eq_some_iff]
  constructor
  · rintro ⟨_, ⟨p, hp, hid, hname⟩, hne, rfl⟩
    exact ⟨hne, p, hp, hname, hid⟩
  · rintro ⟨hne, p, hp, hname, hid⟩
    exact ⟨name, ⟨p, hp, hid, hname⟩, hne, rfl⟩

theorem primaryTunnel_eq_some_iff (ps : Profiles) (tgt : TargetHost)
    (tiers : List TargetTunnelTier) (name : Bytes) (tier : Int) :
    primaryTunnel tgt tiers (nameByID ps.rows) = some (name, tier) ↔
      name ≠ [] ∧ ∃ p ∈ ps.rows, p.name = name ∧ Primary tgt tiers p tier := by
  have hlookup : ∀ (id : Bytes) (n : Int),
      (namedProfile (nameByID ps.rows) id).map (fun x => (x, n)) = some (name, tier) ↔
        name ≠ [] ∧ ∃ p ∈ ps.rows, p.name = name ∧ p.id = id ∧ tier = n := by
    intro id n
    simp only [Option.map_eq_some_iff, namedProfile_eq_some_iff, Prod.mk.injEq]
    constructor
    · rintro ⟨_, ⟨hne, p, hp, hname, hid⟩, rfl, rfl⟩
      exact ⟨hne, p, hp, hname, hid, rfl⟩
    · rintro ⟨hne, p, hp, hname, hid, rfl⟩
      exact ⟨name, ⟨hne, p, hp, hname, hid⟩, rfl, rfl⟩
  cases tiers with
  | cons first rest => exact hlookup first.vpnProfileID first.tier
  | nil =>
    by_cases hid : tgt.vpnProfileID = []
    · simp [primaryTunnel, Primary, hid]
    · simp only [primaryTunnel, ne_eq, hid, not_false_eq_true, if_true, Primary, true_and]
      exact hlookup tgt.vpnProfileID 0

def resolvedVia (tgt : TargetHost) (p : VPNProfile) (tier : Int) : Resolved where
  dante := ⟨(tunnelOf p).name, tgt.privateIP, (tunnelOf p).peerHost, (tunnelOf p).peerPort⟩
  route := ⟨tgt.publicAlias, p.name, tier, closed⟩

/-- The target resolves: it is enabled, and its primary profile is an enabled
row with a non-empty name. -/
def ResolvesTo (q : Queries) (ps : Profiles) (tgt : TargetHost) (p : VPNProfile) (tier : Int) :
    Prop :=
  tgt.enabled = true ∧ p ∈ ps.rows ∧ p.enabled = true ∧ p.name ≠ [] ∧
    ∃ tiers, q.listTiers tgt.id = some tiers ∧ Primary tgt tiers p tier

theorem resolveTarget_eq_some_iff (q : Queries) (ps : Profiles) (tgt : TargetHost) (r : Resolved) :
    resolveTarget q (nameByID ps.rows) (peerByProfile (resolveTunnels ps.rows)) tgt = some (some r) ↔
      ∃ p tier, ResolvesTo q ps tgt p tier ∧ r = resolvedVia tgt p tier := by
  unfold resolveTarget ResolvesTo
  by_cases hen : tgt.enabled = true
  · simp only [hen, Bool.not_true, Bool.false_eq_true, if_false, Option.map_eq_some_iff,
      Option.bind_eq_some_iff, true_and, Prod.exists]
    constructor
    · rintro ⟨tiers, htiers, name, tier, hprim, peer, hpeer, rfl⟩
      obtain ⟨hne, p, hp, rfl, hprimary⟩ := (primaryTunnel_eq_some_iff ps tgt tiers name tier).mp hprim
      obtain ⟨p', hp', hen', hname', rfl⟩ := (peerByProfile_eq_some_iff ps.names_nodup _ _).mp hpeer
      obtain rfl := ps.eq_of_name hp' hp hname'
      exact ⟨p', tier, ⟨hp, hen', hne, tiers, htiers, hprimary⟩, rfl⟩
    · rintro ⟨p, tier, ⟨hp, hpen, hne, tiers, htiers, hprimary⟩, rfl⟩
      refine ⟨tiers, htiers, p.name, tier, ?_, tunnelOf p, ?_, rfl⟩
      · exact (primaryTunnel_eq_some_iff ps tgt tiers p.name tier).mpr ⟨hne, p, hp, rfl, hprimary⟩
      · exact (peerByProfile_eq_some_iff ps.names_nodup _ _).mpr ⟨p, hp, hpen, rfl, rfl⟩
  · simp [hen]

theorem resolveTargets_eq_filterMap {q : Queries} {nameOf : Bytes → Option Bytes}
    {peerOf : Bytes → Option Tunnel} {ts : List TargetHost} {xs : List Resolved}
    (h : resolveTargets q nameOf peerOf ts = some xs) :
    xs = ts.filterMap fun tgt => (resolveTarget q nameOf peerOf tgt).join := by
  induction ts generalizing xs with
  | nil =>
    simp only [resolveTargets, Option.some.injEq] at h
    exact h.symm
  | cons tgt rest ih =>
    simp only [resolveTargets] at h
    cases hx : resolveTarget q nameOf peerOf tgt with
    | none => simp [hx] at h
    | some x =>
      cases hy : resolveTargets q nameOf peerOf rest with
      | none => simp [hx, hy] at h
      | some ys =>
        simp only [hx, hy, Option.some.injEq] at h
        subst h
        rw [ih hy]
        cases x <;> simp [hx]

theorem mem_resolveTargets (q : Queries) (nameOf : Bytes → Option Bytes)
    (peerOf : Bytes → Option Tunnel) {targets : List TargetHost} {rs : List Resolved}
    (h : resolveTargets q nameOf peerOf targets = some rs) (r : Resolved) :
    r ∈ rs ↔ ∃ tgt ∈ targets, resolveTarget q nameOf peerOf tgt = some (some r) := by
  rw [resolveTargets_eq_filterMap h]
  simp only [List.mem_filterMap, Option.join_eq_some_iff]

theorem compileAll_eq_some {q : Queries} {out : Compiled} (h : compileAll q = some out) :
    ∃ ps ts, q.listProfiles = some ps ∧ q.listTargets = some ts ∧
      out.tunnels = resolveTunnels ps.rows ∧
      resolveTargets q (nameByID ps.rows) (peerByProfile (resolveTunnels ps.rows)) ts.rows =
        some out.resolved := by
  simp only [compileAll, Option.bind_eq_some_iff, Option.map_eq_some_iff] at h
  obtain ⟨ps, hps, ts, hts, rs, hrs, rfl⟩ := h
  exact ⟨ps, ts, hps, hts, rfl, hrs⟩

/-- A compile pass resolves exactly the targets that do. -/
theorem mem_resolved_iff {q : Queries} {out : Compiled} (h : compileAll q = some out)
    (x : Resolved) :
    x ∈ out.resolved ↔ ∃ ps ts, q.listProfiles = some ps ∧ q.listTargets = some ts ∧
      ∃ tgt ∈ ts.rows, ∃ p tier, ResolvesTo q ps tgt p tier ∧ x = resolvedVia tgt p tier := by
  obtain ⟨ps, ts, hps, hts, -, hrs⟩ := compileAll_eq_some h
  simp only [mem_resolveTargets q _ _ hrs, resolveTarget_eq_some_iff, hps, hts, Option.some.injEq]
  constructor
  · intro hx
    exact ⟨ps, ts, rfl, rfl, hx⟩
  · rintro ⟨_, _, rfl, rfl, hx⟩
    exact hx

/-- The routes of a compile pass are exactly those of the targets that resolve. -/
theorem mem_routes_iff {q : Queries} {out : Compiled} (h : compileAll q = some out)
    (r : Bus.Route) :
    r ∈ out.routes ↔ ∃ ps ts, q.listProfiles = some ps ∧ q.listTargets = some ts ∧
      ∃ tgt ∈ ts.rows, ∃ p tier, ResolvesTo q ps tgt p tier ∧
        r = (resolvedVia tgt p tier).route := by
  simp only [Compiled.routes, List.mem_map, mem_resolved_iff h]
  constructor
  · rintro ⟨x, ⟨ps, ts, hps, hts, tgt, htgt, p, tier, hres, rfl⟩, rfl⟩
    exact ⟨ps, ts, hps, hts, tgt, htgt, p, tier, hres, rfl⟩
  · rintro ⟨ps, ts, hps, hts, tgt, htgt, p, tier, hres, rfl⟩
    exact ⟨_, ⟨ps, ts, hps, hts, tgt, htgt, p, tier, hres, rfl⟩, rfl⟩

theorem routes_unique {q : Queries} {out : Compiled} (h : compileAll q = some out)
    {r s : Bus.Route} (hr : r ∈ out.routes) (hs : s ∈ out.routes) (ht : r.target = s.target) :
    r = s := by
  obtain ⟨ps, ts, hps, hts, tgt, htgt, p, tier, hres, rfl⟩ := (mem_routes_iff h r).mp hr
  obtain ⟨ps', ts', hps', hts', tgt', htgt', p', tier', hres', rfl⟩ := (mem_routes_iff h s).mp hs
  obtain rfl := Option.some.inj (hps.symm.trans hps')
  obtain rfl := Option.some.inj (hts.symm.trans hts')
  obtain rfl := ts.eq_of_alias htgt htgt' ht
  obtain ⟨-, hp, -, -, tiers, htiers, hprim⟩ := hres
  obtain ⟨-, hp', -, -, tiers', htiers', hprim'⟩ := hres'
  obtain rfl := Option.some.inj (htiers.symm.trans htiers')
  have hid : p.id = p'.id ∧ tier = tier' := by
    cases tiers with
    | cons first rest => exact ⟨hprim.1.trans hprim'.1.symm, hprim.2.trans hprim'.2.symm⟩
    | nil => exact ⟨hprim.2.1.trans hprim'.2.1.symm, hprim.2.2.trans hprim'.2.2.symm⟩
  obtain rfl := ps.eq_of_id hp hp' hid.1
  rw [hid.2]

/-- A target with this public alias resolves. -/
def Resolvable (q : Queries) (host : Bytes) : Prop :=
  ∃ ps ts, q.listProfiles = some ps ∧ q.listTargets = some ts ∧
    ∃ tgt ∈ ts.rows, tgt.publicAlias = host ∧ ∃ p tier, ResolvesTo q ps tgt p tier

theorem resolvable_iff {q : Queries} {out : Compiled} (h : compileAll q = some out)
    (host : Bytes) : Resolvable q host ↔ ∃ r ∈ out.routes, r.target = host := by
  constructor
  · rintro ⟨ps, ts, hps, hts, tgt, htgt, hhost, p, tier, hres⟩
    have hmem := (mem_routes_iff h _).mpr ⟨ps, ts, hps, hts, tgt, htgt, p, tier, hres, rfl⟩
    exact ⟨_, hmem, hhost⟩
  · rintro ⟨r, hr, hhost⟩
    obtain ⟨ps, ts, hps, hts, tgt, htgt, p, tier, hres, rfl⟩ := (mem_routes_iff h r).mp hr
    exact ⟨ps, ts, hps, hts, tgt, htgt, hhost, p, tier, hres⟩

/-- Every read of a compile pass succeeds. -/
def Answered (q : Queries) : Prop :=
  ∃ ps ts, q.listProfiles = some ps ∧ q.listTargets = some ts ∧
    ∀ tgt ∈ ts.rows, tgt.enabled = true → ∃ tiers, q.listTiers tgt.id = some tiers

theorem resolveTarget_isSome_iff (q : Queries) (nameOf : Bytes → Option Bytes)
    (peerOf : Bytes → Option Tunnel) (tgt : TargetHost) :
    (∃ x, resolveTarget q nameOf peerOf tgt = some x) ↔
      (tgt.enabled = true → ∃ tiers, q.listTiers tgt.id = some tiers) := by
  unfold resolveTarget
  cases hen : tgt.enabled with
  | false => simp
  | true => cases ht : q.listTiers tgt.id <;> simp

theorem resolveTargets_isSome_iff (q : Queries) (nameOf : Bytes → Option Bytes)
    (peerOf : Bytes → Option Tunnel) (targets : List TargetHost) :
    (∃ rs, resolveTargets q nameOf peerOf targets = some rs) ↔
      ∀ tgt ∈ targets, tgt.enabled = true → ∃ tiers, q.listTiers tgt.id = some tiers := by
  induction targets with
  | nil => simp [resolveTargets]
  | cons tgt rest ih =>
    rw [List.forall_mem_cons, ← ih, ← resolveTarget_isSome_iff q nameOf peerOf tgt]
    cases hx : resolveTarget q nameOf peerOf tgt <;>
      cases hy : resolveTargets q nameOf peerOf rest <;> simp [resolveTargets, hx, hy]

/-- A compile pass fails only when one of its reads does. -/
theorem compileAll_isSome_iff (q : Queries) : (∃ out, compileAll q = some out) ↔ Answered q := by
  constructor
  · rintro ⟨out, h⟩
    obtain ⟨ps, ts, hps, hts, -, hrs⟩ := compileAll_eq_some h
    exact ⟨ps, ts, hps, hts, (resolveTargets_isSome_iff q _ _ ts.rows).mp ⟨_, hrs⟩⟩
  · rintro ⟨ps, ts, hps, hts, htiers⟩
    obtain ⟨rs, hrs⟩ := (resolveTargets_isSome_iff q (nameByID ps.rows)
      (peerByProfile (resolveTunnels ps.rows)) ts.rows).mpr htiers
    simp [compileAll, hps, hts, hrs]

def soleTarget (host : Bytes) : TargetHost where
  id := lit "t1"
  publicAlias := host
  privateIP := lit "10.0.0.5"

def oneTarget (ps : Profiles) (p : VPNProfile) (host : Bytes) : Queries where
  listProfiles := some ps
  listTargets := some ⟨[soleTarget host], by simp⟩
  listTiers id := some [⟨id, p.id, 0⟩]

theorem compileAll_oneTarget {ps : Profiles} {p : VPNProfile} (hp : p ∈ ps.rows)
    (hen : p.enabled = true) (hne : p.name ≠ []) (host : Bytes) :
    ∃ c, compileAll (oneTarget ps p host) = some c ∧ c.tunnels = resolveTunnels ps.rows ∧
      ⟨host, p.name, 0, closed⟩ ∈ c.routes := by
  have hres : ResolvesTo (oneTarget ps p host) ps (soleTarget host) p 0 :=
    ⟨rfl, hp, hen, hne, _, rfl, rfl, rfl⟩
  have htgt := (resolveTarget_eq_some_iff _ ps _ _).mpr ⟨p, 0, hres, rfl⟩
  have hcompile : compileAll (oneTarget ps p host) =
      some ⟨resolveTunnels ps.rows, [resolvedVia (soleTarget host) p 0], [host]⟩ := by
    simp only [compileAll, Option.bind_eq_some_iff, Option.map_eq_some_iff]
    refine ⟨ps, rfl, _, rfl, [resolvedVia (soleTarget host) p 0], ?_, rfl⟩
    simp only [resolveTargets, htgt]
    rfl
  exact ⟨_, hcompile, rfl, by simp [Compiled.routes, resolvedVia, soleTarget]⟩

def singleTarget (p : VPNProfile) (host : Bytes) : Queries :=
  oneTarget ⟨[p], by simp, by simp⟩ p host

end HelixProxy.Routing
