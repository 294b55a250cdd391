import HelixProxy.RoutingFacts

/-!
# Profile names after mangling

Two components derive names from a profile's name: the compiler its `cache_peer`
and default host (`sanitizeToken`), healthd the suffix of its per-profile
environment variables (`envKey`). Both rewrite one character at a time, so two
names collide when they agree up to the characters that are written alike.
-/

namespace HelixProxy.Healthd

set_option autoImplicit false

/-- `unicode.ToUpper` as far as the capital is in ASCII: beside a-z these are the
dotless i and the long s. What else it maps to, `envKey` writes as `_`. -/
def toUpper (r : Nat) : Nat :=
  if 97 ≤ r ∧ r ≤ 122 then r - 32
  else if r = 0x131 then 73
  else if r = 0x17F then 83
  else r

def envKept (r : Nat) : Bool := (65 ≤ r && r ≤ 90) || (48 ≤ r && r ≤ 57)

def envKey (profile : Bytes) : Bytes :=
  (Utf8.runes profile).map fun r =>
    if envKept (toUpper r) then UInt8.ofNat (toUpper r) else 95

/-- `os.Getenv`; the empty text stands for a variable that is not set. -/
abbrev Environ := Bytes → Bytes

def getenv (env : Environ) (key fallback : Bytes) : Bytes :=
  if env key ≠ [] then env key else fallback

def gluetunBaseVar : Bytes := lit "HEALTHD_GLUETUN_BASE"
def wgIfVar : Bytes := lit "HEALTHD_WG_IF"
def tunnelProxyVar : Bytes := lit "HEALTHD_TUNNEL_PROXY"

/-- The name of a profile's own variable. -/
def profileVar (base profile : Bytes) : Bytes := base ++ lit "_" ++ envKey profile

def gluetunBase (env : Environ) (profile : Bytes) : Bytes :=
  getenv env (profileVar gluetunBaseVar profile)
    (getenv env gluetunBaseVar (lit "http://127.0.0.1:" ++ getenv env (lit "GLUETUN_CONTROL_PORT")
      (lit "8000")))

def wgIf (env : Environ) (profile : Bytes) : Bytes :=
  getenv env (profileVar wgIfVar profile) (getenv env wgIfVar profile)

def tunnelProxy (env : Environ) (profile : Bytes) : Bytes :=
  getenv env (profileVar tunnelProxyVar profile) (env tunnelProxyVar)

/-- A variable of `p` set to anything leaves what is chosen for `q` alone. -/
def OverridesSeparate (p q : Bytes) : Prop :=
  ∀ (env : Environ) (v : Bytes),
    gluetunBase (Function.update env (profileVar gluetunBaseVar p) v) q = gluetunBase env q ∧
    wgIf (Function.update env (profileVar wgIfVar p) v) q = wgIf env q ∧
    tunnelProxy (Function.update env (profileVar tunnelProxyVar p) v) q = tunnelProxy env q

theorem profileVar_inj {base p q : Bytes} : profileVar base p = profileVar base q ↔ envKey p = envKey q := by
  simp [profileVar]

/-- The suffix makes a profile's variable longer than the ones without. -/
theorem profileVar_ne {base other : Bytes} (profile : Bytes) (h : other.length ≤ base.length) :
    other ≠ profileVar base profile := by
  intro heq
  have hlen := congrArg List.length heq
  have hone : (lit "_").length = 1 := by decide
  simp only [profileVar, List.length_append, hone] at hlen
  omega

theorem getenv_update_ne {env : Environ} {k k' : Bytes} (h : k' ≠ k) (v fallback : Bytes) :
    getenv (Function.update env k v) k' fallback = getenv env k' fallback := by
  simp [getenv, Function.update_of_ne h]

theorem overridesSeparate {p q : Bytes} (h : envKey p ≠ envKey q) : OverridesSeparate p q := by
  intro env v
  have hvar : ∀ base, profileVar base q ≠ profileVar base p :=
    fun base heq => h (profileVar_inj.mp heq.symm)
  refine ⟨?_, ?_, ?_⟩
  · have hport : (lit "GLUETUN_CONTROL_PORT").length ≤ gluetunBaseVar.length := by decide
    simp only [gluetunBase, getenv_update_ne (hvar _), getenv_update_ne (profileVar_ne p hport),
      getenv_update_ne (profileVar_ne p (Nat.le_refl gluetunBaseVar.length))]
  · simp only [wgIf, getenv_update_ne (hvar _),
      getenv_update_ne (profileVar_ne p (Nat.le_refl wgIfVar.length))]
  · simp only [tunnelProxy, getenv_update_ne (hvar _),
      Function.update_of_ne (profileVar_ne p (Nat.le_refl tunnelProxyVar.length))]

end HelixProxy.Healthd

namespace HelixProxy.Routing

open Healthd Store Utf8
set_option autoImplicit false

/-- The characters `sanitizeToken` writes as `_`, that one included. -/
def blurred (r : Nat) : Bool := !keptRune r || r == 95

/-- The names agree up to the characters a token cannot tell apart. -/
def TokenAlike (s t : Bytes) : Prop :=
  List.Forall₂ (fun r r' => r = r' ∨ blurred r = true ∧ blurred r' = true) (runes s) (runes t)

/-- The names agree up to case and to the characters outside A-Z, a-z and 0-9. -/
def EnvAlike (s t : Bytes) : Prop :=
  List.Forall₂ (fun r r' => toUpper r = toUpper r' ∨
    envKept (toUpper r) = false ∧ envKept (toUpper r') = false) (runes s) (runes t)

instance (s t : Bytes) : Decidable (TokenAlike s t) :=
  inferInstanceAs (Decidable (List.Forall₂ _ _ _))

instance (s t : Bytes) : Decidable (EnvAlike s t) :=
  inferInstanceAs (Decidable (List.Forall₂ _ _ _))

theorem map_eq_map_iff_forall₂ {α β : Type} (f : α → β) (xs ys : List α) :
    xs.map f = ys.map f ↔ List.Forall₂ (fun x y => f x = f y) xs ys := by
  rw [← List.forall₂_eq_eq_eq, List.forall₂_map_left_iff, List.forall₂_map_right_iff]

/-- What a mangler writes for two characters is the same exactly when they are
equal or both written as `_`. -/
theorem mangled_eq_iff {kept : Nat → Bool} (hkept : ∀ r, kept r = true → r < 128) (r r' : Nat) :
    ((if kept r then UInt8.ofNat r else 95) = if kept r' then UInt8.ofNat r' else 95) ↔
      r = r' ∨ (!kept r || r == 95) = true ∧ (!kept r' || r' == 95) = true := by
  have hbyte : ∀ n, (if kept n then UInt8.ofNat n else 95) =
      UInt8.ofNat (if kept n then n else 95) := by
    intro n
    split <;> rfl
  have hlt : ∀ n, (if kept n then n else 95) < 2 ^ 8 := by
    intro n
    split
    · next hn => exact Nat.lt_trans (hkept n hn) (by decide)
    · decide
  rw [hbyte, hbyte, ← UInt8.toNat_inj, UInt8.toNat_ofNat', UInt8.toNat_ofNat',
    Nat.mod_eq_of_lt (hlt r), Nat.mod_eq_of_lt (hlt r')]
  -- the code points are below 256, so it is enough to compare them as numbers
  cases hr : kept r <;> cases hr' : kept r'
  all_goals
    simp only [Bool.false_eq_true, if_false, if_true, Bool.not_false, Bool.not_true, Bool.true_or,
      Bool.false_or, beq_iff_eq, true_and, and_true]
    grind

theorem runes_ne_nil {s : Bytes} (h : s ≠ []) : runes s ≠ [] := by
  obtain ⟨b, rest, rfl⟩ := List.exists_cons_of_ne_nil h
  simp [runes, segments, segmentsFrom]

theorem sanitizeToken_eq_iff {s t : Bytes} (hs : s ≠ []) (ht : t ≠ []) :
    sanitizeToken s = sanitizeToken t ↔ TokenAlike s t := by
  have hrunes : ∀ {u : Bytes}, u ≠ [] → sanitizeToken u =
      (runes u).map fun r => if keptRune r then UInt8.ofNat r else 95 := by
    intro u hu
    simp [sanitizeToken, runes_ne_nil hu]
  rw [hrunes hs, hrunes ht, map_eq_map_iff_forall₂]
  simp only [mangled_eq_iff fun r => keptRune_lt, TokenAlike, blurred]

theorem envKept_lt {r : Nat} (h : envKept r = true) : r < 128 := by
  simp only [envKept, Bool.or_eq_true, Bool.and_eq_true, decide_eq_true_eq] at h
  omega

theorem envKey_eq_iff (s t : Bytes) : envKey s = envKey t ↔ EnvAlike s t := by
  have hunder : ∀ r, (!envKept r || r == 95) = !envKept r := by
    intro r
    by_cases h : r = 95
    · subst h
      decide
    · simp [h]
  rw [envKey, envKey, map_eq_map_iff_forall₂]
  simp only [mangled_eq_iff fun r => envKept_lt, hunder, EnvAlike, Bool.not_eq_eq_eq_not,
    Bool.not_true]

/-- One profile, one peer, one default host and one set of variables. -/
structure StayDistinct (ps : List VPNProfile) : Prop where
  peers : ((resolveTunnels ps).map Tunnel.name).Nodup
  hosts : ((ps.filter fun p => (peerHostOverride p).isNone).map fun p => (peerEndpoint p).1).Nodup
  keys : (ps.map fun p => envKey p.name).Nodup
  overrides : ∀ p ∈ ps, ∀ q ∈ ps, p.name ≠ q.name → OverridesSeparate p.name q.name

section Names

variable {ps : List VPNProfile} (hnames : (ps.map VPNProfile.name).Nodup)
include hnames

/-- A text derived from the name is unique among the rows that pass `keep` exactly
when no two different names give the same. -/
theorem nodup_derived_iff (keep : VPNProfile → Bool) (derive : VPNProfile → Bytes) :
    ((ps.filter keep).map derive).Nodup ↔ ∀ p ∈ ps, ∀ q ∈ ps, keep p = true → keep q = true →
      p.name ≠ q.name → derive p ≠ derive q := by
  have hnodup : (ps.filter keep).Nodup := (hnames.of_map _).filter keep
  rw [List.nodup_map_iff_inj_on hnodup]
  simp only [List.mem_filter]
  constructor
  · intro h p hp q hq hkp hkq hne heq
    exact hne (congrArg VPNProfile.name (h p ⟨hp, hkp⟩ q ⟨hq, hkq⟩ heq))
  · rintro h p ⟨hp, hkp⟩ q ⟨hq, hkq⟩ heq
    by_contra hne
    refine h p hp q hq hkp hkq (fun hname => hne ?_) heq
    exact List.inj_on_of_nodup_map hnames hp hq hname

theorem peers_nodup_iff (hne : ∀ p ∈ ps, p.name ≠ []) :
    ((resolveTunnels ps).map Tunnel.name).Nodup ↔ ∀ p ∈ ps, ∀ q ∈ ps, p.enabled = true →
      q.enabled = true → p.name ≠ q.name → ¬TokenAlike p.name q.name := by
  rw [((resolveTunnels_perm ps).map Tunnel.name).nodup_iff, List.map_map, nodup_derived_iff hnames]
  refine forall₂_congr fun p hp => forall₂_congr fun q hq => ?_
  rw [← sanitizeToken_eq_iff (hne p hp) (hne q hq)]
  simp only [Function.comp_apply, tunnelOf, ne_eq, List.append_cancel_left_eq]

theorem hosts_nodup_iff (hne : ∀ p ∈ ps, p.name ≠ []) :
    ((ps.filter fun p => (peerHostOverride p).isNone).map fun p => (peerEndpoint p).1).Nodup ↔
      ∀ p ∈ ps, ∀ q ∈ ps, peerHostOverride p = none → peerHostOverride q = none →
        p.name ≠ q.name → ¬TokenAlike p.name q.name := by
  rw [nodup_derived_iff hnames]
  refine forall₂_congr fun p hp => forall₂_congr fun q hq => ?_
  simp only [Option.isNone_iff_eq_none]
  refine forall₂_congr fun hop hoq => ?_
  rw [← sanitizeToken_eq_iff (hne p hp) (hne q hq)]
  simp only [peerEndpoint, hop, hoq, Option.getD_none, ne_eq, List.append_cancel_left_eq]

theorem keys_nodup_iff :
    (ps.map fun p => envKey p.name).Nodup ↔
      ∀ p ∈ ps, ∀ q ∈ ps, p.name ≠ q.name → ¬EnvAlike p.name q.name := by
  have h := nodup_derived_iff hnames (fun _ => true) fun p => envKey p.name
  rw [List.filter_true] at h
  simpa only [true_implies, ne_eq, envKey_eq_iff] using h

/-- Different names stay different exactly when no two of them agree up to the
characters their mangler cannot tell apart. -/
theorem stayDistinct_iff (hne : ∀ p ∈ ps, p.name ≠ []) :
    StayDistinct ps ↔ ∀ p ∈ ps, ∀ q ∈ ps, p.name ≠ q.name → ¬EnvAlike p.name q.name ∧
      (p.enabled = true ∧ q.enabled = true ∨
        peerHostOverride p = none ∧ peerHostOverride q = none → ¬TokenAlike p.name q.name) := by
  constructor
  · intro h p hp q hq hpq
    refine ⟨(keys_nodup_iff hnames).mp h.keys p hp q hq hpq, ?_⟩
    rintro (⟨hep, heq⟩ | ⟨hop, hoq⟩)
    · exact (peers_nodup_iff hnames hne).mp h.peers p hp q hq hep heq hpq
    · exact (hosts_nodup_iff hnames hne).mp h.hosts p hp q hq hop hoq hpq
  · intro h
    refine ⟨(peers_nodup_iff hnames hne).mpr ?_, (hosts_nodup_iff hnames hne).mpr ?_,
      (keys_nodup_iff hnames).mpr fun p hp q hq hpq => (h p hp q hq hpq).1, ?_⟩
    · exact fun p hp q hq hep heq hpq => (h p hp q hq hpq).2 (.inl ⟨hep, heq⟩)
    · exact fun p hp q hq hop hoq hpq => (h p hp q hq hpq).2 (.inr ⟨hop, hoq⟩)
    · intro p hp q hq hpq
      have hkey := mt (envKey_eq_iff p.name q.name).mp (h p hp q hq hpq).1
      exact overridesSeparate hkey

end Names

def named (id name : String) : VPNProfile where
  id := lit id
  name := lit name

theorem stayDistinct_eu_us : StayDistinct [named "1" "eu", named "2" "us"] := by
  refine (stayDistinct_iff (by simp [named]) (by simp [named]; decide)).mpr ?_
  have hpair : ∀ {s t : Bytes}, s = lit "eu" ∨ s = lit "us" → t = lit "eu" ∨ t = lit "us" → s ≠ t →
      ¬EnvAlike s t ∧ ¬TokenAlike s t := by
    rintro _ _ (rfl | rfl) (rfl | rfl) <;> decide
  intro p hp q hq hpq
  have hname : ∀ r ∈ [named "1" "eu", named "2" "us"], r.name = lit "eu" ∨ r.name = lit "us" := by
    simp [named]
  obtain ⟨henv, htok⟩ := hpair (hname p hp) (hname q hq) hpq
  exact ⟨henv, fun _ => htok⟩

/-- A space and the underscore that replaces it: two profiles with one peer name,
one host and one set of variables. -/
theorem names_collide :
    let ps := [named "1" "eu 1", named "2" "eu_1"]
    (ps.map VPNProfile.name).Nodup ∧ (∀ p ∈ ps, Strings.trimSpace p.name ≠ []) ∧
      (resolveTunnels ps).map Tunnel.name = [lit "tun_eu_1", lit "tun_eu_1"] ∧
      ps.map (fun p => (peerEndpoint p).1) = [lit "gluetun-eu_1", lit "gluetun-eu_1"] ∧
      wgIf (Function.update (fun _ => []) (profileVar wgIfVar (lit "eu 1")) (lit "wg7"))
        (lit "eu_1") = lit "wg7" ∧
      ¬StayDistinct ps := by
  intro ps
  have hpeers : (resolveTunnels ps).map Tunnel.name = [lit "tun_eu_1", lit "tun_eu_1"] := by decide
  refine ⟨by decide, ?_, hpeers, by decide, by decide, ?_⟩
  · simp only [ps, named, List.forall_mem_cons, List.not_mem_nil, false_implies, implies_true, and_true]
    decide
  · intro h
    have hnodup := h.peers
    rw [hpeers] at hnodup
    simp at hnodup

end HelixProxy.Routing
