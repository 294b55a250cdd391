import HelixProxy.SquidInclude

/-!
# The artefacts of a compile pass

`routing.Engine`: one read pass over the store, then the Squid include, the Dante
route blocks and the PAC file, with the routes to seed. Here the reads keep their
error texts and target aliases may repeat; `compileAll` of `Routing` is what is
left of it once the texts are dropped.
-/

namespace HelixProxy.Strconv

open Utf8
set_option autoImplicit false

def hexDigit (n : Nat) : UInt8 := if n < 10 then UInt8.ofNat (48 + n) else UInt8.ofNat (87 + n)

/-- The last `width` hexadecimal digits of `n`. -/
def hex : Nat → Nat → Bytes
  | 0, _ => []
  | width + 1, n => hex width (n / 16) ++ [hexDigit (n % 16)]

/-- `strconv.IsPrint`; `printable` is its table for the runes above ASCII. -/
def isPrint (printable : Nat → Bool) (r : Nat) : Bool :=
  if r < 128 then 32 ≤ r && r < 127 else printable r

/-- `appendEscapedRune` within double quotes, the rune's own bytes being `bs`. -/
def escapedRune (printable : Nat → Bool) (r : Nat) (bs : Bytes) : Bytes :=
  if r = 34 ∨ r = 92 then 92 :: bs
  else if isPrint printable r then bs
  else match r with
    | 7 => lit "\\a"
    | 8 => lit "\\b"
    | 12 => lit "\\f"
    | 10 => lit "\\n"
    | 13 => lit "\\r"
    | 9 => lit "\\t"
    | 11 => lit "\\v"
    | _ =>
      if r < 32 ∨ r = 127 then lit "\\x" ++ hex 2 r
      else if r < 0x10000 then lit "\\u" ++ hex 4 r
      else lit "\\U" ++ hex 8 r

/-- `strconv.Quote`, which `%q` prints for a string: a byte that starts no valid
sequence is escaped by its value. -/
def quote (printable : Nat → Bool) (s : Bytes) : Bytes :=
  34 :: (segments s).flatMap (fun seg =>
    match seg with
    | (0xFFFD, [b]) => lit "\\x" ++ hex 2 b.toNat
    | (r, bs) => escapedRune printable r bs) ++ [34]

end HelixProxy.Strconv

namespace HelixProxy.Routing

open Store
set_option autoImplicit false
set_option maxRecDepth 4096

def danteHeader : List Bytes :=
  [lit "# =============================================================================",
   lit "# Helix Proxy — Dante (sockd) dynamic-routing routes   (GENERATED — DO NOT EDIT)",
   lit "# =============================================================================",
   lit "# APPENDED (by cmd/compiler) after the shipped config/dante/sockd.conf verbatim —",
   lit "# Dante v1.4.4 has NO `include` directive, so dynamism = concat + SIGHUP (§9).",
   lit "# One route block per target/tunnel; base lines are never modified (§11.4.122).",
   lit "# -----------------------------------------------------------------------------"]

def danteComment (r : DanteRoute) : Bytes :=
  lit "# " ++ r.name ++ lit ": send traffic destined for " ++ r.targetCIDR ++
    lit " out via this tunnel."

def danteRouteLine (r : DanteRoute) : Bytes :=
  lit "    from: 0.0.0.0/0   to: " ++ r.targetCIDR ++ lit "   via: " ++ r.peerHost ++
    lit " port = " ++ Strconv.itoa r.peerPort

def danteBlock (r : DanteRoute) : List Bytes :=
  [[], danteComment r, lit "route \x7b", danteRouteLine r, lit "    proxyprotocol: socks_v5",
    lit "    method: none", lit "\x7d"]

def renderDanteRoutes (routes : List DanteRoute) : Bytes :=
  Lines.terminated nl (danteHeader ++ routes.flatMap danteBlock)

def defaultPACProxy : Bytes := lit "PROXY proxy-squid:34128"

def pacHeader : List Bytes :=
  [lit "// Helix Proxy — proxy auto-config (GENERATED — DO NOT EDIT BY HAND).",
   lit "// VPN-routed target aliases go through the proxy; everything else is DIRECT",
   lit "// (split-tunnel, spec §11 ⑤). Regenerated only on a structural change."]

/-- One `if` of the PAC template. -/
def pacRule (printable : Nat → Bool) (host proxy : Bytes) : Bytes :=
  lit "    if (shExpMatch(host, " ++ Strconv.quote printable host ++ lit ")) \x7b return " ++
    Strconv.quote printable proxy ++ lit "; \x7d"

/-- `FindProxyForURL` with its rules, each a host pattern and a return value. -/
def pacFunction (printable : Nat → Bool) (rules : List (Bytes × Bytes)) : List Bytes :=
  lit "function FindProxyForURL(url, host) \x7b" ::
    rules.map (fun r => pacRule printable r.1 r.2) ++ [lit "    return \"DIRECT\";", lit "\x7d"]

def proxyOrDefault (proxy : Bytes) : Bytes := if proxy = [] then defaultPACProxy else proxy

/-- `pacTmpl` executed on the aliases in the order given. -/
def pacText (printable : Nat → Bool) (proxy : Bytes) (aliases : List Bytes) : Bytes :=
  Lines.terminated nl (pacHeader ++ pacFunction printable (aliases.map fun a => (a, proxy)))

def renderPAC (printable : Nat → Bool) (proxy : Bytes) (aliases : List Bytes) : Bytes :=
  pacText printable (proxyOrDefault proxy) (aliases.insertionSort (· ≤ ·))

structure Artifacts where
  squidInclude : Bytes := []
  danteRoutes : Bytes := []
  pac : Bytes := []
  deriving DecidableEq, Repr

/-- What `CompileAll` returns; `err` is the text of its error. -/
structure Output where
  artifacts : Artifacts := {}
  routes : List Bus.Route := []
  err : Option Bytes := none
  deriving DecidableEq, Repr

/-- The reads of a compile pass with the texts of their errors. Only the profiles
are known to differ in id and name. -/
structure Reads where
  listProfiles : Except Bytes Profiles
  listTargets : Except Bytes (List TargetHost)
  listTiers : Bytes → Except Bytes (List TargetTunnelTier)

structure Engine where
  helperPath : Bytes
  pacProxy : Bytes

def Engine.new (helperPath pacProxy : Bytes) : Engine := ⟨helperPath, proxyOrDefault pacProxy⟩

def danteRouteVia (tgt : TargetHost) (t : Tunnel) : DanteRoute :=
  ⟨t.name, tgt.privateIP, t.peerHost, t.peerPort⟩

/-- The loop over the targets with the two slices it appends to. -/
def compileTargets (r : Reads) (nameOf : Bytes → Option Bytes) (peerOf : Bytes → Option Tunnel) :
    List DanteRoute → List Bus.Route → List TargetHost →
      Except Bytes (List DanteRoute × List Bus.Route)
  | dRoutes, routes, [] => .ok (dRoutes, routes)
  | dRoutes, routes, tgt :: rest =>
    if !tgt.enabled then compileTargets r nameOf peerOf dRoutes routes rest
    else match r.listTiers tgt.id with
      | .error e => .error (lit "routing: list tiers for " ++ tgt.publicAlias ++ lit ": " ++ e)
      | .ok tiers =>
        match primaryTunnel tgt tiers nameOf with
        | none => compileTargets r nameOf peerOf dRoutes routes rest
        | some (profileName, tier) =>
          match peerOf profileName with
          | none => compileTargets r nameOf peerOf dRoutes routes rest
          | some peer =>
            compileTargets r nameOf peerOf (dRoutes ++ [danteRouteVia tgt peer])
              (routes ++ [⟨tgt.publicAlias, profileName, tier, closed⟩]) rest

def enabledAliases (targets : List TargetHost) : List Bytes :=
  (targets.filter TargetHost.enabled).map TargetHost.publicAlias

def Engine.compileAll (printable : Nat → Bool) (e : Engine) (r : Reads) : Output :=
  match r.listProfiles with
  | .error err => { err := some (lit "routing: list profiles: " ++ err) }
  | .ok profiles =>
    match r.listTargets with
    | .error err => { err := some (lit "routing: list targets: " ++ err) }
    | .ok targets =>
      let tunnels := resolveTunnels profiles.rows
      match compileTargets r (nameByID profiles.rows) (peerByProfile tunnels) [] [] targets with
      | .error err => { err := some err }
      | .ok (dRoutes, routes) =>
        { artifacts :=
            { squidInclude := renderSquidInclude e.helperPath tunnels
              danteRoutes := renderDanteRoutes dRoutes
              pac := renderPAC printable e.pacProxy (enabledAliases targets) }
          routes }

/-- No read of the pass fails. The tiers are read for enabled targets only. -/
def Reads.Answered (r : Reads) : Prop :=
  ∃ ps ts, r.listProfiles = .ok ps ∧ r.listTargets = .ok ts ∧
    ∀ tgt ∈ ts, tgt.enabled = true → ∃ tiers, r.listTiers tgt.id = .ok tiers

/-- The reads answer what `q` does, where aliases are known to differ too. -/
structure Reads.Agrees (r : Reads) (q : Queries) : Prop where
  profiles : q.listProfiles = r.listProfiles.toOption
  targets : q.listTargets.map Targets.rows = r.listTargets.toOption
  tiers : ∀ id, q.listTiers id = (r.listTiers id).toOption

/-- The slices after a target that resolves to `x`, or is skipped. -/
def appended (slices : List DanteRoute × List Bus.Route) (xs : List Resolved) :
    List DanteRoute × List Bus.Route :=
  (slices.1 ++ xs.map Resolved.dante, slices.2 ++ xs.map Resolved.route)

section Loop

variable {r : Reads} {q : Queries} (hq : ∀ id, q.listTiers id = (r.listTiers id).toOption)
  (nameOf : Bytes → Option Bytes) (peerOf : Bytes → Option Tunnel)
include hq

theorem compileTargets_cons (tgt : TargetHost) (rest : List TargetHost)
    (slices : List DanteRoute × List Bus.Route) :
    (∃ e, compileTargets r nameOf peerOf slices.1 slices.2 (tgt :: rest) = .error e ∧
      resolveTarget q nameOf peerOf tgt = none) ∨
    ∃ x, resolveTarget q nameOf peerOf tgt = some x ∧
      compileTargets r nameOf peerOf slices.1 slices.2 (tgt :: rest) =
        compileTargets r nameOf peerOf (appended slices x.toList).1 (appended slices x.toList).2
          rest := by
  simp only [compileTargets, resolveTarget]
  cases hen : tgt.enabled with
  | false => exact .inr ⟨none, by simp [appended]⟩
  | true =>
    rw [hq]
    cases ht : r.listTiers tgt.id with
    | error e => exact .inl ⟨_, rfl, by simp [Except.toOption]⟩
    | ok tiers =>
      refine .inr ?_
      simp only [Bool.not_true, Bool.false_eq_true, if_false, Except.toOption, Option.map_some]
      cases hprim : primaryTunnel tgt tiers nameOf with
      | none => exact ⟨none, by simp [appended]⟩
      | some choice =>
        cases hpeer : peerOf choice.1 with
        | none => exact ⟨none, by simp [appended, hpeer]⟩
        | some peer => exact ⟨some _, by simp [hpeer]; rfl, by simp [appended, hpeer, danteRouteVia]⟩

/-- The loop resolves the targets in order; of an error only its text is more. -/
theorem compileTargets_toOption (ts : List TargetHost)
    (slices : List DanteRoute × List Bus.Route) :
    (compileTargets r nameOf peerOf slices.1 slices.2 ts).toOption =
      (resolveTargets q nameOf peerOf ts).map (appended slices) := by
  induction ts generalizing slices with
  | nil => simp [compileTargets, resolveTargets, Except.toOption, appended]
  | cons tgt rest ih =>
    obtain ⟨e, herr, hnone⟩ | ⟨x, hx, hstep⟩ := compileTargets_cons hq nameOf peerOf tgt rest slices
    · simp [herr, Except.toOption, resolveTargets, hnone]
    · rw [hstep, ih, resolveTargets, hx]
      cases resolveTargets q nameOf peerOf rest with
      | none => rfl
      | some xs => simp [appended]

end Loop

theorem toOption_eq_some_iff {ε α : Type} {x : Except ε α} {a : α} :
    x.toOption = some a ↔ x = .ok a := by
  cases x <;> simp [Except.toOption]

/-- On the reads of `q` the engine renders what `compileAll` resolves. -/
theorem Engine.compileAll_of_agrees {r : Reads} {q : Queries} (h : r.Agrees q)
    (printable : Nat → Bool) (e : Engine) {c : Compiled} (hc : Routing.compileAll q = some c) :
    e.compileAll printable r =
      { artifacts :=
          { squidInclude := renderSquidInclude e.helperPath c.tunnels
            danteRoutes := renderDanteRoutes (c.resolved.map Resolved.dante)
            pac := renderPAC printable e.pacProxy c.aliases }
        routes := c.routes } := by
  simp only [Routing.compileAll, Option.bind_eq_some_iff, Option.map_eq_some_iff] at hc
  obtain ⟨ps, hps, ts, hts, xs, hxs, rfl⟩ := hc
  have hprofiles : r.listProfiles = .ok ps := toOption_eq_some_iff.mp (h.profiles ▸ hps)
  have htargets : r.listTargets = .ok ts.rows := by
    rw [← toOption_eq_some_iff, ← h.targets, hts]
    rfl
  have hloop := compileTargets_toOption h.tiers (nameByID ps.rows)
    (peerByProfile (resolveTunnels ps.rows)) ts.rows ([], [])
  rw [hxs, Option.map_some, toOption_eq_some_iff] at hloop
  simp only [Engine.compileAll, hprofiles, htargets, hloop, appended, List.nil_append]
  rfl

/-- The target yields a route, through the profile `p` at the given tier. -/
def Reads.RoutedTo (r : Reads) (ps : Profiles) (tgt : TargetHost) (p : VPNProfile) (tier : Int) :
    Prop :=
  tgt.enabled = true ∧ p ∈ ps.rows ∧ p.enabled = true ∧ p.name ≠ [] ∧
    ∃ tiers, r.listTiers tgt.id = .ok tiers ∧ Primary tgt tiers p tier

/-- The lists the three renderers are given and the routes, all made from the same
rows. `via` is the tunnel and the tier of a target that is not skipped. -/
structure Consistent (r : Reads) (ps : Profiles) (ts : List TargetHost) (tunnels : List Tunnel)
    (dRoutes : List DanteRoute) (aliases : List Bytes) (routes : List Bus.Route) : Prop where
  tunnels_perm : tunnels.Perm ((ps.rows.filter VPNProfile.enabled).map tunnelOf)
  tunnels_sorted : tunnels.Pairwise fun s t => s.profile < t.profile
  routed : ∃ via : TargetHost → Option (Tunnel × Int),
    (∀ tgt t tier, via tgt = some (t, tier) ↔
      ∃ p, r.RoutedTo ps tgt p tier ∧ t = tunnelOf p ∧ t ∈ tunnels) ∧
    dRoutes = ts.filterMap (fun tgt => (via tgt).map fun v => danteRouteVia tgt v.1) ∧
    routes = ts.filterMap (fun tgt => (via tgt).map fun v =>
      ⟨tgt.publicAlias, v.1.profile, v.2, closed⟩)
  aliases_perm : aliases.Perm (enabledAliases ts)

def Resolved.tunnel (x : Resolved) : Tunnel :=
  ⟨x.route.tunnel, x.dante.name, x.dante.peerHost, x.dante.peerPort⟩

/-- The reads behind one target, as `Routing` has them. -/
def Reads.queries (r : Reads) : Queries where
  listProfiles := r.listProfiles.toOption
  listTargets := none
  listTiers id := (r.listTiers id).toOption

theorem Reads.routedTo_iff (r : Reads) (ps : Profiles) (tgt : TargetHost) (p : VPNProfile)
    (tier : Int) : r.RoutedTo ps tgt p tier ↔ ResolvesTo r.queries ps tgt p tier := by
  simp only [RoutedTo, ResolvesTo, queries, toOption_eq_some_iff]

theorem consistent_of_loop {r : Reads} {ps : Profiles} {ts : List TargetHost}
    {dRoutes : List DanteRoute} {routes : List Bus.Route}
    (h : compileTargets r (nameByID ps.rows) (peerByProfile (resolveTunnels ps.rows)) [] [] ts =
      .ok (dRoutes, routes)) :
    Consistent r ps ts (resolveTunnels ps.rows) dRoutes
      ((enabledAliases ts).insertionSort (· ≤ ·)) routes := by
  have hloop := compileTargets_toOption (q := r.queries) (fun _ => rfl) (nameByID ps.rows)
    (peerByProfile (resolveTunnels ps.rows)) ts ([], [])
  rw [h] at hloop
  obtain ⟨xs, hxs, hslices⟩ := Option.map_eq_some_iff.mp hloop.symm
  simp only [appended, List.nil_append, Prod.mk.injEq] at hslices
  obtain ⟨rfl, rfl⟩ := hslices
  have hres := fun tgt x => resolveTarget_eq_some_iff r.queries ps tgt x
  rw [resolveTargets_eq_filterMap hxs]
  generalize resolveTarget r.queries (nameByID ps.rows)
    (peerByProfile (resolveTunnels ps.rows)) = resolve at hres
  -- what a target resolves to knows its tunnel, so the tunnel can be read back from it
  refine ⟨resolveTunnels_perm ps.rows, resolveTunnels_strictly_sorted ps.names_nodup,
    ⟨fun tgt => (resolve tgt).join.map fun x => (x.tunnel, x.route.tier), ?_, ?_, ?_⟩,
    List.perm_insertionSort _ _⟩
  · intro tgt t tier
    simp only [Option.map_eq_some_iff, Option.join_eq_some_iff, hres, Prod.mk.injEq, r.routedTo_iff]
    constructor
    · rintro ⟨_, ⟨p, tier', hp, rfl⟩, rfl, rfl⟩
      exact ⟨p, hp, rfl, mem_resolveTunnels.mpr ⟨p, hp.2.1, hp.2.2.1, rfl⟩⟩
    · rintro ⟨p, hp, rfl, -⟩
      exact ⟨resolvedVia tgt p tier, ⟨p, tier, hp, rfl⟩, rfl, rfl⟩
  all_goals
    rw [List.map_filterMap]
    refine List.filterMap_congr fun tgt _ => ?_
    rw [Option.map_map]
    refine Option.map_congr fun x hx => ?_
    obtain ⟨p, tier, -, rfl⟩ := (hres tgt x).mp (Option.join_eq_some_iff.mp hx)
    rfl

theorem compileTargets_ok_iff (r : Reads) (nameOf : Bytes → Option Bytes)
    (peerOf : Bytes → Option Tunnel) (ts : List TargetHost) :
    (∃ slices, compileTargets r nameOf peerOf [] [] ts = .ok slices) ↔
      ∀ tgt ∈ ts, tgt.enabled = true → ∃ tiers, r.listTiers tgt.id = .ok tiers := by
  have hloop := compileTargets_toOption (q := r.queries) (fun _ => rfl) nameOf peerOf ts ([], [])
  have hsome := resolveTargets_isSome_iff r.queries nameOf peerOf ts
  simp only [Reads.queries, toOption_eq_some_iff] at hsome
  rw [← hsome]
  simp only [← toOption_eq_some_iff, hloop, Option.map_eq_some_iff]
  constructor
  · rintro ⟨_, xs, hxs, -⟩
    exact ⟨xs, hxs⟩
  · rintro ⟨xs, hxs⟩
    exact ⟨_, xs, hxs, rfl⟩

/-- A pass either fails with a text and nothing else, a read having failed, or
renders what the loop collected. -/
theorem Engine.compileAll_cases (printable : Nat → Bool) (e : Engine) (r : Reads) :
    (∃ text, e.compileAll printable r = { err := some text } ∧ ¬r.Answered) ∨
    ∃ ps ts dRoutes routes, r.listProfiles = .ok ps ∧ r.listTargets = .ok ts ∧
      compileTargets r (nameByID ps.rows) (peerByProfile (resolveTunnels ps.rows)) [] [] ts =
        .ok (dRoutes, routes) ∧
      e.compileAll printable r =
        { artifacts :=
            { squidInclude := renderSquidInclude e.helperPath (resolveTunnels ps.rows)
              danteRoutes := renderDanteRoutes dRoutes
              pac := renderPAC printable e.pacProxy (enabledAliases ts) }
          routes } := by
  cases hps : r.listProfiles with
  | error err => exact .inl ⟨_, by simp only [compileAll, hps]; rfl, by simp [Reads.Answered, hps]⟩
  | ok ps =>
    cases hts : r.listTargets with
    | error err =>
      exact .inl ⟨_, by simp only [compileAll, hps, hts]; rfl, by simp [Reads.Answered, hts]⟩
    | ok ts =>
      have hok := compileTargets_ok_iff r (nameByID ps.rows)
        (peerByProfile (resolveTunnels ps.rows)) ts
      cases hloop : compileTargets r (nameByID ps.rows) (peerByProfile (resolveTunnels ps.rows))
          [] [] ts with
      | error err =>
        refine .inl ⟨err, by simp only [compileAll, hps, hts, hloop], ?_⟩
        rintro ⟨_, ts', -, hts', htiers⟩
        obtain rfl : ts = ts' := Except.ok.inj (hts.symm.trans hts')
        obtain ⟨slices, hslices⟩ := hok.mpr htiers
        simp [hloop] at hslices
      | ok slices =>
        exact .inr ⟨ps, ts, slices.1, slices.2, rfl, rfl, hloop, by
          simp only [compileAll, hps, hts, hloop]⟩

/-- A pass fails exactly when a read does, and then returns nothing; otherwise all
its outputs come from the same rows. -/
theorem compileAll_consistent (printable : Nat → Bool) (e : Engine) (r : Reads) :
    ((e.compileAll printable r).err = none ↔ r.Answered) ∧
    ((e.compileAll printable r).err ≠ none →
      (e.compileAll printable r).artifacts = {} ∧ (e.compileAll printable r).routes = []) ∧
    (∀ ps ts, r.listProfiles = .ok ps → r.listTargets = .ok ts →
      (e.compileAll printable r).err = none →
      ∃ tunnels dRoutes aliases,
        (e.compileAll printable r).artifacts =
          { squidInclude := renderSquidInclude e.helperPath tunnels
            danteRoutes := renderDanteRoutes dRoutes
            pac := pacText printable (proxyOrDefault e.pacProxy) aliases } ∧
        Consistent r ps ts tunnels dRoutes aliases (e.compileAll printable r).routes) := by
  obtain ⟨text, hout, hfail⟩ | ⟨ps, ts, dRoutes, routes, hps, hts, hloop, hout⟩ :=
    e.compileAll_cases printable r
  · simp [hout, hfail]
  · have hanswered : r.Answered :=
      ⟨ps, ts, hps, hts, (compileTargets_ok_iff r _ _ ts).mp ⟨_, hloop⟩⟩
    refine ⟨by simp [hout, hanswered], by simp [hout], ?_⟩
    intro ps' ts' hps' hts' _
    obtain rfl : ps = ps' := Except.ok.inj (hps.symm.trans hps')
    obtain rfl : ts = ts' := Except.ok.inj (hts.symm.trans hts')
    rw [hout]
    exact ⟨_, _, _, rfl, consistent_of_loop hloop⟩

end HelixProxy.Routing
