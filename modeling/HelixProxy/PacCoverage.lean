import HelixProxy.Compiler
import HelixProxy.Pac

/-!
# The hosts of the PAC and of the helper

A PAC file takes an alias as a pattern for the host of a URL; the helper looks up
the Host header, port included, as it is. `Aligned` is what a resolved alias asks of
the other aliases for the two to cover the same hosts.
-/

namespace HelixProxy.Pac

open AclHelper Bus Compiler Routing Store
set_option autoImplicit false

def HostName (h : Bytes) : Prop := h ≠ [] ∧ Kept h

def withPort (h : Bytes) (port : Nat) : Bytes := h ++ lit ":" ++ Strconv.itoa port

/-- The Host headers of a request to `h`: the name alone, or with a port. -/
def HostHeader (h host : Bytes) : Prop :=
  host = h ∨ ∃ port, 1 ≤ port ∧ port ≤ 65535 ∧ host = withPort h port

/-- The pattern an alias becomes matches the host. -/
def Covers (printable : Nat → Bool) (publicAlias h : Bytes) : Prop :=
  Js.shExpMatch (Js.units h) (Js.literal (Strconv.quote printable publicAlias)) = true

/-- The file sends `h` to the proxy because of the alias of a resolved target. -/
def SentToProxy (printable : Nat → Bool) (q : Queries) (rules : List (Bytes × Bytes)) (h : Bytes) :
    Prop :=
  ∃ rule ∈ rules, Resolvable q rule.1 ∧ Covers printable rule.1 h ∧
    findProxyForURL printable rules h = Js.literal (Strconv.quote printable rule.2)

/-- A resolved alias covers the host. -/
def Covered (printable : Nat → Bool) (q : Queries) (h : Bytes) : Prop :=
  ∃ a, Resolvable q a ∧ Covers printable a h

/-- What a resolved alias asks of the others. -/
structure Aligned (printable : Nat → Bool) (q : Queries) (a : Bytes) : Prop where
  /-- With a star it may match no host name: it would match endlessly many. -/
  star : 42 ∈ Js.literal (Strconv.quote printable a) → ∀ h, HostName h → ¬Covers printable a h
  /-- The host names it matches are resolved aliases. -/
  matched : ∀ h, HostName h → Covers printable a h → Resolvable q h
  /-- A host name has an alias with each port beside it. -/
  ported : HostName a → ∀ port, 1 ≤ port → port ≤ 65535 → Resolvable q (withPort a port)
  /-- A name with a port has the name alone beside it. -/
  bare : ∀ h port, HostName h → 1 ≤ port → port ≤ 65535 → a = withPort h port → Resolvable q h

/-- Characters that a Go literal and a JavaScript literal both show as they are. -/
def Plain (s : Bytes) : Prop := ∀ b ∈ s, 32 ≤ b.toNat ∧ b.toNat < 127 ∧ b.toNat ≠ 34 ∧ b.toNat ≠ 92

theorem Kept.plain {h : Bytes} (hk : Kept h) : Plain h := by
  intro b hb
  have hr := hk b hb
  simp only [keptRune, Bool.or_eq_true, Bool.and_eq_true, decide_eq_true_eq, beq_iff_eq] at hr
  omega

theorem Plain.ascii {s : Bytes} (hs : Plain s) : Utf8.Ascii s := fun b hb =>
  UInt8.lt_iff_toNat_lt.mpr (Nat.lt_trans (hs b hb).2.1 (by decide))

theorem Plain.ascii_quoted {s : Bytes} (hs : Plain s) : Utf8.Ascii (34 :: s ++ [34]) := by
  intro b hb
  simp only [List.cons_append, List.mem_cons, List.mem_append, List.not_mem_nil, or_false] at hb
  rcases hb with rfl | hb | rfl
  · decide
  · exact hs.ascii b hb
  · decide

theorem quote_plain (printable : Nat → Bool) {s : Bytes} (hs : Plain s) :
    Strconv.quote printable s = 34 :: s ++ [34] := by
  have hone : s.flatMap (fun b => [b]) = s := by simp
  rw [Strconv.quote, Utf8.segments_ascii hs.ascii, List.flatMap_map]
  conv_rhs => rw [← hone]
  refine congrArg (fun body => 34 :: body ++ [34]) (List.flatMap_congr fun b hb => ?_)
  obtain ⟨hlow, hhigh, hmark, hslash⟩ := hs b hb
  split
  · next heq =>
    have hr := (Prod.mk.inj heq).1
    omega
  · next r bs heq =>
    obtain ⟨rfl, rfl⟩ := Prod.mk.inj heq
    have hquote : ¬(b.toNat = 34 ∨ b.toNat = 92) := by omega
    have hprint : Strconv.isPrint printable b.toNat = true := by
      have hascii : b.toNat < 128 := by omega
      simp only [Strconv.isPrint, hascii, if_true, Bool.and_eq_true, decide_eq_true_eq]
      omega
    unfold Strconv.escapedRune
    rw [if_neg hquote, if_pos hprint]

theorem units_ascii {s : Bytes} (hs : Utf8.Ascii s) : Js.units s = s.map UInt8.toNat := by
  have hone : (s.map UInt8.toNat).flatMap (fun r => [r]) = s.map UInt8.toNat := by simp
  rw [Js.units, Utf8.runes_ascii hs]
  conv_rhs => rw [← hone]
  refine List.flatMap_congr fun r hr => ?_
  obtain ⟨b, -, rfl⟩ := List.mem_map.mp hr
  rw [Js.utf16, if_pos (Nat.lt_trans b.toNat_lt (by decide))]

/-- A plain text is written as it is, and read back. -/
theorem literal_quote_plain (printable : Nat → Bool) {s : Bytes} (hs : Plain s) :
    Js.literal (Strconv.quote printable s) = Js.units s := by
  have hbody : (Utf8.runes (34 :: s ++ [34])).tail.dropLast = Utf8.runes s := by
    rw [Utf8.runes_ascii hs.ascii_quoted, Utf8.runes_ascii hs.ascii]
    simp
  rw [quote_plain printable hs, Js.literal, hbody, Js.units]
  refine Js.escapesFrom_plain fun r hr => ?_
  rw [Utf8.runes_ascii hs.ascii] at hr
  obtain ⟨b, hb, rfl⟩ := List.mem_map.mp hr
  exact (hs b hb).2.2.2

theorem covers_self (printable : Nat → Bool) {h : Bytes} (hk : Kept h) : Covers printable h h := by
  rw [Covers, literal_quote_plain printable (Kept.plain hk)]
  exact Glob.matches_self 42 63 _

theorem mem_of_toNat_mem {s : Bytes} {b : UInt8} (h : b.toNat ∈ s.map UInt8.toNat) : b ∈ s := by
  obtain ⟨c, hc, heq⟩ := List.mem_map.mp h
  exact UInt8.toNat_inj.mp heq ▸ hc

/-- A plain alias without wildcards covers itself only. -/
theorem eq_of_covers {printable : Nat → Bool} {a h : Bytes} (ha : Plain a) (hstar : (42 : UInt8) ∉ a)
    (hany : (63 : UInt8) ∉ a) (hk : Kept h) (hcov : Covers printable a h) : h = a := by
  rw [Covers, literal_quote_plain printable ha, units_ascii ha.ascii, units_ascii hk.ascii] at hcov
  have hsame : h.map UInt8.toNat = a.map UInt8.toNat :=
    Glob.eq_of_matches (fun hm => hstar (mem_of_toNat_mem hm)) (fun hm => hany (mem_of_toNat_mem hm))
      hcov
  exact List.map_injective_iff.mpr (fun _ _ => UInt8.toNat_inj.mp) hsame

/-- With a star a pattern that matches a host name matches arbitrarily long ones. -/
theorem covers_longer {printable : Nat → Bool} {a h : Bytes}
    (hstar : 42 ∈ Js.literal (Strconv.quote printable a)) (hh : HostName h)
    (hcov : Covers printable a h) (n : Nat) :
    ∃ longer, HostName longer ∧ n < longer.length ∧ Covers printable a longer := by
  obtain ⟨before, after, hunits, hinsert⟩ := Glob.matches_insert hstar hcov
  rw [units_ascii hh.2.ascii] at hunits
  obtain ⟨left, right, rfl, rfl, rfl⟩ := List.map_eq_append_iff.mp hunits
  have hkept : Kept (left ++ List.replicate (n + 1) 97 ++ right) := by
    intro b hb
    rw [List.append_assoc, List.mem_append, List.mem_append] at hb
    rcases hb with hb | hb | hb
    · exact hh.2 b (List.mem_append_left _ hb)
    · rw [List.eq_of_mem_replicate hb]
      rfl
    · exact hh.2 b (List.mem_append_right _ hb)
  refine ⟨_, ⟨by simp, hkept⟩, by simp only [List.length_append, List.length_replicate]; omega, ?_⟩
  rw [Covers, units_ascii hkept.ascii, List.map_append, List.map_append]
  exact hinsert _

theorem not_covers_nil (printable : Nat → Bool) {h : Bytes} (hh : HostName h) :
    ¬Covers printable [] h := by
  have hnil : Js.literal (Strconv.quote printable []) = [] := rfl
  rw [Covers, hnil, Js.shExpMatch, Glob.matches_nil, units_ascii hh.2.ascii]
  simpa using hh.1

section Redis

variable {Raw : Type} {json : Codec Raw} {q : Queries} {ps : Profiles} {c : Compiled}

theorem foldl_put_statusKey (routes : List Route) (seedTime : Int) (r : Redis Raw) (p : Bytes) :
    routes.foldl (fun s route => Expiring.put s (routeWrite json seedTime route)) r (statusKey p) =
      r (statusKey p) := by
  induction routes generalizing r with
  | nil => rfl
  | cons route rest ih =>
    rw [List.foldl_cons, ih, Expiring.put, routeWrite,
      Function.update_of_ne (statusKey_ne_routeKey p route.target)]

/-- The helper's answer with the routes of a pass seeded and every profile up. -/
theorem decide_seeded_iff (hps : q.listProfiles = some ps) (hc : compileAll q = some c)
    {r : Redis Raw} (hempty : ∀ host, r (routeKey host) = none) {now seedTime maxAge : Int}
    (hup : ∀ p ∈ ps.rows, (getStatus json r now maxAge true p.name).1.state = .up)
    {host : Bytes} (hhost : host ≠ []) {seeded : Redis Raw}
    (hseeded : seeded =
      c.routes.foldl (fun s route => Expiring.put s (routeWrite json seedTime route)) r) :
    ((Decider.ofRedis json maxAge (seeded, now, true) (seeded, now, true)).decide host).1 = true ↔
      Resolvable q host := by
  have hstatus : ∀ p, getStatus json seeded now maxAge true p = getStatus json r now maxAge true p := by
    intro p
    simp only [getStatus, Expiring.get, hseeded, foldl_put_statusKey]
  have hkey : seeded (routeKey host) =
      (lastFor c.routes host).map fun route => ⟨json.marshalRoute route, none⟩ := by
    rw [hseeded, foldl_put_route, hempty, Option.or_none]
  have hlookup := getRoute_of_entry now _ hkey
  rw [resolvable_iff hc]
  cases hlast : lastFor c.routes host with
  | none =>
    rw [hlast] at hlookup
    have hgone := (lastFor_eq_none_iff _ _).mp hlast
    have herr : (Decider.ofRedis json maxAge (seeded, now, true) (seeded, now, true)).decide host =
        (false, []) := by
      refine decide_eq_err _ host fun tag htag => ?_
      obtain ⟨-, -, route, hroute, -⟩ := htag
      exact absurd (hlookup.symm.trans hroute) (by simp)
    simp only [herr, Bool.false_eq_true, false_iff, not_exists, not_and]
    exact hgone
  | some route =>
    rw [hlast] at hlookup
    obtain ⟨hmem, htarget⟩ := lastFor_mem hlast
    obtain ⟨ps', ts, hps', -, tgt, -, p, tier, ⟨-, hp, -, hne, -⟩, rfl⟩ := (mem_routes_iff hc _).mp hmem
    obtain rfl := Option.some.inj (hps.symm.trans hps')
    rw [decide_ok_iff hhost hlookup, hstatus]
    exact ⟨fun _ => ⟨_, hmem, htarget⟩, fun _ => ⟨hne, hup p hp⟩⟩

end Redis

section Rules

variable {printable : Nat → Bool} {q : Queries} {ts : Targets} {c : Compiled}

theorem alias_of_resolvable (hts : q.listTargets = some ts) {a : Bytes} (ha : Resolvable q a) :
    a ∈ enabledAliases ts.rows := by
  obtain ⟨_, ts', -, hts', tgt, htgt, halias, _, _, hen, -⟩ := ha
  obtain rfl := Option.some.inj (hts.symm.trans hts')
  exact List.mem_map.mpr ⟨tgt, List.mem_filter.mpr ⟨htgt, hen⟩, halias⟩

theorem aliases_eq (hts : q.listTargets = some ts) (hc : compileAll q = some c) :
    c.aliases = enabledAliases ts.rows := by
  simp only [compileAll, hts, Option.bind_some, Option.bind_eq_some_iff, Option.map_eq_some_iff] at hc
  obtain ⟨ps, -, xs, -, rfl⟩ := hc
  rfl

/-- When all rules of a file name one proxy, any rule that matches leads there. -/
theorem sentToProxy_iff {rules : List (Bytes × Bytes)} (proxy : Bytes)
    (hproxy : ∀ rule ∈ rules, rule.2 = proxy) {h : Bytes}
    (hrules : ∀ a, Resolvable q a → Covers printable a h → (a, proxy) ∈ rules) :
    SentToProxy printable q rules h ↔ Covered printable q h := by
  constructor
  · rintro ⟨rule, -, hres, hcov, -⟩
    exact ⟨rule.1, hres, hcov⟩
  · rintro ⟨a, hres, hcov⟩
    refine ⟨(a, proxy), hrules a hres hcov, hres, hcov, ?_⟩
    have hsome : (rules.find? fun r => Js.shExpMatch (Js.units h)
        (Js.literal (Strconv.quote printable r.1))).isSome :=
      List.find?_isSome.mpr ⟨_, hrules a hres hcov, hcov⟩
    obtain ⟨rule, hrule⟩ := Option.isSome_iff_exists.mp hsome
    have hsame := hproxy rule (List.mem_of_find?_eq_some hrule)
    simp only [findProxyForURL, hrule, hsame]

theorem sentToProxy_compiled (hts : q.listTargets = some ts) (hc : compileAll q = some c)
    (pacProxy h : Bytes) :
    SentToProxy printable q (compiledRules pacProxy c.aliases) h ↔
      Covered printable q h := by
  refine sentToProxy_iff (proxyOrDefault pacProxy) ?_ fun a ha _ => ?_
  · intro rule hrule
    obtain ⟨a, -, rfl⟩ := List.mem_map.mp hrule
    rfl
  · rw [aliases_eq hts hc]
    exact List.mem_map.mpr ⟨a, (List.mem_insertionSort _).mpr (alias_of_resolvable hts ha), rfl⟩

theorem normalised_pacEntries (targets : List TargetHost) :
    normalised (Api.pacEntries targets) =
      ((enabledAliases targets).filter (· ≠ [])).map fun a => ⟨a, defaultProxy⟩ := by
  unfold normalised Api.pacEntries enabledAliases
  rw [List.filter_map, List.map_map, List.filter_map, List.map_map]
  refine List.map_congr_left fun t _ => ?_
  have hset : defaultProxy ≠ [] := by decide
  simp [hset]

/-- The served file skips an empty alias, which matches no host name. -/
theorem sentToProxy_served (hts : q.listTargets = some ts) (sort : SliceSort) {h : Bytes}
    (hh : HostName h) :
    SentToProxy printable q (generatedRules sort (Api.pacEntries ts.rows)) h ↔
      Covered printable q h := by
  have hmem : ∀ e, e ∈ sort.run (normalised (Api.pacEntries ts.rows)) ↔
      ∃ a ∈ enabledAliases ts.rows, a ≠ [] ∧ Entry.mk a defaultProxy = e := by
    intro e
    rw [(sort.perm _).mem_iff, normalised_pacEntries]
    simp [and_assoc]
  refine sentToProxy_iff defaultProxy ?_ fun a ha hcov => ?_
  · intro rule hrule
    obtain ⟨e, he, rfl⟩ := List.mem_map.mp hrule
    obtain ⟨a, -, -, rfl⟩ := (hmem e).mp he
    rfl
  · have hne : a ≠ [] := by
      rintro rfl
      exact not_covers_nil printable hh hcov
    exact List.mem_map.mpr ⟨_, (hmem _).mpr ⟨a, alias_of_resolvable hts ha, hne, rfl⟩, rfl⟩

end Rules

/-- A store has a longest alias. -/
theorem resolvable_bounded (q : Queries) : ∃ n, ∀ a, Resolvable q a → a.length ≤ n := by
  cases hts : q.listTargets with
  | none =>
    refine ⟨0, ?_⟩
    rintro a ⟨_, ts, -, hsome, -⟩
    cases hts.symm.trans hsome
  | some ts =>
    refine ⟨(enabledAliases ts.rows).flatten.length, fun a ha => ?_⟩
    exact (List.sublist_flatten_of_mem (alias_of_resolvable hts ha)).length_le

theorem HostHeader.ne_nil {h host : Bytes} (hh : HostName h) (hhost : HostHeader h host) :
    host ≠ [] := by
  rcases hhost with rfl | ⟨port, -, -, rfl⟩
  · exact hh.1
  · simp [withPort, hh.1]

/-- The files and the helper agree on every request when the host names that resolve,
with any port, are those that are covered. -/
theorem aligned_iff {printable : Nat → Bool} {q : Queries} :
    (∀ h, HostName h → ∀ host, HostHeader h host → (Resolvable q host ↔ Covered printable q h)) ↔
      ∀ a, Resolvable q a → Aligned printable q a := by
  constructor
  · intro hboth a ha
    have hmatched : ∀ h, HostName h → Covers printable a h → Resolvable q h := fun h hh hcov =>
      (hboth h hh h (.inl rfl)).mpr ⟨a, ha, hcov⟩
    refine ⟨fun hstar h hh hcov => ?_, hmatched, fun hname port hlow hhigh => ?_,
      fun h port hh hlow hhigh heq => ?_⟩
    · obtain ⟨n, hbound⟩ := resolvable_bounded q
      obtain ⟨longer, hlonger, hn, hcov'⟩ := covers_longer hstar hh hcov n
      exact absurd (hbound longer (hmatched longer hlonger hcov')) (Nat.not_le.mpr hn)
    · exact (hboth a hname _ (.inr ⟨port, hlow, hhigh, rfl⟩)).mpr
        ⟨a, ha, covers_self printable hname.2⟩
    · have hcov := (hboth h hh a (.inr ⟨port, hlow, hhigh, heq⟩)).mp ha
      exact (hboth h hh h (.inl rfl)).mpr hcov
  · intro haligned h hh host hhost
    have hname : Resolvable q h ↔ Covered printable q h :=
      ⟨fun hres => ⟨h, hres, covers_self printable hh.2⟩,
        fun ⟨a, ha, hcov⟩ => (haligned a ha).matched h hh hcov⟩
    rcases hhost with rfl | ⟨port, hlow, hhigh, rfl⟩
    · exact hname
    · rw [← hname]
      exact ⟨fun hres => (haligned _ hres).bare h port hh hlow hhigh rfl,
        fun hres => (haligned h hres).ported hh port hlow hhigh⟩

/-- With the routes seeded and every profile up, each file and the helper cover the
same hosts exactly when the resolved aliases are `Aligned`. -/
theorem pac_helper_agree_iff {Raw : Type} (json : Codec Raw) (printable : Nat → Bool)
    (sort : SliceSort) (e : Engine) {q : Queries} {ps : Profiles} (hps : q.listProfiles = some ps)
    {ts : Targets} (hts : q.listTargets = some ts) {c : Compiled} (hc : compileAll q = some c)
    {r seeded : Redis Raw} (hempty : ∀ host, r (routeKey host) = none) {now seedTime maxAge : Int}
    (hup : ∀ p ∈ ps.rows, (getStatus json r now maxAge true p.name).1.state = .up)
    (hseeded : seeded =
      c.routes.foldl (fun s route => Expiring.put s (routeWrite json seedTime route)) r) :
    (∀ rules ∈ [compiledRules e.pacProxy c.aliases, generatedRules sort (Api.pacEntries ts.rows)],
      ∀ h, HostName h → ∀ host, HostHeader h host →
        (((Decider.ofRedis json maxAge (seeded, now, true) (seeded, now, true)).decide host).1 = true ↔
          SentToProxy printable q rules h)) ↔
      ∀ a, Resolvable q a → Aligned printable q a := by
  have hhelper : ∀ {h host : Bytes}, HostName h → HostHeader h host →
      (((Decider.ofRedis json maxAge (seeded, now, true) (seeded, now, true)).decide host).1 = true ↔
        Resolvable q host) :=
    fun hh hhost => decide_seeded_iff hps hc hempty hup (hhost.ne_nil hh) hseeded
  have hsent : ∀ rules ∈ [compiledRules e.pacProxy c.aliases,
      generatedRules sort (Api.pacEntries ts.rows)], ∀ h, HostName h →
      (SentToProxy printable q rules h ↔ Covered printable q h) := by
    intro rules hrules h hh
    simp only [List.mem_cons, List.not_mem_nil, or_false] at hrules
    rcases hrules with rfl | rfl
    · exact sentToProxy_compiled hts hc e.pacProxy h
    · exact sentToProxy_served hts sort hh
  have hlaw : ∀ {h host : Bytes}, HostName h → HostHeader h host →
      ∀ rules ∈ [compiledRules e.pacProxy c.aliases, generatedRules sort (Api.pacEntries ts.rows)],
      ((((Decider.ofRedis json maxAge (seeded, now, true) (seeded, now, true)).decide host).1 = true ↔
        SentToProxy printable q rules h) ↔ (Resolvable q host ↔ Covered printable q h)) := by
    intro h host hh hhost rules hrules
    rw [hhelper hh hhost, hsent rules hrules h hh]
  rw [← aligned_iff]
  constructor
  · intro hagree h hh host hhost
    exact (hlaw hh hhost _ List.mem_cons_self).mp (hagree _ List.mem_cons_self h hh host hhost)
  · intro hboth rules hrules h hh host hhost
    exact (hlaw hh hhost rules hrules).mpr (hboth h hh host hhost)

/-- The two files are rendered from these rules. -/
theorem pac_texts {reads : Reads} {q : Queries} (hr : reads.Agrees q) {ts : Targets}
    {c : Compiled} (hc : compileAll q = some c) (printable : Nat → Bool) (sort : SliceSort)
    (e : Engine) :
    (e.compileAll printable reads).artifacts.pac =
      Lines.terminated nl (pacHeader ++ pacFunction printable (compiledRules e.pacProxy c.aliases)) ∧
    Api.proxyPAC printable sort (.ok ts.rows) = .ok { body := Lines.terminated nl (servedHeader ++
      pacFunction printable (generatedRules sort (Api.pacEntries ts.rows))) } := by
  rw [e.compileAll_of_agrees hr printable hc]
  exact ⟨renderPAC_eq printable e.pacProxy c.aliases, rfl⟩

def euUp : Vpn.HealthSnapshot := { profile := lit "eu", state := .up }

/-- Redis with nothing but the status of `eu`. -/
def upOnly : Redis Document :=
  fun key => if key = statusKey (lit "eu") then some ⟨.status euUp, none⟩ else none

theorem upOnly_routeKey (host : Bytes) : upOnly (routeKey host) = none := by
  simp [upOnly, (statusKey_ne_routeKey (lit "eu") host).symm]

def euRow : VPNProfile where
  id := lit "1"
  name := lit "eu"

def euOnly : Profiles := ⟨[euRow], by simp, by simp⟩

theorem euOnly_up : ∀ p ∈ euOnly.rows,
    (getStatus documents upOnly 0 0 true p.name).1.state = .up := by
  intro p hp
  rw [List.mem_singleton.mp hp]
  decide

/-- The given targets, each with `eu` at tier 0. -/
def throughEu (ts : Targets) : Queries where
  listProfiles := some euOnly
  listTargets := some ts
  listTiers id := some [⟨id, lit "1", 0⟩]

theorem compileAll_throughEu (ts : Targets) : ∃ c, compileAll (throughEu ts) = some c :=
  (compileAll_isSome_iff _).mpr ⟨_, _, rfl, rfl, fun _ _ _ => ⟨_, rfl⟩⟩

theorem resolvable_throughEu {ts : Targets} {a : Bytes} :
    Resolvable (throughEu ts) a ↔ ∃ tgt ∈ ts.rows, tgt.enabled = true ∧ tgt.publicAlias = a := by
  constructor
  · rintro ⟨_, _, -, hts, tgt, htgt, halias, _, _, hen, -⟩
    cases hts
    exact ⟨tgt, htgt, hen, halias⟩
  · rintro ⟨tgt, htgt, hen, halias⟩
    refine ⟨_, _, rfl, rfl, tgt, htgt, halias, euRow, 0, ?_⟩
    exact ⟨hen, List.mem_singleton.mpr rfl, rfl, by decide, _, rfl, rfl, rfl⟩

theorem withPort_inj {h : Bytes} {m n : Nat} (heq : withPort h m = withPort h n) : m = n := by
  have hdigits := List.append_cancel_left heq
  rw [← Strconv.decimal_itoa m, hdigits, Strconv.decimal_itoa]

theorem withPort_bytes {h : Bytes} (hk : Kept h) {port : Nat} {b : UInt8}
    (hb : b ∈ withPort h port) : keptRune b.toNat = true ∨ b = 58 := by
  rw [withPort, List.append_assoc, List.mem_append, List.mem_append] at hb
  rcases hb with hb | hb | hb
  · exact .inl (hk b hb)
  · exact .inr (List.mem_singleton.mp hb)
  · have hd := Strconv.digits_of_mem_itoa hb
    simp only [Strconv.isDigit, Bool.and_eq_true, decide_eq_true_eq, UInt8.le_iff_toNat_le,
      UInt8.reduceToNat] at hd
    refine .inl ?_
    simp [keptRune, hd]

theorem colon_mem_withPort (h : Bytes) (port : Nat) : (58 : UInt8) ∈ withPort h port := by
  rw [withPort, List.append_assoc]
  exact List.mem_append_right _ (List.mem_append_left _ (by decide))

theorem withPort_name {h h' : Bytes} (hk : Kept h) {m n : Nat}
    (heq : withPort h m = withPort h' n) : h' = h := by
  have hname : (58 : UInt8) ∉ h := fun hm => absurd (hk 58 hm) (by decide)
  have hport : (58 : UInt8) ∉ Strconv.itoa m := fun hm =>
    absurd (Strconv.digits_of_mem_itoa hm) (by decide)
  rw [withPort, withPort, List.append_assoc, List.append_assoc] at heq
  exact ((List.append_cons_inj_of_notMem hname hport).mp heq).1.symm

theorem withPort_plain {h : Bytes} (hk : Kept h) (port : Nat) :
    Plain (withPort h port) ∧ (42 : UInt8) ∉ withPort h port ∧ (63 : UInt8) ∉ withPort h port := by
  refine ⟨fun b hb => ?_, fun hm => ?_, fun hm => ?_⟩
  · rcases withPort_bytes hk hb with hkept | rfl
    · exact Kept.plain (fun x hx => List.mem_singleton.mp hx ▸ hkept) b (List.mem_singleton.mpr rfl)
    · decide
  · exact absurd (withPort_bytes hk hm) (by decide)
  · exact absurd (withPort_bytes hk hm) (by decide)

/-- `crm` once alone and once with every port. -/
def crmEveryPort : Targets where
  rows := (lit "crm" :: (List.range' 1 65535).map (withPort (lit "crm"))).map fun publicAlias =>
    { id := publicAlias, publicAlias, privateIP := lit "10.0.0.5" }
  aliases_nodup := by
    rw [List.map_map, Function.comp_def, List.map_id', List.nodup_cons]
    refine ⟨fun hm => ?_, List.Nodup.map (fun _ _ => withPort_inj) List.nodup_range'⟩
    obtain ⟨port, -, heq⟩ := List.mem_map.mp hm
    exact absurd (heq ▸ colon_mem_withPort (lit "crm") port) (by decide)

theorem resolvable_crmEveryPort {a : Bytes} : Resolvable (throughEu crmEveryPort) a ↔
    a = lit "crm" ∨ ∃ port, 1 ≤ port ∧ port ≤ 65535 ∧ a = withPort (lit "crm") port := by
  rw [resolvable_throughEu, crmEveryPort]
  simp only [List.mem_map, List.mem_cons, List.mem_range'_1]
  constructor
  · rintro ⟨tgt, ⟨b, hb, rfl⟩, -, rfl⟩
    rcases hb with rfl | ⟨port, hport, rfl⟩
    · exact .inl rfl
    · exact .inr ⟨port, hport.1, by omega, rfl⟩
  · rintro (rfl | ⟨port, hlow, hhigh, rfl⟩)
    · exact ⟨_, ⟨_, .inl rfl, rfl⟩, rfl, rfl⟩
    · exact ⟨_, ⟨_, .inr ⟨port, ⟨hlow, by omega⟩, rfl⟩, rfl⟩, rfl, rfl⟩

theorem aligned_crmEveryPort {a : Bytes} (ha : Resolvable (throughEu crmEveryPort) a) :
    Aligned (fun _ => true) (throughEu crmEveryPort) a := by
  have hcrm : Kept (lit "crm") := by decide
  have hplain : Plain a ∧ (42 : UInt8) ∉ a ∧ (63 : UInt8) ∉ a := by
    rcases resolvable_crmEveryPort.mp ha with rfl | ⟨port, -, -, rfl⟩
    · exact ⟨Kept.plain hcrm, by decide, by decide⟩
    · exact withPort_plain hcrm port
  refine ⟨fun hstar => absurd hstar ?_, fun h hh hcov => ?_, fun hname port hlow hhigh => ?_,
    fun h port hh hlow hhigh heq => ?_⟩
  · rw [literal_quote_plain _ hplain.1, units_ascii hplain.1.ascii]
    exact fun hm => hplain.2.1 (mem_of_toNat_mem hm)
  · rwa [eq_of_covers hplain.1 hplain.2.1 hplain.2.2 hh.2 hcov]
  · rcases resolvable_crmEveryPort.mp ha with rfl | ⟨_, -, -, rfl⟩
    · exact resolvable_crmEveryPort.mpr (.inr ⟨port, hlow, hhigh, rfl⟩)
    · exact absurd (hname.2 58 (colon_mem_withPort _ _)) (by decide)
  · rcases resolvable_crmEveryPort.mp ha with rfl | ⟨port', -, -, rfl⟩
    · exact absurd (heq ▸ colon_mem_withPort h port) (by decide)
    · rw [withPort_name hcrm heq]
      exact resolvable_crmEveryPort.mpr (.inl rfl)

theorem pac_helper_agree_every_port : ∃ c, compileAll (throughEu crmEveryPort) = some c ∧
    Covered (fun _ => true) (throughEu crmEveryPort) (lit "crm") ∧
    ∀ rules ∈ [compiledRules [] c.aliases, generatedRules stableSort (Api.pacEntries crmEveryPort.rows)],
      ∀ h, HostName h → ∀ host, HostHeader h host →
        let seeded :=
          c.routes.foldl (fun s route => Expiring.put s (routeWrite documents 0 route)) upOnly
        (((Decider.ofRedis documents 0 (seeded, 0, true) (seeded, 0, true)).decide host).1 = true ↔
          SentToProxy (fun _ => true) (throughEu crmEveryPort) rules h) := by
  obtain ⟨c, hc⟩ := compileAll_throughEu crmEveryPort
  refine ⟨c, hc, ⟨_, resolvable_crmEveryPort.mpr (.inl rfl), covers_self _ (by decide)⟩, ?_⟩
  exact (pac_helper_agree_iff documents _ stableSort (Engine.mk [] []) rfl rfl hc
    upOnly_routeKey euOnly_up rfl).mpr fun _ => aligned_crmEveryPort

def crmTarget : Targets :=
  ⟨[{ id := lit "t1", publicAlias := lit "crm", privateIP := lit "10.0.0.5" }], by simp⟩

/-- The PAC sends `crm` to the proxy, and the helper refuses the request `crm:443`
that follows. -/
theorem pac_helper_disagree_port : ∃ c, compileAll (throughEu crmTarget) = some c ∧
    ∃ h, HostName h ∧ ∃ host, HostHeader h host ∧
      SentToProxy (fun _ => true) (throughEu crmTarget) (compiledRules [] c.aliases) h ∧
      ∀ seeded : Redis Document, seeded =
        c.routes.foldl (fun s route => Expiring.put s (routeWrite documents 0 route)) upOnly →
        ((Decider.ofRedis documents 0 (seeded, 0, true) (seeded, 0, true)).decide host).1 = false := by
  obtain ⟨c, hc⟩ := compileAll_throughEu crmTarget
  have hcrm : Resolvable (throughEu crmTarget) (lit "crm") :=
    resolvable_throughEu.mpr ⟨_, List.mem_singleton.mpr rfl, rfl, rfl⟩
  have honly : ∀ a, Resolvable (throughEu crmTarget) a → a = lit "crm" := by
    intro a ha
    obtain ⟨tgt, htgt, -, rfl⟩ := resolvable_throughEu.mp ha
    rw [List.mem_singleton.mp htgt]
  have hkept : HostName (lit "crm") := ⟨by decide, by decide⟩
  have hheader : HostHeader (lit "crm") (withPort (lit "crm") 443) :=
    .inr ⟨443, by decide, by decide, rfl⟩
  refine ⟨c, hc, lit "crm", hkept, _, hheader, ?_, ?_⟩
  · exact (sentToProxy_compiled rfl hc [] _).mpr ⟨_, hcrm, covers_self _ hkept.2⟩
  · intro seeded hseeded
    have hiff := decide_seeded_iff rfl hc upOnly_routeKey euOnly_up (hheader.ne_nil hkept) hseeded
    rw [← Bool.not_eq_true, hiff]
    intro hres
    exact absurd (honly _ hres) (by decide)

end HelixProxy.Pac
