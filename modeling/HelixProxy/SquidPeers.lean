import HelixProxy.AclHelper
import HelixProxy.SquidPolicy

/-!
# Which peers may carry a request

Every peer of the include is allowed by the one ACL `tun_up`, which says that
the helper answered OK and not for which tunnel. The helper's tag plays no part
in the choice, and is not the name of a peer.
-/

namespace HelixProxy.Routing

open Squid FirstMatch Store
set_option autoImplicit false
set_option maxRecDepth 4096

/-- The peer that Squid reads out of the `cache_peer` line of a tunnel. White space in
the host moves its words to other places of the line. -/
def renderedPeer (t : Tunnel) : Option Peer := readPeer (words (cachePeerLine t))

section Words

variable {t : Tunnel}

theorem words_cachePeerLine (hn : Word t.name) :
    words (cachePeerLine t) = lit "cache_peer" :: ((words t.peerHost ++ [lit "parent",
      Strconv.itoa t.peerPort, lit "0", lit "no-query"]) ++ [lit "name=" ++ t.name]) := by
  have h1 : lit "cache_peer " = lit "cache_peer" ++ [space] := by decide
  have h2 : lit " parent " = space :: (lit "parent" ++ [space]) := by decide
  have h3 : lit " 0 no-query name=" =
      space :: (lit "0" ++ space :: (lit "no-query" ++ space :: lit "name=")) := by decide
  have hp := itoa_word t.peerPort
  have hname : Word (lit "name=" ++ t.name) := word_append ⟨by decide, by decide⟩ hn.2
  simp only [cachePeerLine, h1, h2, h3, List.append_assoc, List.cons_append, List.nil_append]
  rw [words_cons (by decide) (by decide), words_append, words_cons (by decide) (by decide),
    words_cons hp.1 hp.2, words_cons (by decide) (by decide), words_cons (by decide) (by decide)]
  rw [words, words, Tokens.tokens_eq_singleton white hname.1 hname.2]

theorem words_allowLine (hn : Word t.name) :
    words (allowLine t) = [lit "cache_peer_access", t.name, lit "allow", lit "tun_up"] := by
  have h1 : lit "cache_peer_access " = lit "cache_peer_access" ++ [space] := by decide
  have h2 : lit " allow tun_up" = space :: lit "allow tun_up" := by decide
  have h3 : words (lit "allow tun_up") = [lit "allow", lit "tun_up"] := by decide
  simp only [allowLine, h1, h2, List.append_assoc, List.cons_append, List.nil_append]
  rw [words_cons (by decide) (by decide), words_cons hn.1 hn.2, h3]

theorem words_denyLine (hn : Word t.name) :
    words (denyLine t) = [lit "cache_peer_access", t.name, lit "deny", lit "all"] := by
  have h1 : lit "cache_peer_access " = lit "cache_peer_access" ++ [space] := by decide
  have h2 : lit " deny all" = space :: lit "deny all" := by decide
  have h3 : words (lit "deny all") = [lit "deny", lit "all"] := by decide
  simp only [denyLine, h1, h2, List.append_assoc, List.cons_append, List.nil_append]
  rw [words_cons (by decide) (by decide), words_cons hn.1 hn.2, h3]

end Words

theorem readPeer_eq_none {line : List Bytes} (h : line.head? ≠ some (lit "cache_peer")) :
    readPeer line = none := by
  unfold readPeer
  split
  · next kw _ _ _ _ _ =>
    have hne : kw ≠ lit "cache_peer" := fun he => h (he ▸ rfl)
    simp [hne]
  · rfl

/-- The name that ends a long enough line is that of its peer. -/
theorem readPeer_named {line : List Bytes} (h : 4 ≤ line.length) (name : Bytes) :
    ∃ host port, readPeer (lit "cache_peer" :: (line ++ [lit "name=" ++ name])) =
      some ⟨name, host, port⟩ := by
  rcases line with _ | ⟨a, _ | ⟨b, _ | ⟨c, _ | ⟨d, options⟩⟩⟩⟩
  iterate 4 exact absurd h (by simp)
  refine ⟨a, c, ?_⟩
  simp only [List.cons_append, readPeer, if_true, peerName_append]

theorem renderedPeer_eq_some {t : Tunnel} (hn : Word t.name) :
    ∃ host port, renderedPeer t = some ⟨t.name, host, port⟩ := by
  rw [renderedPeer, words_cachePeerLine hn]
  exact readPeer_named (by simp) t.name

/-- Each tunnel gives one peer. -/
theorem length_renderedPeers {tunnels : List Tunnel} (h : ∀ t ∈ tunnels, Word t.name) :
    (tunnels.filterMap renderedPeer).length = tunnels.length := by
  induction tunnels with
  | nil => rfl
  | cons t ts ih =>
    obtain ⟨host, port, hpeer⟩ := renderedPeer_eq_some (h t List.mem_cons_self)
    rw [List.filterMap_cons_some hpeer, List.length_cons, List.length_cons,
      ih fun x hx => h x (List.mem_cons_of_mem t hx)]

theorem readPeer_tunnel {t : Tunnel} (hn : Word t.name) :
    ((tunnelDirectives t).map words).filterMap readPeer = [t].filterMap renderedPeer := by
  have hallow : readPeer (words (allowLine t)) = none :=
    readPeer_eq_none (by rw [words_allowLine hn, List.head?_cons]; decide)
  have hdeny : readPeer (words (denyLine t)) = none :=
    readPeer_eq_none (by rw [words_denyLine hn, List.head?_cons]; decide)
  obtain ⟨host, port, hpeer⟩ := renderedPeer_eq_some hn
  rw [List.filterMap_cons_some hpeer]
  rw [renderedPeer] at hpeer
  simp [tunnelDirectives, hpeer, hallow, hdeny]

theorem readPeer_includeConf (helperPath : Bytes) {tunnels : List Tunnel}
    (h : ∀ t ∈ tunnels, Word t.name) :
    (includeConf helperPath tunnels).filterMap readPeer = tunnels.filterMap renderedPeer := by
  obtain ⟨rest, hext⟩ := words_externalAclLine (helperOrDefault helperPath)
  have h1 : readPeer (words (externalAclLine (helperOrDefault helperPath))) = none :=
    readPeer_eq_none (by rw [hext, List.head?_cons]; decide)
  have h2 : readPeer [lit "acl", lit "tun_up", lit "external", lit "vpn_route"] = none := by decide
  have h3 : failClosedConf.filterMap readPeer = [] := by decide
  have h4 : ((tunnels.flatMap tunnelDirectives).map words).filterMap readPeer =
      tunnels.filterMap renderedPeer := by
    clear h1 h2 h3 hext
    induction tunnels with
    | nil => rfl
    | cons t ts ih =>
      rw [List.flatMap_cons, List.map_append, List.filterMap_append,
        readPeer_tunnel (h t List.mem_cons_self), ih fun x hx => h x (List.mem_cons_of_mem t hx),
        ← List.filterMap_append, List.singleton_append]
  rw [includeConf_eq, List.filterMap_append, List.filterMap_append, h3, h4]
  simp [h1, h2]

theorem peerRules_tunnel {t : Tunnel} (hn : Word t.name) (name : Bytes) :
    peerRules ((tunnelDirectives t).map words) name =
      if t.name = name then [⟨.allow, [lit "tun_up"]⟩, ⟨.deny, [lit "all"]⟩] else [] := by
  have hpeer : peerRules [words (cachePeerLine t)] name = [] := by
    apply peerRules_eq_nil
    intro line hline
    rw [List.mem_singleton.mp hline, words_cachePeerLine hn, List.head?_cons]
    decide
  have hsplit : (tunnelDirectives t).map words =
      [words (cachePeerLine t)] ++ [words (allowLine t), words (denyLine t)] := rfl
  rw [hsplit, peerRules_append, hpeer, List.nil_append]
  by_cases hname : t.name = name
  · simp [peerRules, words_allowLine hn, words_denyLine hn, readRule, hname]
  · simp [peerRules, words_allowLine hn, words_denyLine hn, hname]

/-- The access list of a rendered peer starts by allowing `tun_up`, also when
another profile's sanitised name is the same. -/
theorem peerRules_tunnels {tunnels : List Tunnel} (h : ∀ t ∈ tunnels, Word t.name) {t : Tunnel}
    (ht : t ∈ tunnels) :
    ∃ rest, peerRules ((tunnels.flatMap tunnelDirectives).map words) t.name =
      ⟨.allow, [lit "tun_up"]⟩ :: rest := by
  induction tunnels with
  | nil => simp at ht
  | cons u us ih =>
    rw [List.flatMap_cons, List.map_append, peerRules_append,
      peerRules_tunnel (h u List.mem_cons_self)]
    by_cases hname : u.name = t.name
    · rw [if_pos hname]
      exact ⟨_, rfl⟩
    · rw [if_neg hname, List.nil_append]
      rcases List.mem_cons.mp ht with rfl | ht
      · exact absurd rfl hname
      · exact ih (fun x hx => h x (List.mem_cons_of_mem u hx)) ht

theorem peerRules_includeConf (helperPath : Bytes) {tunnels : List Tunnel}
    (h : ∀ t ∈ tunnels, Word t.name) {t : Tunnel} (ht : t ∈ tunnels) :
    ∃ rest, peerRules (includeConf helperPath tunnels) t.name =
      ⟨.allow, [lit "tun_up"]⟩ :: rest := by
  obtain ⟨words', hext⟩ := words_externalAclLine (helperOrDefault helperPath)
  have hfirst : peerRules [words (externalAclLine (helperOrDefault helperPath)),
      [lit "acl", lit "tun_up", lit "external", lit "vpn_route"]] t.name = [] := by
    apply peerRules_eq_nil
    intro line hline
    simp only [hext, List.mem_cons, List.not_mem_nil, or_false] at hline
    rcases hline with rfl | rfl <;> rw [List.head?_cons] <;> decide
  obtain ⟨rest, hrest⟩ := peerRules_tunnels h ht
  rw [includeConf_eq, peerRules_append, peerRules_append, hfirst, hrest]
  exact ⟨_, rfl⟩

/-- Once the helper answers OK, whatever its tag, every rendered peer may carry
the request. -/
theorem eligiblePeers_render {helperPath : Bytes} {tunnels : List Tunnel}
    (hu : Unbroken helperPath tunnels) (hn : ∀ t ∈ tunnels, Word t.name) {r : Request}
    (hr : r.helperOK = true) :
    eligiblePeers (renderSquidInclude helperPath tunnels) r = tunnels.filterMap renderedPeer := by
  have htun : aclMatches (includeConf helperPath tunnels) r (lit "tun_up") = true := by
    have hd := externalDeclared_assembled helperPath tunnels [] []
    rw [List.nil_append, List.append_nil] at hd
    rw [aclMatches_tunUp r (by rw [aclValues_includeConf, if_pos rfl]) hd, hr]
  rw [eligiblePeers, parse_render hu, readPeer_includeConf helperPath hn, List.filter_eq_self]
  intro p hp
  obtain ⟨t, ht, hpeer⟩ := List.mem_filterMap.mp hp
  obtain ⟨host, port, hread⟩ := renderedPeer_eq_some (hn t ht)
  obtain rfl := Option.some.inj (hread.symm.trans hpeer)
  obtain ⟨rest, hrest⟩ := peerRules_includeConf helperPath hn ht
  have hholds : Rule.holds (includeConf helperPath tunnels) r ⟨.allow, [lit "tun_up"]⟩ = true := by
    simp [Rule.holds, termMatches_plain _ r (by decide : (lit "tun_up").head? ≠ some 33), htun]
  rw [hrest, decision, evaluate_cons_of_match _ _ _ _ hholds]
  rfl

/-- For every store with these profiles: when the helper answers OK for a host
with the tunnel the compiler routed it to, the one peer that may carry the
request is the one rendered for that profile. -/
def Isolated (helperPath : Bytes) (ps : Profiles) : Prop :=
  ∀ (q : Queries) (c : Compiled) (route : Bus.Route) (d : AclHelper.Decider) (r : Request),
    q.listProfiles = some ps → compileAll q = some c → route ∈ c.routes →
    d.decide route.target = (true, route.tunnel) → r.helperOK = true →
    ∃ p ∈ ps.rows, p.enabled = true ∧ p.name = route.tunnel ∧
      ∃ peer, renderedPeer (tunnelOf p) = some peer ∧
        eligiblePeers (renderSquidInclude helperPath c.tunnels) r = [peer]

def deciderOf (route : Bus.Route) : AclHelper.Decider where
  getRoute _ := .ok route
  getStatus _ := ({ state := .up }, false)

theorem decide_deciderOf {route : Bus.Route} (ht : route.target ≠ []) (hn : route.tunnel ≠ []) :
    (deciderOf route).decide route.target = (true, route.tunnel) :=
  (AclHelper.decide_eq_ok_iff _ _ _).mpr ⟨ht, hn, _, rfl, rfl, _, rfl, rfl⟩

section Isolation

variable {helperPath : Bytes} {ps : Profiles}

theorem resolveTunnels_name_word {profiles : List VPNProfile} :
    ∀ t ∈ resolveTunnels profiles, Word t.name := by
  intro t ht
  obtain ⟨p, -, -, rfl⟩ := mem_resolveTunnels.mp ht
  exact tunnelOf_name_word p

/-- Where isolation holds, a profile that a target can be on is the only enabled one. -/
theorem Isolated.alone (h : Isolated helperPath ps)
    (hu : Unbroken helperPath (resolveTunnels ps.rows)) {p : VPNProfile} (hp : p ∈ ps.rows)
    (hen : p.enabled = true) (hne : p.name ≠ []) : ps.rows.filter VPNProfile.enabled = [p] := by
  -- a store with one target on `p`, and a bus for which the helper answers OK
  obtain ⟨c, hc, htunnels, hroute⟩ := compileAll_oneTarget hp hen hne (lit "crm")
  have hhost : lit "crm" ≠ [] := by decide
  have hok := @decide_deciderOf ⟨lit "crm", p.name, 0, closed⟩ hhost hne
  obtain ⟨p', -, -, -, peer, -, hpeers⟩ :=
    h _ c _ _ ⟨443, [], false, false, fun _ => true, true⟩ rfl hc hroute hok rfl
  rw [htunnels, eligiblePeers_render hu resolveTunnels_name_word rfl] at hpeers
  have hcount := congrArg List.length hpeers
  rw [length_renderedPeers resolveTunnels_name_word, (resolveTunnels_perm ps.rows).length_eq,
    List.length_map, List.length_singleton] at hcount
  obtain ⟨x, hx⟩ := List.length_eq_one_iff.mp hcount
  have hmem : p ∈ ps.rows.filter VPNProfile.enabled := List.mem_filter.mpr ⟨hp, hen⟩
  rw [hx, List.mem_singleton] at hmem
  rw [hx, hmem]

end Isolation

def euProfile : VPNProfile := { id := lit "p1", name := lit "eu" }
/-- Whenever the helper answers OK with the tunnel of a compiled route, the
include has a peer of that very name, and it is the peer of the profile whose
status the helper consulted. -/
def OneName (helperPath : Bytes) (q : Queries) : Prop :=
  ∀ (c : Compiled) (route : Bus.Route) (d : AclHelper.Decider), compileAll q = some c →
    route ∈ c.routes → d.decide route.target = (true, route.tunnel) →
    ∃ t ∈ c.tunnels, t.profile = route.tunnel ∧ ∃ peer, renderedPeer t = some peer ∧
      peer ∈ (parse (renderSquidInclude helperPath c.tunnels)).filterMap readPeer ∧
      peer.name = route.tunnel

/-- The added `tun_` always makes a difference: a name equal to its own
sanitised form with more in front would be longer than itself. -/
theorem tunnelOf_name_ne (p : VPNProfile) : (tunnelOf p).name ≠ p.name := by
  intro h
  have hname : lit "tun_" ++ sanitizeToken p.name = p.name := h
  have hkept : Kept p.name := by
    rw [← hname]
    intro b hb
    rcases List.mem_append.mp hb with hb | hb
    · exact (by decide : Kept (lit "tun_")) b hb
    · exact sanitizeToken_kept p.name b hb
  have hne : p.name ≠ [] := by
    rw [← hname]
    simp [sanitizeToken_ne_nil]
  rw [sanitizeToken_of_kept hkept hne] at hname
  have hlen := congrArg List.length hname
  rw [List.length_append] at hlen
  have hfour : (lit "tun_").length = 4 := by decide
  omega

/-- The tag is the name of the consulted profile's peer for no host at all: the
law holds of a store only if none of its targets with a host name resolves. -/
theorem one_name_iff (helperPath : Bytes) (q : Queries) :
    OneName helperPath q ↔ (Answered q → ∀ host, Resolvable q host → host = []) := by
  constructor
  · intro h hq host hres
    obtain ⟨c, hc⟩ := (compileAll_isSome_iff q).mpr hq
    obtain ⟨route, hroute, rfl⟩ := (resolvable_iff hc host).mp hres
    by_contra ht
    have hn : route.tunnel ≠ [] := by
      obtain ⟨-, -, -, -, -, -, p, -, ⟨-, -, -, hne, -⟩, rfl⟩ := (mem_routes_iff hc route).mp hroute
      exact hne
    obtain ⟨t, htun, hprofile, peer, hpeer, -, hname⟩ :=
      h c route _ hc hroute (decide_deciderOf ht hn)
    obtain ⟨ps, -, -, -, htunnels, -⟩ := compileAll_eq_some hc
    rw [htunnels] at htun
    obtain ⟨p, -, -, rfl⟩ := mem_resolveTunnels.mp htun
    obtain ⟨host, port, hread⟩ := renderedPeer_eq_some (tunnelOf_name_word p)
    obtain rfl := Option.some.inj (hread.symm.trans hpeer)
    exact tunnelOf_name_ne p (hname.trans hprofile.symm)
  · intro h c route d hc hroute hok
    have hq := (compileAll_isSome_iff q).mp ⟨c, hc⟩
    have hres := (resolvable_iff hc route.target).mpr ⟨route, hroute, rfl⟩
    exact absurd (h hq route.target hres) ((AclHelper.decide_eq_ok_iff d _ _).mp hok).1

/-- The helper answers `OK tag=eu` while the peer of profile `eu` is `tun_eu`. -/
theorem tag_differs_eu : ¬ OneName [] (singleTarget euProfile (lit "crm")) := by
  intro h
  obtain ⟨t, ht, -, peer, hpeer, -, hname⟩ := h
    ⟨[tunnelOf euProfile], [resolvedVia (soleTarget (lit "crm")) euProfile 0], [lit "crm"]⟩
    ⟨lit "crm", lit "eu", 0, closed⟩ (deciderOf ⟨lit "crm", lit "eu", 0, closed⟩)
    (by decide) (by decide) (by decide)
  obtain rfl := List.mem_singleton.mp ht
  obtain ⟨host, port, hread⟩ := renderedPeer_eq_some (tunnelOf_name_word euProfile)
  obtain rfl := Option.some.inj (hread.symm.trans hpeer)
  exact tunnelOf_name_ne euProfile hname

end HelixProxy.Routing
