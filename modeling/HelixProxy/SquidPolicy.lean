import HelixProxy.SquidDynamicConf

/-!
# The policy of the assembled configuration

First-match evaluation of the access lists of `squid.dynamic.conf` around the
rendered include. The tunnels only add `cache_peer` and `cache_peer_access`
lines, so for any number of them the lists are the same few rules.
-/

namespace HelixProxy.Routing

open Squid FirstMatch Store
set_option autoImplicit false
set_option maxRecDepth 4096

/-- No inserted value ends its line or continues it on the next one. -/
structure Unbroken (helperPath : Bytes) (tunnels : List Tunnel) : Prop where
  lineSafe : LineSafe helperPath tunnels
  helper_last : helperPath.getLast? ≠ some 92
  name_last : ∀ t ∈ tunnels, t.name.getLast? ≠ some 92

theorem getLast?_append_ne {s t : Bytes} {b : UInt8} (hs : s.getLast? ≠ some b)
    (ht : t.getLast? ≠ some b) : (s ++ t).getLast? ≠ some b := by
  rw [List.getLast?_append]
  cases h : t.getLast? with
  | none => simpa using hs
  | some c => simpa [h] using ht

theorem includeDirectives_not_continued {helperPath : Bytes} {tunnels : List Tunnel}
    (h : Unbroken helperPath tunnels) :
    ∀ l ∈ includeDirectives helperPath tunnels, l.getLast? ≠ some 92 := by
  have hext : (externalAclLine (helperOrDefault helperPath)).getLast? ≠ some 92 := by
    refine getLast?_append_ne (by decide) ?_
    unfold helperOrDefault
    split
    · decide
    · exact h.helper_last
  have htail : ∀ l ∈ failClosedDirectives, l.getLast? ≠ some 92 := by decide
  intro l hl
  simp only [includeDirectives, List.mem_append, List.mem_flatMap, List.mem_cons,
    List.not_mem_nil, or_false] at hl
  rcases hl with ((rfl | rfl) | ⟨t, ht, hl⟩) | hl
  · exact hext
  · decide
  · simp only [tunnelDirectives, List.mem_cons, List.not_mem_nil, or_false] at hl
    rcases hl with rfl | rfl | rfl
    · refine getLast?_append_ne ?_ (h.name_last t ht)
      rw [List.getLast?_append_of_ne_nil _ (by decide)]
      decide
    · rw [allowLine, List.getLast?_append_of_ne_nil _ (by decide)]
      decide
    · rw [denyLine, List.getLast?_append_of_ne_nil _ (by decide)]
      decide
  · exact htail l hl

def includeConf (helperPath : Bytes) (tunnels : List Tunnel) : List (List Bytes) :=
  (includeDirectives helperPath tunnels).map words

theorem parse_render {helperPath : Bytes} {tunnels : List Tunnel}
    (h : Unbroken helperPath tunnels) :
    parse (renderSquidInclude helperPath tunnels) = includeConf helperPath tunnels := by
  rw [renderSquidInclude, parse_terminated (no_nl_of_lineSafe h.lineSafe) ?_,
    filter_isDirective_includeLines, includeConf]
  rw [filter_isDirective_includeLines]
  exact includeDirectives_not_continued h

theorem assembled_terminated (ls : List Bytes) :
    assembled (Lines.terminated nl ls) = Lines.terminated nl (baseHead ++ ls ++ [] :: baseTail) := by
  simp [assembled, Lines.terminated_append]

theorem directives_assembled {helperPath : Bytes} {tunnels : List Tunnel}
    (h : LineSafe helperPath tunnels) :
    directives (assembled (renderSquidInclude helperPath tunnels)) =
      baseHead.filter isDirective ++ includeDirectives helperPath tunnels ++
        baseTail.filter isDirective := by
  have hblank : isDirective [] = false := rfl
  rw [renderSquidInclude, assembled_terminated, directives_terminated]
  · simp [List.filter_append, filter_isDirective_includeLines, hblank]
  · intro l hl
    simp only [List.mem_append, List.mem_cons] at hl
    rcases hl with (hl | hl) | rfl | hl
    · exact baseHead_no_nl l hl
    · exact no_nl_of_lineSafe h l hl
    · simp
    · exact baseTail_no_nl l hl

theorem parse_assembled {helperPath : Bytes} {tunnels : List Tunnel}
    (h : Unbroken helperPath tunnels) :
    parse (assembled (renderSquidInclude helperPath tunnels)) =
      headConf ++ includeConf helperPath tunnels ++ tailConf := by
  rw [parse, directives_assembled h.lineSafe, joinContinued_eq]
  · rw [List.map_append, List.map_append, words_baseHead, words_baseTail, includeConf]
  · intro l hl
    rcases List.mem_append.mp hl with hl | hl
    · rcases List.mem_append.mp hl with hl | hl
      · exact base_not_continued l (List.mem_append_left _ hl)
      · exact includeDirectives_not_continued h l hl
    · exact base_not_continued l (List.mem_append_right _ hl)

theorem parse_withoutInclude : parse withoutInclude = headConf ++ tailConf := by
  rw [withoutInclude, parse_terminated]
  · rw [List.filter_append, List.map_append, words_baseHead, words_baseTail]
  · intro l hl
    rcases List.mem_append.mp hl with hl | hl
    · exact baseHead_no_nl l hl
    · exact baseTail_no_nl l hl
  · rw [List.filter_append]
    exact base_not_continued

section Contributions

variable (helperPath : Bytes) (tunnels : List Tunnel)

theorem words_externalAclLine : ∃ rest, words (externalAclLine helperPath) =
    lit "external_acl_type" :: lit "vpn_route" :: rest := by
  have hsplit : lit "external_acl_type vpn_route ttl=0 negative_ttl=0 %>ha\x7bHost\x7d " =
      lit "external_acl_type" ++ space :: (lit "vpn_route" ++
        space :: lit "ttl=0 negative_ttl=0 %>ha\x7bHost\x7d ") := by decide
  rw [externalAclLine, hsplit, List.append_assoc, List.cons_append,
    words_cons (by decide) (by decide), List.append_assoc, List.cons_append,
    words_cons (by decide) (by decide)]
  exact ⟨_, rfl⟩

theorem head_tunnelDirectives (t : Tunnel) : ∀ line ∈ (tunnelDirectives t).map words,
    line.head? = some (lit "cache_peer") ∨ line.head? = some (lit "cache_peer_access") := by
  have hp : lit "cache_peer " = lit "cache_peer" ++ [space] := by decide
  have ha : lit "cache_peer_access " = lit "cache_peer_access" ++ [space] := by decide
  intro line hline
  simp only [tunnelDirectives, List.map_cons, List.map_nil, List.mem_cons, List.not_mem_nil,
    or_false] at hline
  rcases hline with rfl | rfl | rfl
  · left
    simp only [cachePeerLine, hp, List.append_assoc, List.cons_append, List.nil_append]
    rw [words_cons (by decide) (by decide), List.head?_cons]
  · right
    simp only [allowLine, ha, List.append_assoc, List.cons_append, List.nil_append]
    rw [words_cons (by decide) (by decide), List.head?_cons]
  · right
    simp only [denyLine, ha, List.append_assoc, List.cons_append, List.nil_append]
    rw [words_cons (by decide) (by decide), List.head?_cons]

theorem head_tunnels : ∀ line ∈ (tunnels.flatMap tunnelDirectives).map words,
    line.head? = some (lit "cache_peer") ∨ line.head? = some (lit "cache_peer_access") := by
  intro line hline
  rw [List.map_flatMap] at hline
  obtain ⟨t, -, hline⟩ := List.mem_flatMap.mp hline
  exact head_tunnelDirectives t line hline

theorem head_tunnels_ne {keyword : Bytes} (h1 : lit "cache_peer" ≠ keyword)
    (h2 : lit "cache_peer_access" ≠ keyword) :
    ∀ line ∈ (tunnels.flatMap tunnelDirectives).map words, line.head? ≠ some keyword := by
  intro line hline heq
  rcases head_tunnels tunnels line hline with h | h
  · exact h1 (Option.some.inj (h.symm.trans heq))
  · exact h2 (Option.some.inj (h.symm.trans heq))

def failClosedConf : List (List Bytes) :=
  [[lit "never_direct", lit "allow", lit "all"],
   [lit "http_access", lit "deny", lit "!tun_up"],
   [lit "http_access", lit "allow", lit "localnet"],
   [lit "deny_info", lit "503:ERR_TUNNEL_DOWN", lit "tun_up"]]

theorem includeConf_eq : includeConf helperPath tunnels =
    [words (externalAclLine (helperOrDefault helperPath)),
      [lit "acl", lit "tun_up", lit "external", lit "vpn_route"]] ++
      (tunnels.flatMap tunnelDirectives).map words ++ failClosedConf := by
  have hacl : words aclLine = [lit "acl", lit "tun_up", lit "external", lit "vpn_route"] := by
    decide
  have htail : failClosedDirectives.map words = failClosedConf := by decide
  simp only [includeConf, includeDirectives, List.map_append, List.map_cons, List.map_nil, hacl,
    htail]

/-- For any number of tunnels the include contributes the same rules. -/
theorem rules_includeConf {keyword : Bytes} (h1 : lit "cache_peer" ≠ keyword)
    (h2 : lit "cache_peer_access" ≠ keyword) (h3 : lit "external_acl_type" ≠ keyword)
    (h4 : lit "acl" ≠ keyword) :
    rules keyword (includeConf helperPath tunnels) = rules keyword failClosedConf := by
  obtain ⟨rest, hext⟩ := words_externalAclLine (helperOrDefault helperPath)
  have hfirst : rules keyword [words (externalAclLine (helperOrDefault helperPath)),
      [lit "acl", lit "tun_up", lit "external", lit "vpn_route"]] = [] := by
    apply rules_eq_nil
    intro line hline
    simp only [hext, List.mem_cons, List.not_mem_nil, or_false] at hline
    rcases hline with rfl | rfl
    · simpa using h3
    · simpa using h4
  rw [includeConf_eq, rules_append, rules_append, hfirst,
    rules_eq_nil (head_tunnels_ne tunnels h1 h2), List.append_nil, List.nil_append]

theorem aclValues_includeConf (name : Bytes) : aclValues (includeConf helperPath tunnels) name =
    if lit "tun_up" = name then [(lit "external", lit "vpn_route")] else [] := by
  obtain ⟨rest, hext⟩ := words_externalAclLine (helperOrDefault helperPath)
  have hfirst : aclValues [lit "external_acl_type" :: lit "vpn_route" :: rest,
      [lit "acl", lit "tun_up", lit "external", lit "vpn_route"]] name =
      if lit "tun_up" = name then [(lit "external", lit "vpn_route")] else [] := by
    cases rest <;> simp [aclValues]
  have htail : aclValues failClosedConf name = [] := aclValues_eq_nil name (by decide)
  rw [includeConf_eq, aclValues_append, aclValues_append, htail, hext, hfirst,
    aclValues_eq_nil name (head_tunnels_ne tunnels (by decide) (by decide)), List.append_nil,
    List.append_nil]

theorem externalDeclared_assembled (as bs : List (List Bytes)) :
    externalDeclared (as ++ includeConf helperPath tunnels ++ bs) (lit "vpn_route") = true := by
  obtain ⟨rest, hext⟩ := words_externalAclLine (helperOrDefault helperPath)
  simp [externalDeclared, includeConf_eq, hext]

theorem aclMatches_tunUp {conf : List (List Bytes)} (r : Request)
    (hv : aclValues conf (lit "tun_up") = [(lit "external", lit "vpn_route")])
    (hd : externalDeclared conf (lit "vpn_route") = true) :
    aclMatches conf r (lit "tun_up") = r.helperOK := by
  rw [Bool.eq_iff_iff, aclMatches_of_values r (by decide) hv]
  simp [valueMatches, hd]

end Contributions

end HelixProxy.Routing
