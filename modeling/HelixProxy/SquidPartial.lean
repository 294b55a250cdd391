import HelixProxy.SquidFailClosed
import Mathlib.Data.List.Infix

/-!
# A half-written include

`os.WriteFile` truncates the include and then fills it, so a Squid that starts or
reconfigures meanwhile reads a beginning of it. The gate stands before the only
client allow and the ACL of the gate before the gate, so no beginning of the
include opens the proxy.

A rule line without ACLs is read here as one that applies to every request; Squid
skips it.
-/

namespace HelixProxy.Routing

open Squid FirstMatch
set_option autoImplicit false
set_option maxRecDepth 4096

def confOf (lines : List Bytes) : List (List Bytes) := (lines.filter isDirective).map words

theorem confOf_append (as bs : List Bytes) : confOf (as ++ bs) = confOf as ++ confOf bs := by
  simp [confOf]

theorem mem_confOf {lines : List Bytes} {conf : List Bytes} (h : conf ∈ confOf lines) :
    ∃ l ∈ lines, isDirective l = true ∧ words l = conf := by
  obtain ⟨l, hl, rfl⟩ := List.mem_map.mp h
  exact ⟨l, (List.mem_filter.mp hl).1, (List.mem_filter.mp hl).2, rfl⟩

/-- The lines of the include up to the gate. -/
def gatedLines (helperPath : Bytes) (tunnels : List Tunnel) : List Bytes :=
  squidHeader ++ [externalAclLine (helperOrDefault helperPath), aclLine] ++
    tunnels.flatMap (fun t => [] :: peerComment t :: tunnelDirectives t) ++
    failClosedComment ++ [neverDirectLine, gateLine]

theorem includeLines_eq (helperPath : Bytes) (tunnels : List Tunnel) :
    includeLines helperPath tunnels =
      gatedLines helperPath tunnels ++ [clientAllowLine, denyInfoLine] := by
  simp [includeLines, gatedLines, failClosedDirectives]

/-- The first word of the line is the keyword. -/
def Opens (keyword line : Bytes) : Prop := Word keyword ∧ ∃ rest, line = keyword ++ space :: rest

theorem Opens.append {keyword line : Bytes} (h : Opens keyword line) (more : Bytes) :
    Opens keyword (line ++ more) := by
  obtain ⟨hw, rest, rfl⟩ := h
  exact ⟨hw, rest ++ more, by simp⟩

theorem Opens.head_cut {keyword line cut v : Bytes} (h : Opens keyword line) (hcut : cut <+: line)
    (hv : (words cut).head? = some v) : v <+: keyword := by
  obtain ⟨⟨hne, hw⟩, rest, rfl⟩ := h
  exact Tokens.head_tokens_cut white hne hw (by decide) hcut hv

/-- However the line is cut, its `http_access` rules only deny. -/
def Denies (line : Bytes) : Prop :=
  ∀ cut, cut <+: line → ∀ rule ∈ rules (lit "http_access") (confOf [cut]), rule.action = .deny

theorem Opens.denies {keyword line : Bytes} (h : Opens keyword line)
    (hne : ¬ lit "http_access" <+: keyword) : Denies line := by
  intro cut hcut rule hrule
  have hnone : rules (lit "http_access") (confOf [cut]) = [] := by
    apply rules_eq_nil
    intro conf hconf hhead
    obtain ⟨l, hl, -, rfl⟩ := mem_confOf hconf
    obtain rfl := List.mem_singleton.mp hl
    exact hne (h.head_cut hcut hhead)
  rw [hnone] at hrule
  cases hrule

theorem denies_of_comment {line : Bytes} (h : line = [] ∨ line.head? = some 35) : Denies line := by
  intro cut hcut rule hrule
  have hsilent : isDirective cut = false := by
    cases cut with
    | nil => rfl
    | cons b bs =>
      obtain ⟨rest, rfl⟩ := hcut
      rcases h with h | h
      · cases h
      · obtain rfl := Option.some.inj h
        rfl
  rw [confOf, List.filter_singleton, hsilent] at hrule
  cases hrule

theorem denies_gateLine : Denies gateLine := by
  intro cut hcut
  have hall : ∀ cut ∈ gateLine.inits, ∀ rule ∈ rules (lit "http_access") (confOf [cut]),
      rule.action = .deny := by decide
  exact hall cut ((List.mem_inits _ _).mpr hcut)

theorem kept_itoa (n : Int) : Kept (Strconv.itoa n) := by
  intro b hb
  rcases List.mem_append.mp hb with hb | hb
  · split at hb
    · obtain rfl := List.mem_singleton.mp hb
      decide
    · cases hb
  · obtain ⟨c, hc, rfl⟩ := List.mem_map.mp hb
    have hd := (Strconv.digit_of_isDigit (Nat.isDigit_of_mem_toDigits (by decide) (by decide) hc)).2
    simp only [Strconv.isDigit, Bool.and_eq_true, decide_eq_true_eq, UInt8.le_iff_toNat_le,
      UInt8.reduceToNat] at hd
    simp [keptRune, hd]

/-- Neither an inserted value nor the template has a backslash. -/
theorem no_backslash {helperPath : Bytes} {tunnels : List Tunnel}
    (hh : ∀ b ∈ helperPath, white b = false ∧ b ≠ 92)
    (ht : ∀ t ∈ tunnels, Kept t.name ∧ Kept t.peerHost) :
    ∀ l ∈ includeLines helperPath tunnels, (92 : UInt8) ∉ l := by
  have hkept : ∀ {s : Bytes}, Kept s → (92 : UInt8) ∉ s :=
    fun hs hm => absurd (hs 92 hm) (by decide)
  have hhead : ∀ l ∈ squidHeader, (92 : UInt8) ∉ l := by
    simp (disch := exact rfl) only [squidHeader, lit_eq]
    decide
  have hcomment : ∀ l ∈ failClosedComment, (92 : UInt8) ∉ l := by
    simp (disch := exact rfl) only [failClosedComment, lit_eq]
    decide
  have htail : ∀ l ∈ failClosedDirectives, (92 : UInt8) ∉ l := by decide
  have hpath : (92 : UInt8) ∉ helperOrDefault helperPath := by
    unfold helperOrDefault
    split
    · decide
    · exact fun hm => (hh 92 hm).2 rfl
  intro l hl
  simp only [includeLines, List.mem_append, List.mem_flatMap, List.mem_cons, List.not_mem_nil,
    or_false] at hl
  rcases hl with (((hl | rfl | rfl) | ⟨t, htm, hl⟩) | hl) | hl
  · exact hhead l hl
  · simp only [externalAclLine, List.mem_append, not_or, hpath, not_false_eq_true, and_true]
    decide
  · decide
  · have hname := hkept (ht t htm).1
    have hhost := hkept (ht t htm).2
    have hport := hkept (kept_itoa t.peerPort)
    simp only [tunnelDirectives, List.mem_cons, List.not_mem_nil, or_false] at hl
    rcases hl with rfl | rfl | rfl | rfl | rfl
    · simp
    all_goals
      simp only [peerComment, cachePeerLine, allowLine, denyLine, List.mem_append, not_or, hname,
        hhost, hport, not_false_eq_true, and_true]
      decide
  · exact hcomment l hl
  · exact htail l hl

section Cut

variable {helperPath : Bytes} {tunnels : List Tunnel} {done : List Bytes} {cut : Bytes}

theorem opens_tunnelDirectives (t : Tunnel) : ∀ l ∈ tunnelDirectives t,
    Opens (lit "cache_peer") l ∨ Opens (lit "cache_peer_access") l := by
  have hp : Opens (lit "cache_peer") (lit "cache_peer ") := ⟨⟨by decide, by decide⟩, [], by decide⟩
  have ha : Opens (lit "cache_peer_access") (lit "cache_peer_access ") :=
    ⟨⟨by decide, by decide⟩, [], by decide⟩
  intro l hl
  simp only [tunnelDirectives, List.mem_cons, List.not_mem_nil, or_false] at hl
  rcases hl with rfl | rfl | rfl
  · exact .inl ((((hp.append _).append _).append _).append _ |>.append _)
  · exact .inr ((ha.append _).append _)
  · exact .inr ((ha.append _).append _)

theorem denies_gatedLines (helperPath : Bytes) (tunnels : List Tunnel) :
    ∀ l ∈ gatedLines helperPath tunnels, Denies l := by
  have hhead : ∀ l ∈ squidHeader, l = [] ∨ l.head? = some 35 := by decide
  have hcomment : ∀ l ∈ failClosedComment, l = [] ∨ l.head? = some 35 := by decide
  intro l hl
  simp only [gatedLines, List.mem_append, List.mem_flatMap, List.mem_cons, List.not_mem_nil,
    or_false] at hl
  rcases hl with (((hl | rfl | rfl) | ⟨t, -, rfl | rfl | hl⟩) | hl) | rfl | rfl
  · exact denies_of_comment (hhead l hl)
  · have hopens : Opens (lit "external_acl_type")
        (lit "external_acl_type vpn_route ttl=0 negative_ttl=0 %>ha\x7bHost\x7d ") :=
      ⟨⟨by decide, by decide⟩, lit "vpn_route ttl=0 negative_ttl=0 %>ha\x7bHost\x7d ", by decide⟩
    exact (hopens.append _).denies (by decide)
  · have hopens : Opens (lit "acl") aclLine :=
      ⟨⟨by decide, by decide⟩, lit "tun_up external vpn_route", by decide⟩
    exact hopens.denies (by decide)
  · exact denies_of_comment (.inl rfl)
  · exact denies_of_comment (.inr rfl)
  · rcases opens_tunnelDirectives t l hl with hopens | hopens
    · exact hopens.denies (by decide)
    · exact hopens.denies (by decide)
  · exact denies_of_comment (hcomment l hl)
  · have hopens : Opens (lit "never_direct") neverDirectLine :=
      ⟨⟨by decide, by decide⟩, lit "allow all", by decide⟩
    exact hopens.denies (by decide)
  · exact denies_gateLine

/-- What Squid reads of an include cut after some lines and inside the next. -/
theorem parse_assembled_cut (hnl : ∀ l ∈ done ++ [cut], nl ∉ l)
    (hlast : ∀ l ∈ done ++ [cut], (92 : UInt8) ∉ l) :
    parse (assembled (Lines.terminated nl done ++ cut)) =
      headConf ++ confOf (done ++ [cut]) ++ tailConf := by
  have htext : assembled (Lines.terminated nl done ++ cut) =
      Lines.terminated nl (baseHead ++ (done ++ [cut]) ++ baseTail) := by
    simp [assembled, Lines.terminated_append]
  rw [htext, parse_terminated]
  · rw [List.filter_append, List.filter_append, List.map_append, List.map_append, words_baseHead,
      words_baseTail, confOf]
  · intro l hl
    rcases List.mem_append.mp hl with hl | hl
    · rcases List.mem_append.mp hl with hl | hl
      · exact baseHead_no_nl l hl
      · exact hnl l hl
    · exact baseTail_no_nl l hl
  · intro l hl
    rw [List.filter_append, List.filter_append] at hl
    rcases List.mem_append.mp hl with hl | hl
    · rcases List.mem_append.mp hl with hl | hl
      · exact base_not_continued l (List.mem_append_left _ hl)
      · exact fun h => hlast l (List.mem_filter.mp hl).1 (List.mem_of_getLast? h)
    · exact base_not_continued l (List.mem_append_right _ hl)

theorem rules_confOf_denies {lines : List Bytes} (h : ∀ l ∈ lines, Denies l) :
    ∀ rule ∈ rules (lit "http_access") (confOf lines), rule.action = .deny := by
  induction lines with
  | nil => simp [confOf, rules]
  | cons l rest ih =>
    intro rule hrule
    rw [← List.singleton_append, confOf_append, rules_append] at hrule
    rcases List.mem_append.mp hrule with hrule | hrule
    · exact h l List.mem_cons_self l List.prefix_rfl rule hrule
    · exact ih (fun x hx => h x (List.mem_cons_of_mem l hx)) rule hrule

/-- Before the gate is complete nothing is allowed. -/
theorem decision_of_denials {conf : List (List Bytes)} {r : Request} {denials : List Rule}
    (h : ∀ rule ∈ denials, rule.action = .deny) :
    decision conf r .deny (denials ++ tailRules) = .deny := by
  have hall : termMatches conf r (lit "all") = true := by
    rw [termMatches_plain conf r (by decide), aclMatches_all]
  apply evaluate_of_uniform
  · intro rule hrule
    rcases List.mem_append.mp hrule with hrule | hrule
    · exact h rule hrule
    · obtain rfl := List.mem_singleton.mp hrule
      rfl
  · exact ⟨⟨.deny, [lit "all"]⟩, List.mem_append_right _ List.mem_cons_self,
      by simp [Rule.holds, hall]⟩

theorem denied_before_gate {r : Request} (hl : r.localhost = false) {lines : List Bytes}
    (h : ∀ rule ∈ rules (lit "http_access") (confOf lines), rule.action = .deny) :
    decision (headConf ++ confOf lines ++ tailConf) r .deny
      (rules (lit "http_access") (headConf ++ confOf lines ++ tailConf)) ≠ .allow := by
  have hrules : rules (lit "http_access") (headConf ++ confOf lines ++ tailConf) =
      headRules ++ (rules (lit "http_access") (confOf lines) ++ tailRules) := by
    rw [rules_append, rules_append, rules_headConf, rules_tailConf, List.append_assoc]
  rw [hrules, ne_eq, decision_headRules hl (by simp [tailRules]), decision_of_denials h]
  simp

/-- Behind the gate a request is allowed only if the helper answered OK for it. -/
theorem tunUp_of_allowed {conf : List (List Bytes)} {r : Request} {rest : List Rule}
    (h : decision conf r .deny (⟨.deny, [33 :: lit "tun_up"]⟩ :: rest) = .allow) :
    aclMatches conf r (lit "tun_up") = true := by
  cases htun : aclMatches conf r (lit "tun_up") with
  | true => rfl
  | false =>
    have hholds : Rule.holds conf r ⟨.deny, [33 :: lit "tun_up"]⟩ = true := by
      simp [Rule.holds, termMatches, htun]
    rw [decision, evaluate_cons_of_match _ _ _ _ hholds] at h
    cases h

theorem withoutInclude_denies {r : Request} (hl : r.localhost = false) :
    httpAccess withoutInclude r ≠ .allow := by
  have h : decision (headConf ++ confOf [] ++ tailConf) r .deny
      (rules (lit "http_access") (headConf ++ confOf [] ++ tailConf)) ≠ .allow :=
    denied_before_gate hl (by simp [confOf, rules])
  rw [httpAccess, parse_withoutInclude]
  simpa [confOf] using h

/-- The lines behind the gate. -/
def lateLines : List Bytes := [clientAllowLine, denyInfoLine]

theorem confOf_includeLines (helperPath : Bytes) (tunnels : List Tunnel) :
    confOf (includeLines helperPath tunnels) = includeConf helperPath tunnels := by
  rw [confOf, filter_isDirective_includeLines, includeConf]

theorem includeConf_split (helperPath : Bytes) (tunnels : List Tunnel) :
    includeConf helperPath tunnels = confOf (gatedLines helperPath tunnels) ++ confOf lateLines := by
  rw [← confOf_includeLines, includeLines_eq, confOf_append, lateLines]

/-- However a line behind the gate is cut, it is neither an ACL nor about peers. -/
theorem head_late {lines : List Bytes} (h : ∀ l ∈ lines, ∃ late ∈ lateLines, l <+: late)
    {keyword : Bytes} (hclient : ¬ keyword <+: lit "http_access")
    (hinfo : ¬ keyword <+: lit "deny_info") : ∀ conf ∈ confOf lines, conf.head? ≠ some keyword := by
  have hopens : Opens (lit "http_access") clientAllowLine ∧ Opens (lit "deny_info") denyInfoLine :=
    ⟨⟨⟨by decide, by decide⟩, lit "allow localnet", by decide⟩,
      ⟨⟨by decide, by decide⟩, lit "503:ERR_TUNNEL_DOWN tun_up", by decide⟩⟩
  intro conf hconf hhead
  obtain ⟨l, hl, -, rfl⟩ := mem_confOf hconf
  obtain ⟨late, hlate, hcut⟩ := h l hl
  simp only [lateLines, List.mem_cons, List.not_mem_nil, or_false] at hlate
  rcases hlate with rfl | rfl
  · exact hclient (hopens.1.head_cut hcut hhead)
  · exact hinfo (hopens.2.head_cut hcut hhead)

theorem late_prefixes : ∀ l ∈ lateLines, ∃ late ∈ lateLines, l <+: late :=
  fun l hl => ⟨l, hl, List.prefix_rfl⟩

section Gated

theorem aclValues_gated (helperPath : Bytes) (tunnels : List Tunnel) (name : Bytes) :
    aclValues (confOf (gatedLines helperPath tunnels)) name =
      aclValues (includeConf helperPath tunnels) name := by
  rw [includeConf_split, aclValues_append,
    aclValues_eq_nil name (head_late late_prefixes (by decide) (by decide)), List.append_nil]

theorem rules_gated (helperPath : Bytes) (tunnels : List Tunnel) :
    rules (lit "http_access") (confOf (gatedLines helperPath tunnels)) =
      [⟨.deny, [33 :: lit "tun_up"]⟩] := by
  have hlate : rules (lit "http_access") (confOf lateLines) = [⟨.allow, [lit "localnet"]⟩] := by
    decide
  have hall : rules (lit "http_access") (includeConf helperPath tunnels) =
      rules (lit "http_access") failClosedConf :=
    rules_includeConf helperPath tunnels (by decide) (by decide) (by decide) (by decide)
  rw [includeConf_split, rules_append, hlate, rules_gate] at hall
  exact List.append_cancel_right hall

theorem neverDirect_gated (helperPath : Bytes) (tunnels : List Tunnel) :
    rules (lit "never_direct") (confOf (gatedLines helperPath tunnels)) =
      [⟨.allow, [lit "all"]⟩] := by
  have hlate : rules (lit "never_direct") (confOf lateLines) = [] := by decide
  have hconf : rules (lit "never_direct") failClosedConf = [⟨.allow, [lit "all"]⟩] := by decide
  have hall : rules (lit "never_direct") (includeConf helperPath tunnels) =
      rules (lit "never_direct") failClosedConf :=
    rules_includeConf helperPath tunnels (by decide) (by decide) (by decide) (by decide)
  rw [includeConf_split, rules_append, hlate, List.append_nil, hconf] at hall
  exact hall

theorem externalDeclared_gated (helperPath : Bytes) (tunnels : List Tunnel)
    (as bs : List (List Bytes)) :
    externalDeclared (as ++ (confOf (gatedLines helperPath tunnels) ++ bs)) (lit "vpn_route") =
      true := by
  obtain ⟨rest, hext⟩ := words_externalAclLine (helperOrDefault helperPath)
  have hdir : isDirective (externalAclLine (helperOrDefault helperPath)) = true :=
    isDirective_lit (by decide) _
  have hmem : words (externalAclLine (helperOrDefault helperPath)) ∈
      confOf (gatedLines helperPath tunnels) := by
    refine List.mem_map_of_mem (List.mem_filter.mpr ⟨?_, hdir⟩)
    simp [gatedLines]
  rw [externalDeclared, List.any_eq_true]
  exact ⟨_, List.mem_append_right as (List.mem_append_left bs hmem), by simp [hext]⟩

variable {r : Request} {late : List (List Bytes)}

/-- A complete gate with lines behind it that declare no ACL. -/
theorem allowed_behind_gate (hl : r.localhost = false)
    (hacl : ∀ line ∈ late, line.head? ≠ some (lit "acl"))
    (h : decision (headConf ++ (confOf (gatedLines helperPath tunnels) ++ late) ++ tailConf) r .deny
      (rules (lit "http_access")
        (headConf ++ (confOf (gatedLines helperPath tunnels) ++ late) ++ tailConf)) = .allow) :
    SafePort r.port ∧ ¬ ConnectOutsideSSL r ∧ r.manager = false ∧ r.helperOK = true := by
  have hvalues : ∀ name, aclValues
      (headConf ++ (confOf (gatedLines helperPath tunnels) ++ late) ++ tailConf) name =
        aclValues (headConf ++ includeConf helperPath tunnels ++ tailConf) name := by
    intro name
    simp only [aclValues_append, aclValues_gated, aclValues_eq_nil name hacl, List.append_nil]
  have hkept : ∀ {name : Bytes}, lit "tun_up" ≠ name → aclValues
      (headConf ++ (confOf (gatedLines helperPath tunnels) ++ late) ++ tailConf) name =
        aclValues headConf name :=
    fun hname => (hvalues _).trans (aclValues_assembled helperPath tunnels hname)
  have hsafe := aclMatches_safePorts r (hkept (by decide))
  have hssl := aclMatches_sslPorts r (hkept (by decide))
  have hconnect := aclMatches_connect r (hkept (by decide))
  have htun := aclMatches_tunUp r ((hvalues _).trans (aclValues_assembled_tunUp helperPath tunnels))
    (by rw [List.append_assoc, List.append_assoc]; exact externalDeclared_gated _ _ _ _)
  have hrules : rules (lit "http_access")
      (headConf ++ (confOf (gatedLines helperPath tunnels) ++ late) ++ tailConf) =
        headRules ++ (⟨.deny, [33 :: lit "tun_up"]⟩ ::
          (rules (lit "http_access") late ++ rules (lit "http_access") tailConf)) := by
    simp [rules_append, rules_headConf, rules_gated]
  rw [hrules, decision_headRules hl (by simp)] at h
  obtain ⟨hport, hmethod, hmanager, hrest⟩ := h
  refine ⟨hsafe.mp hport, ?_, hmanager, htun ▸ tunUp_of_allowed hrest⟩
  rw [hconnect, hssl] at hmethod
  exact hmethod

end Gated

/-- A cut of the include falls before the gate is complete or behind it. -/
theorem cut_cases {text : Bytes} (h : text <+: renderSquidInclude helperPath tunnels) :
    ∃ done cut, text = Lines.terminated nl done ++ cut ∧
      ((∀ l ∈ done ++ [cut], ∃ line ∈ gatedLines helperPath tunnels, l <+: line) ∨
        ∃ more, done ++ [cut] = gatedLines helperPath tunnels ++ more ∧
          ∀ l ∈ more, ∃ late ∈ lateLines, l <+: late) := by
  obtain ⟨done, cut, rfl, hcut⟩ := Lines.terminated_cut nl h
  refine ⟨done, cut, rfl, ?_⟩
  rw [includeLines_eq] at hcut
  rcases hcut with ⟨rfl, rfl⟩ | ⟨l, rest, hlines, hcut⟩
  · refine .inr ⟨lateLines ++ [[]], by rw [lateLines, List.append_assoc], fun l hl => ?_⟩
    rcases List.mem_append.mp hl with hl | hl
    · exact ⟨l, hl, List.prefix_rfl⟩
    · exact ⟨clientAllowLine, List.mem_cons_self, List.mem_singleton.mp hl ▸ List.nil_prefix⟩
  · rcases List.append_eq_append_iff.mp hlines with ⟨more, rfl, hlate⟩ | ⟨before, hgated, hrest⟩
    · refine .inr ⟨more ++ [cut], by simp, fun x hx => ?_⟩
      have hsub : ∀ y ∈ more ++ [l], y ∈ lateLines := by
        intro y hy
        rw [lateLines, hlate]
        simp only [List.mem_append, List.mem_cons, List.not_mem_nil, or_false] at hy ⊢
        tauto
      rcases List.mem_append.mp hx with hx | hx
      · exact ⟨x, hsub x (List.mem_append_left _ hx), List.prefix_rfl⟩
      · exact ⟨l, hsub l (by simp), List.mem_singleton.mp hx ▸ hcut⟩
    · cases before with
      | nil =>
        obtain ⟨rfl, rfl⟩ := List.cons.inj hrest
        rw [List.append_nil] at hgated
        refine .inr ⟨[cut], by rw [hgated], fun x hx => ?_⟩
        exact ⟨clientAllowLine, List.mem_cons_self, List.mem_singleton.mp hx ▸ hcut⟩
      | cons b before =>
        obtain ⟨rfl, -⟩ := List.cons.inj hrest
        rw [hgated]
        refine .inl fun x hx => ?_
        rcases List.mem_append.mp hx with hx | hx
        · exact ⟨x, List.mem_append_left _ hx, List.prefix_rfl⟩
        · exact ⟨l, List.mem_append_right _ List.mem_cons_self, List.mem_singleton.mp hx ▸ hcut⟩

theorem not_mem_of_cut {b : UInt8} {lines whole : List Bytes} (hwhole : ∀ l ∈ whole, b ∉ l)
    (h : ∀ l ∈ lines, ∃ line ∈ whole, l <+: line) : ∀ l ∈ lines, b ∉ l := by
  intro l hl hb
  obtain ⟨line, hline, hcut⟩ := h l hl
  exact hwhole line hline (hcut.subset hb)

theorem Denies.shorter {line part : Bytes} (h : Denies line) (hpart : part <+: line) :
    Denies part :=
  fun _ hx => h _ (hx.trans hpart)

end Cut

/-- Whatever beginning of the include is on disk, a request from another host that is
allowed has the helper's OK and passed the denials of the base file, and is bound to a
parent proxy. -/
theorem partial_closed {helperPath : Bytes} {tunnels : List Tunnel}
    (hh : ∀ b ∈ helperPath, white b = false ∧ b ≠ 92)
    (ht : ∀ t ∈ tunnels, Kept t.name ∧ Kept t.peerHost) {text : Bytes}
    (htext : text <+: renderSquidInclude helperPath tunnels) {r : Request}
    (hl : r.localhost = false) (hallow : httpAccess (assembled text) r = .allow) :
    (SafePort r.port ∧ ¬ ConnectOutsideSSL r ∧ r.manager = false ∧ r.helperOK = true) ∧
      neverDirect (assembled text) r = .allow := by
  obtain ⟨done, cut, rfl, hcases⟩ := cut_cases htext
  have hwhole : ∀ l ∈ done ++ [cut], ∃ line ∈ includeLines helperPath tunnels, l <+: line := by
    rw [includeLines_eq]
    rcases hcases with hbefore | ⟨more, hlines, hmore⟩
    · exact fun l hl =>
        (hbefore l hl).imp fun line hline => ⟨List.mem_append_left _ hline.1, hline.2⟩
    · rw [hlines]
      intro l hl
      rcases List.mem_append.mp hl with hl | hl
      · exact ⟨l, List.mem_append_left _ hl, List.prefix_rfl⟩
      · exact (hmore l hl).imp fun line hline => ⟨List.mem_append_right _ hline.1, hline.2⟩
  have hparse := parse_assembled_cut
    (not_mem_of_cut (no_nl_of_lineSafe (unbroken_of_kept hh ht).lineSafe) hwhole)
    (not_mem_of_cut (no_backslash hh ht) hwhole)
  rw [httpAccess, hparse] at hallow
  rw [neverDirect, hparse]
  rcases hcases with hbefore | ⟨more, hlines, hmore⟩
  · have hdenies := rules_confOf_denies fun l hl =>
      (hbefore l hl).elim fun line hline => (denies_gatedLines _ _ line hline.1).shorter hline.2
    exact absurd hallow (denied_before_gate hl hdenies)
  · rw [hlines, confOf_append] at hallow ⊢
    have hother : ∀ {keyword : Bytes}, ¬ keyword <+: lit "http_access" →
        ¬ keyword <+: lit "deny_info" → ∀ conf ∈ confOf more, conf.head? ≠ some keyword :=
      fun h h' => head_late hmore h h'
    refine ⟨allowed_behind_gate hl (hother (by decide) (by decide)) hallow, ?_⟩
    have hhead : rules (lit "never_direct") headConf = [] := by decide
    rw [rules_append, rules_append, rules_append, hhead, neverDirect_gated,
      rules_eq_nil (hother (by decide) (by decide)), List.nil_append, List.append_nil,
      List.singleton_append, decision_all]

end HelixProxy.Routing
