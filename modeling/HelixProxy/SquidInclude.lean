import HelixProxy.RoutingFacts
import HelixProxy.Squid

/-!
# The rendered Squid include

`RenderSquidInclude` as the text the template writes. Values are inserted
verbatim, so a value with a newline in it ends its line; `includeLines` lists
the template's own lines, and the two views agree when no value has one.
-/

namespace HelixProxy.Routing

open Squid Store
set_option autoImplicit false
set_option maxRecDepth 4096

def squidHeader : List Bytes :=
  [lit "# =============================================================================",
   lit "# Helix Proxy — Squid dynamic-routing include   (GENERATED — DO NOT EDIT BY HAND)",
   lit "# =============================================================================",
   lit "# Generated by : control-plane config-compiler (spec §4 component 2). ADDITIVE",
   lit "#   include (§11.4.122): pulled into config/squid/squid.dynamic.conf BEFORE its",
   lit "#   terminal `http_access deny all`. It supplies `http_access deny !tun_up` and",
   lit "#   then the GATED `http_access allow localnet` — the base carries NO unconditional",
   lit "#   `allow localnet`, so a missing include fails closed (§11.4.108).",
   lit "#   Re-rendered ONLY on a STRUCTURAL change (tunnel added/removed) + applied via",
   lit "#   Squid `reconfigure` — NEVER on a tunnel going up/down (that is the helper",
   lit "#   + Redis, zero reconfigure). Squid 6.13 form `%>ha\x7bHost\x7d` (`%>\x7bHost\x7d` deprecated).",
   lit "# -----------------------------------------------------------------------------"]

def failClosedComment : List Bytes :=
  [[],
   lit "# --- fail-closed: never egress directly; serve a branded 503 when down -------",
   lit "# ORDERING IS LOAD-BEARING (§11.4.108): `deny !tun_up` (tunnel down → branded",
   lit "# 503) is evaluated BEFORE the gated `allow localnet` (tunnel up → permitted).",
   lit "# The base squid.dynamic.conf carries NO unconditional `allow localnet`, so this",
   lit "# is the ONLY client-allow — a missing include falls through to `deny all`."]

def externalAclLine (helperPath : Bytes) : Bytes :=
  lit "external_acl_type vpn_route ttl=0 negative_ttl=0 %>ha\x7bHost\x7d " ++ helperPath

def aclLine : Bytes := lit "acl tun_up external vpn_route"

def peerComment (t : Tunnel) : Bytes :=
  lit "# " ++ t.name ++ lit ": egress via gluetun " ++ t.peerHost ++ lit ":" ++
    Strconv.itoa t.peerPort ++ lit " when its tunnel is up"

def cachePeerLine (t : Tunnel) : Bytes :=
  lit "cache_peer " ++ t.peerHost ++ lit " parent " ++ Strconv.itoa t.peerPort ++
    lit " 0 no-query name=" ++ t.name

def allowLine (t : Tunnel) : Bytes := lit "cache_peer_access " ++ t.name ++ lit " allow tun_up"

def denyLine (t : Tunnel) : Bytes := lit "cache_peer_access " ++ t.name ++ lit " deny all"

def neverDirectLine : Bytes := lit "never_direct allow all"
def gateLine : Bytes := lit "http_access deny !tun_up"
def clientAllowLine : Bytes := lit "http_access allow localnet"
def denyInfoLine : Bytes := lit "deny_info 503:ERR_TUNNEL_DOWN tun_up"

def tunnelDirectives (t : Tunnel) : List Bytes := [cachePeerLine t, allowLine t, denyLine t]

def failClosedDirectives : List Bytes :=
  [neverDirectLine, gateLine, clientAllowLine, denyInfoLine]

/-- `RenderSquidInclude` substitutes its own path for an empty one. -/
def helperOrDefault (helperPath : Bytes) : Bytes :=
  if helperPath = [] then lit "/usr/lib/helix-proxy/acl-helper" else helperPath

def includeLines (helperPath : Bytes) (tunnels : List Tunnel) : List Bytes :=
  squidHeader ++ [externalAclLine (helperOrDefault helperPath), aclLine] ++
    tunnels.flatMap (fun t => [] :: peerComment t :: tunnelDirectives t) ++
    failClosedComment ++ failClosedDirectives

def renderSquidInclude (helperPath : Bytes) (tunnels : List Tunnel) : Bytes :=
  Lines.terminated nl (includeLines helperPath tunnels)

/-- The directive lines the template is meant to produce. -/
def includeDirectives (helperPath : Bytes) (tunnels : List Tunnel) : List Bytes :=
  [externalAclLine (helperOrDefault helperPath), aclLine] ++ tunnels.flatMap tunnelDirectives ++
    failClosedDirectives

def Word (w : Bytes) : Prop := w ≠ [] ∧ ∀ b ∈ w, white b = false

theorem Word.no_nl {w : Bytes} (h : Word w) : nl ∉ w :=
  fun hm => absurd (h.2 nl hm) (by decide)

theorem word_append {v w : Bytes} (hv : Word v) (hw : ∀ b ∈ w, white b = false) :
    Word (v ++ w) := by
  refine ⟨by simp [hv.1], fun b hb => ?_⟩
  rcases List.mem_append.mp hb with hb | hb
  · exact hv.2 b hb
  · exact hw b hb

theorem Kept.not_white {s : Bytes} (h : Kept s) : ∀ b ∈ s, white b = false := by
  intro b hb
  have hk := h b hb
  simp only [keptRune, Bool.or_eq_true, Bool.and_eq_true, decide_eq_true_eq, beq_iff_eq] at hk
  simp only [white, Bool.or_eq_false_iff, Bool.and_eq_false_iff, beq_eq_false_iff_ne,
    decide_eq_false_iff_not, ← UInt8.toNat_inj, UInt8.le_iff_toNat_le, ne_eq, UInt8.reduceToNat]
  omega

theorem itoa_word (n : Int) : Word (Strconv.itoa n) := by
  have hdigits : ∀ b ∈ (Nat.toDigits 10 n.natAbs).map Strconv.digit, white b = false := by
    intro b hb
    obtain ⟨c, hc, rfl⟩ := List.mem_map.mp hb
    have hd := (Strconv.digit_of_isDigit (Nat.isDigit_of_mem_toDigits (by decide) (by decide) hc)).2
    simp only [Strconv.isDigit, Bool.and_eq_true, decide_eq_true_eq, UInt8.le_iff_toNat_le,
      UInt8.reduceToNat] at hd
    simp only [white, Bool.or_eq_false_iff, Bool.and_eq_false_iff, beq_eq_false_iff_ne,
      decide_eq_false_iff_not, ← UInt8.toNat_inj, UInt8.le_iff_toNat_le, ne_eq, UInt8.reduceToNat]
    omega
  unfold Strconv.itoa
  split
  · exact word_append ⟨by decide, by decide⟩ hdigits
  · exact ⟨by simp, by simpa using hdigits⟩

theorem tunnelOf_name_word (p : VPNProfile) : Word (tunnelOf p).name :=
  word_append ⟨by decide, by decide⟩ (sanitizeToken_kept p.name).not_white

section Lines

theorem isDirective_lit {s : Bytes} (hs : isDirective s = true) (rest : Bytes) :
    isDirective (s ++ rest) = true := by
  rw [isDirective_append rest, hs]
  intro h
  simp [isDirective, h] at hs

theorem filter_isDirective_tunnel (t : Tunnel) :
    ([] :: peerComment t :: tunnelDirectives t).filter isDirective = tunnelDirectives t := by
  have hc : isDirective (peerComment t) = false := by
    simp only [peerComment, List.append_assoc]
    rw [isDirective_append _ (by decide)]
    decide
  have h1 : isDirective (cachePeerLine t) = true := by
    simp only [cachePeerLine, List.append_assoc]
    exact isDirective_lit (by decide) _
  have h2 : isDirective (allowLine t) = true := by
    rw [allowLine, List.append_assoc]
    exact isDirective_lit (by decide) _
  have h3 : isDirective (denyLine t) = true := by
    rw [denyLine, List.append_assoc]
    exact isDirective_lit (by decide) _
  have h0 : isDirective [] = false := rfl
  simp [tunnelDirectives, h0, hc, h1, h2, h3]

theorem filter_isDirective_includeLines (helperPath : Bytes) (tunnels : List Tunnel) :
    (includeLines helperPath tunnels).filter isDirective =
      includeDirectives helperPath tunnels := by
  have hhead : squidHeader.filter isDirective = [] := by decide
  have hcomment : failClosedComment.filter isDirective = [] := by decide
  have htail : failClosedDirectives.filter isDirective = failClosedDirectives := by decide
  have hext : isDirective (externalAclLine (helperOrDefault helperPath)) = true :=
    isDirective_lit (by decide) _
  have hacl : isDirective aclLine = true := by decide
  have htun : (tunnels.flatMap fun t => [] :: peerComment t :: tunnelDirectives t).filter
      isDirective = tunnels.flatMap tunnelDirectives := by
    rw [List.filter_flatMap]
    exact List.flatMap_congr fun t _ => filter_isDirective_tunnel t
  simp only [includeLines, includeDirectives, List.filter_append, hhead, hcomment, htail, htun,
    List.filter_cons, hext, hacl, List.filter_nil, if_true, List.nil_append, List.append_nil]

/-- The values inserted into the template have no newline. -/
def LineSafe (helperPath : Bytes) (tunnels : List Tunnel) : Prop :=
  nl ∉ helperPath ∧ ∀ t ∈ tunnels, nl ∉ t.name ∧ nl ∉ t.peerHost

theorem no_nl_of_externalAclLine {helperPath : Bytes} (h : nl ∉ helperPath) :
    nl ∉ externalAclLine (helperOrDefault helperPath) := by
  have hpath : nl ∉ helperOrDefault helperPath := by
    unfold helperOrDefault
    split
    · decide
    · exact h
  simp only [externalAclLine, List.mem_append, not_or, hpath, not_false_eq_true, and_true]
  decide

theorem no_nl_of_tunnelLines {t : Tunnel} (hname : nl ∉ t.name) (hhost : nl ∉ t.peerHost) :
    ∀ l ∈ [] :: peerComment t :: tunnelDirectives t, nl ∉ l := by
  have hport := (itoa_word t.peerPort).no_nl
  simp only [tunnelDirectives, List.mem_cons, List.not_mem_nil, or_false, forall_eq_or_imp,
    forall_eq, not_false_eq_true, true_and]
  -- what is left are the fixed texts between the inserted values
  simp only [peerComment, cachePeerLine, allowLine, denyLine, List.mem_append, not_or, hname, hhost,
    hport, not_false_eq_true, and_true]
  decide

theorem no_nl_of_lineSafe {helperPath : Bytes} {tunnels : List Tunnel}
    (h : LineSafe helperPath tunnels) : ∀ l ∈ includeLines helperPath tunnels, nl ∉ l := by
  have hhead : ∀ l ∈ squidHeader, nl ∉ l := by
    simp (disch := exact rfl) only [squidHeader, lit_eq]
    decide
  have hcomment : ∀ l ∈ failClosedComment, nl ∉ l := by
    simp (disch := exact rfl) only [failClosedComment, lit_eq]
    decide
  have htail : ∀ l ∈ failClosedDirectives, nl ∉ l := by decide
  intro l hl
  simp only [includeLines, List.mem_append, List.mem_flatMap, List.mem_cons, List.not_mem_nil,
    or_false] at hl
  rcases hl with (((hl | rfl | rfl) | ⟨t, ht, hl⟩) | hl) | hl
  · exact hhead l hl
  · exact no_nl_of_externalAclLine h.1
  · decide
  · exact no_nl_of_tunnelLines (h.2 t ht).1 (h.2 t ht).2 l (by simpa using hl)
  · exact hcomment l hl
  · exact htail l hl

theorem directives_render {helperPath : Bytes} {tunnels : List Tunnel}
    (h : LineSafe helperPath tunnels) :
    directives (renderSquidInclude helperPath tunnels) = includeDirectives helperPath tunnels := by
  rw [renderSquidInclude, directives_terminated (no_nl_of_lineSafe h),
    filter_isDirective_includeLines]

end Lines

end HelixProxy.Routing
