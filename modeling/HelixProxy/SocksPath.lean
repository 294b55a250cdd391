import HelixProxy.Artifacts
import HelixProxy.Dante

/-!
# The SOCKS path

The shipped `config/dante/sockd.conf` with the rendered route blocks appended, as
`cmd/compiler` deploys it, and where Dante sends a CONNECT to the private address
of a resolved target.
-/

namespace HelixProxy.Dante

open Routing Store
set_option autoImplicit false
set_option maxRecDepth 4096

def sockdConf : List Bytes :=
  [lit "# Dante SOCKS Proxy Configuration",
   lit "# Tracked source config — mounted read-only into proxy-dante (no runtime generator).",
   lit "# Edit here; changes apply on a container recreate (./stop && ./start).",
   [],
   lit "# Logging",
   lit "logoutput: /var/log/sockd.log",
   [],
   lit "# Internal interface (clients connect here)",
   lit "internal: 0.0.0.0 port = 34080",
   [],
   lit "# External interface (outgoing connections)",
   lit "# Use container name instead of interface name - resolves via internal DNS",
   lit "# in bridge networks where interface names are not resolvable",
   lit "external: proxy-dante",
   [],
   lit "# Authentication methods (none for simplicity)",
   lit "socksmethod: none",
   [],
   lit "# Access Rules - allow all local and private network clients",
   lit "client pass \x7b",
   lit "    from: 0.0.0.0/0 to: 0.0.0.0/0",
   lit "\x7d",
   [],
   lit "# SSRF hardening (§11.4.169 security): a VPN-egress SOCKS5 proxy must NEVER be",
   lit "# usable to reach internal / link-local / loopback destinations. Dante evaluates",
   lit "# socks rules top-down, first match wins — so these BLOCK rules MUST precede the",
   lit "# pass. Without them dante forwards a client CONNECT to 169.254.169.254 (cloud",
   lit "# metadata) or RFC1918 (SSRF). Public destinations still pass below.",
   lit "socks block \x7b",
   lit "    from: 0.0.0.0/0 to: 127.0.0.0/8",
   lit "    log: connect",
   lit "\x7d",
   lit "socks block \x7b",
   lit "    from: 0.0.0.0/0 to: 169.254.0.0/16",
   lit "    log: connect",
   lit "\x7d",
   lit "socks block \x7b",
   lit "    from: 0.0.0.0/0 to: 10.0.0.0/8",
   lit "    log: connect",
   lit "\x7d",
   lit "socks block \x7b",
   lit "    from: 0.0.0.0/0 to: 172.16.0.0/12",
   lit "    log: connect",
   lit "\x7d",
   lit "socks block \x7b",
   lit "    from: 0.0.0.0/0 to: 192.168.0.0/16",
   lit "    log: connect",
   lit "\x7d",
   [],
   lit "# Allow outgoing CONNECT to any (public) destination. command: connect only —",
   lit "# BIND / UDP-associate are not needed for the forward-proxy use case (§11.4.169).",
   lit "socks pass \x7b",
   lit "    from: 0.0.0.0/0 to: 0.0.0.0/0",
   lit "    command: connect",
   lit "    log: connect",
   lit "\x7d"]

/-- The words of the shipped file up to each closing brace. -/
def sockdChunks : List (List Bytes) :=
  [[lit "logoutput:", lit "/var/log/sockd.log", lit "internal:", lit "0.0.0.0", lit "port",
     lit "=", lit "34080", lit "external:", lit "proxy-dante", lit "socksmethod:", lit "none",
     lit "client", lit "pass", openBrace, lit "from:", lit "0.0.0.0/0", lit "to:", lit "0.0.0.0/0"],
   [lit "socks", lit "block", openBrace, lit "from:", lit "0.0.0.0/0", lit "to:",
     lit "127.0.0.0/8", lit "log:", lit "connect"],
   [lit "socks", lit "block", openBrace, lit "from:", lit "0.0.0.0/0", lit "to:",
     lit "169.254.0.0/16", lit "log:", lit "connect"],
   [lit "socks", lit "block", openBrace, lit "from:", lit "0.0.0.0/0", lit "to:",
     lit "10.0.0.0/8", lit "log:", lit "connect"],
   [lit "socks", lit "block", openBrace, lit "from:", lit "0.0.0.0/0", lit "to:",
     lit "172.16.0.0/12", lit "log:", lit "connect"],
   [lit "socks", lit "block", openBrace, lit "from:", lit "0.0.0.0/0", lit "to:",
     lit "192.168.0.0/16", lit "log:", lit "connect"],
   [lit "socks", lit "pass", openBrace, lit "from:", lit "0.0.0.0/0", lit "to:", lit "0.0.0.0/0",
     lit "command:", lit "connect", lit "log:", lit "connect"]]

theorem sockdConf_lex : sockdConf.flatMap lexLine = Lines.terminated closeBrace sockdChunks := by
  simp (disch := exact rfl) only [sockdConf, sockdChunks, lit_eq]
  decide

theorem sockdConf_no_nl : ∀ l ∈ sockdConf, nl ∉ l := by
  simp (disch := exact rfl) only [sockdConf, lit_eq]
  decide

/-- `cmd/compiler` with `--dante-base`: the base verbatim, a newline, the routes. -/
def deployed (base routes : Bytes) : Bytes := base ++ [nl] ++ routes

def shipped : Bytes := Lines.terminated nl sockdConf

def anyNet : Net := ⟨0, 0⟩

def net (a b c d bits : Nat) : Net := ⟨BitVec.ofNat 32 (((a * 256 + b) * 256 + c) * 256 + d), bits⟩

/-- The destinations the shipped file blocks. -/
def blockedNets : List Net :=
  [net 127 0 0 0 8, net 169 254 0 0 16, net 10 0 0 0 8, net 172 16 0 0 12, net 192 168 0 0 16]

def sockdBlocks : List Block :=
  .client ⟨true, anyNet, anyNet, true⟩ ::
    blockedNets.map (fun n => .socks ⟨false, anyNet, n, true⟩) ++
    [.socks ⟨true, anyNet, anyNet, true⟩]

def routeChunk (d : DanteRoute) : List Bytes :=
  [lit "route", openBrace, lit "from:", lit "0.0.0.0/0", lit "to:", d.targetCIDR, lit "via:",
    d.peerHost, lit "port", lit "=", Strconv.itoa d.peerPort, lit "proxyprotocol:",
    lit "socks_v5", lit "method:", lit "none"]

theorem sockdChunks_read :
    List.Forall₂ (fun c b => readBlock c = some b) sockdChunks sockdBlocks := by
  simp (disch := exact rfl) only [sockdChunks, lit_eq]
  decide

/-- What a route block inserts is read back: two words and a port in range. -/
structure Readable (d : DanteRoute) (a : IPv4) : Prop where
  name : nl ∉ d.name
  address : readIPv4 d.targetCIDR = some a
  host : Plain d.peerHost
  port : 0 ≤ d.peerPort ∧ d.peerPort ≤ 65535

theorem digitOrDot_of_readIPv4 {s : Bytes} {a : IPv4} (h : readIPv4 s = some a) :
    s ≠ [] ∧ ∀ b ∈ s, Strconv.isDigit b = true ∨ b = 46 := by
  have hoctet : ∀ {w : Bytes} {n : Nat}, readOctet w = some n →
      ∀ b ∈ w, Strconv.isDigit b = true := by
    intro w n hw
    unfold readOctet at hw
    split at hw
    · next hdigits => exact List.all_eq_true.mp hdigits.2.2.1
    · cases hw
  unfold readIPv4 at h
  split at h
  · next x y z w hsplit =>
    split at h
    · next hx hy hz hw =>
      have hs : s = x ++ 46 :: (y ++ 46 :: (z ++ 46 :: w)) := by
        have hjoin := @List.intercalate_splitOn UInt8 s _ _ 46
        simp only [Strings.split] at hsplit
        rw [hsplit] at hjoin
        simpa [List.intercalate, List.intersperse] using hjoin.symm
      subst hs
      refine ⟨by simp, fun b hb => ?_⟩
      simp only [List.mem_append, List.mem_cons] at hb
      rcases hb with hb | rfl | hb | rfl | hb | rfl | hb
      · exact .inl (hoctet hx b hb)
      · exact .inr rfl
      · exact .inl (hoctet hy b hb)
      · exact .inr rfl
      · exact .inl (hoctet hz b hb)
      · exact .inr rfl
      · exact .inl (hoctet hw b hb)
    · cases h
  · cases h

theorem plain_of_digits {s : Bytes} (hne : s ≠ [])
    (h : ∀ b ∈ s, Strconv.isDigit b = true ∨ b = 46) : Plain s := by
  refine ⟨hne, fun b hb => ?_⟩
  have hd := h b hb
  simp only [Strconv.isDigit, Bool.and_eq_true, decide_eq_true_eq, UInt8.le_iff_toNat_le,
    ← UInt8.toNat_inj, UInt8.reduceToNat] at hd
  simp only [white, brace, Bool.or_eq_false_iff, Bool.and_eq_false_iff, beq_eq_false_iff_ne,
    decide_eq_false_iff_not, ← UInt8.toNat_inj, UInt8.le_iff_toNat_le, ne_eq, UInt8.reduceToNat]
  omega

theorem Plain.no_nl {w : Bytes} (h : Plain w) : nl ∉ w :=
  fun hm => absurd (h.chars nl hm).2.1 (by decide)

theorem brace_not_mem {ws : List Bytes} (h : ∀ w ∈ ws, Plain w) {b : UInt8}
    (hb : brace b = true) : [b] ∉ ws := by
  intro hm
  have hplain := ((h _ hm).chars b List.mem_cons_self).2.2
  rw [hb] at hplain
  cases hplain

theorem Plain.no_hash {w : Bytes} (h : Plain w) : (35 : UInt8) ∉ w :=
  fun hm => (h.chars 35 hm).1 rfl

theorem plain_itoa (n : Nat) : Plain (Strconv.itoa n) :=
  plain_of_digits (itoa_word n).1 fun _ hb => .inl (Strconv.digits_of_mem_itoa hb)

theorem readPort_itoa {n : Nat} (h : n ≤ 65535) : readPort (Strconv.itoa n) = some (n : Int) := by
  have hdigits : (Strconv.itoa n).all Strconv.isDigit = true :=
    List.all_eq_true.mpr fun _ hb => Strconv.digits_of_mem_itoa hb
  rw [readPort, if_pos ⟨(itoa_word n).1, hdigits, by rwa [Strconv.decimal_itoa]⟩,
    Strconv.decimal_itoa]

/-- An address is a network of its own. -/
theorem readNet_of_readIPv4 {s : Bytes} {a : IPv4} (h : readIPv4 s = some a) :
    readNet s = some ⟨a, 32⟩ := by
  have hslash : (47 : UInt8) ∉ s := fun hm => by
    rcases (digitOrDot_of_readIPv4 h).2 47 hm with hd | hd
    · exact absurd hd (by decide)
    · exact absurd hd (by decide)
  simp only [readNet, Strings.split, List.splitOn_eq_singleton hslash, h, Option.map_some]

section Block

variable {d : DanteRoute} {a : IPv4} (hd : Readable d a)
include hd

theorem Readable.cidr : Plain d.targetCIDR :=
  plain_of_digits (digitOrDot_of_readIPv4 hd.address).1 (digitOrDot_of_readIPv4 hd.address).2

theorem Readable.exists_port : ∃ n : Nat, d.peerPort = n ∧ n ≤ 65535 :=
  ⟨d.peerPort.toNat, by have := hd.port; omega, by have := hd.port; omega⟩

theorem lexLine_danteRouteLine : lexLine (danteRouteLine d) =
    [lit "from:", lit "0.0.0.0/0", lit "to:", d.targetCIDR, lit "via:", d.peerHost, lit "port",
      lit "=", Strconv.itoa d.peerPort] := by
  obtain ⟨n, hn, -⟩ := hd.exists_port
  have hline : danteRouteLine d = lit "    from: 0.0.0.0/0   to:" ++ 32 :: (d.targetCIDR ++
      32 :: (lit "  via:" ++ 32 :: (d.peerHost ++ 32 :: (lit "port =" ++ 32 ::
        Strconv.itoa d.peerPort)))) := by
    have h1 : lit "    from: 0.0.0.0/0   to: " = lit "    from: 0.0.0.0/0   to:" ++ [32] := by decide
    have h2 : lit "   via: " = 32 :: lit "  via:" ++ [32] := by decide
    have h3 : lit " port = " = 32 :: lit "port =" ++ [32] := by decide
    simp [danteRouteLine, h1, h2, h3]
  have hwhite : white 32 = true := rfl
  rw [hline, lexLine_append (by decide) hwhite, lexLine_append hd.cidr.no_hash hwhite,
    lexLine_append (by decide) hwhite, lexLine_append hd.host.no_hash hwhite,
    lexLine_append (by decide) hwhite, hd.cidr.lexLine_eq, hd.host.lexLine_eq, hn,
    (plain_itoa n).lexLine_eq]
  have h1 : lexLine (lit "    from: 0.0.0.0/0   to:") =
      [lit "from:", lit "0.0.0.0/0", lit "to:"] := by decide
  have h2 : lexLine (lit "  via:") = [lit "via:"] := by decide
  have h3 : lexLine (lit "port =") = [lit "port", lit "="] := by decide
  rw [h1, h2, h3]
  rfl

theorem lex_danteBlock : (danteBlock d).flatMap lexLine = routeChunk d ++ [closeBrace] := by
  have hcomment : lexLine (danteComment d) = [] := by
    have h1 : lit "# " = [35, 32] := by decide
    simp [danteComment, h1, lexLine, lexFrom, flush]
  have h0 : lexLine [] = [] := rfl
  have h1 : lexLine (lit "route \x7b") = [lit "route", openBrace] := by decide
  have h2 : lexLine (lit "    proxyprotocol: socks_v5") = [lit "proxyprotocol:", lit "socks_v5"] := by
    decide
  have h3 : lexLine (lit "    method: none") = [lit "method:", lit "none"] := by decide
  have h4 : lexLine (lit "\x7d") = [closeBrace] := by decide
  simp only [danteBlock, List.flatMap_cons, List.flatMap_nil, h0, hcomment, h1, h2, h3, h4,
    lexLine_danteRouteLine hd]
  rfl

theorem danteBlock_no_nl : ∀ l ∈ danteBlock d, nl ∉ l := by
  obtain ⟨n, hn, -⟩ := hd.exists_port
  have h1 : nl ∉ danteComment d := by
    have ha : nl ∉ lit "# " := by decide
    have hb : nl ∉ lit ": send traffic destined for " := by decide
    have hc : nl ∉ lit " out via this tunnel." := by decide
    simp [danteComment, ha, hb, hc, hd.name, hd.cidr.no_nl]
  have h2 : nl ∉ danteRouteLine d := by
    have ha : nl ∉ lit "    from: 0.0.0.0/0   to: " := by decide
    have hb : nl ∉ lit "   via: " := by decide
    have hc : nl ∉ lit " port = " := by decide
    simp [danteRouteLine, ha, hb, hc, hd.cidr.no_nl, hd.host.no_nl, hn, (plain_itoa n).no_nl]
  have h3 : ∀ l ∈ [[], lit "route \x7b", lit "    proxyprotocol: socks_v5", lit "    method: none",
      lit "\x7d"], nl ∉ l := by decide
  simp only [List.forall_mem_cons] at h3
  simp only [danteBlock, List.forall_mem_cons]
  exact ⟨h3.1, h1, h3.2.1, h2, h3.2.2⟩

/-- The opening brace is the only word of a block that is not plain. -/
theorem plain_routeChunk : ∀ w ∈ lit "route" :: (routeChunk d).drop 2, Plain w := by
  obtain ⟨n, hn, -⟩ := hd.exists_port
  have hconst : ∀ w ∈ [lit "route", lit "from:", lit "0.0.0.0/0", lit "to:", lit "via:",
      lit "port", lit "=", lit "proxyprotocol:", lit "socks_v5", lit "method:", lit "none"],
      Plain w := by decide
  simp only [List.forall_mem_cons] at hconst
  simp [routeChunk, hconst, hd.cidr, hd.host, hn, plain_itoa n]

theorem closeBrace_not_mem_routeChunk : closeBrace ∉ routeChunk d := by
  have hplain := brace_not_mem (plain_routeChunk hd) (b := 125) rfl
  have hsplit : (routeChunk d).Perm (openBrace :: lit "route" :: (routeChunk d).drop 2) :=
    .swap _ _ _
  rw [hsplit.mem_iff, List.mem_cons]
  rintro (hopen | hm)
  · exact absurd hopen (by decide)
  · exact hplain hm

theorem readBlock_routeChunk : readBlock (routeChunk d) =
    some (.route ⟨anyNet, ⟨a, 32⟩, d.peerHost, d.peerPort⟩) := by
  obtain ⟨n, hn, hle⟩ := hd.exists_port
  have hroute : lit "route" ≠ openBrace := by decide
  have hany : readNet (lit "0.0.0.0/0") = some anyNet := by decide
  have hbody : openBrace ∉ (routeChunk d).drop 2 :=
    brace_not_mem (List.forall_mem_cons.mp (plain_routeChunk hd)).2 rfl
  have hdrop : (routeChunk d).dropWhile (· ≠ openBrace) = openBrace :: (routeChunk d).drop 2 := by
    simp [routeChunk, hroute]
  have htake : (routeChunk d).takeWhile (· ≠ openBrace) = [lit "route"] := by
    simp [routeChunk, hroute]
  simp only [readBlock, hdrop, htake]
  rw [if_neg hbody]
  simp only [routeChunk, List.drop_succ_cons, List.drop_zero, readBody, List.reverse_singleton,
    if_true, readRoute, and_self, hany, readNet_of_readIPv4 hd.address, hn, readPort_itoa hle,
    Option.map_some]

end Block

/-- A chunk that is read, in front of others. -/
theorem readBlocks_of_forall₂ {chunks : List (List Bytes)} {bs : List Block}
    (h : List.Forall₂ (fun c b => readBlock c = some b) chunks bs) :
    readBlocks (chunks ++ [[]]) = some bs := by
  induction h with
  | nil => rfl
  | @cons c b cs bs hread _ ih =>
    obtain ⟨x, xs, hx⟩ := List.exists_cons_of_ne_nil (List.append_ne_nil_of_right_ne_nil cs (by simp :
      [([] : List Bytes)] ≠ []))
    rw [List.cons_append, hx, readBlocks, ← hx, hread, ih]
    simp

def routeOf (d : DanteRoute) (a : IPv4) : Route := ⟨anyNet, ⟨a, 32⟩, d.peerHost, d.peerPort⟩

/-- The routes the blocks are meant to add. -/
def targetRoutes (ds : List DanteRoute) : List Route :=
  ds.filterMap fun d => (readIPv4 d.targetCIDR).map (routeOf d)

theorem danteHeader_lex : danteHeader.flatMap lexLine = [] := by
  simp (disch := exact rfl) only [danteHeader, lit_eq]
  decide

theorem danteHeader_no_nl : ∀ l ∈ danteHeader, nl ∉ l := by
  simp (disch := exact rfl) only [danteHeader, lit_eq]
  decide

theorem closeBrace_not_mem_sockdChunks : ∀ c ∈ sockdChunks, closeBrace ∉ c := by
  simp (disch := exact rfl) only [sockdChunks, lit_eq]
  decide

section Deployed

variable {ds : List DanteRoute} (h : ∀ d ∈ ds, ∃ a, Readable d a)
include h

theorem lex_deployed : lex (deployed shipped (renderDanteRoutes ds)) =
    Lines.terminated closeBrace (sockdChunks ++ ds.map routeChunk) := by
  have htext : deployed shipped (renderDanteRoutes ds) =
      Lines.terminated nl (sockdConf ++ [[]] ++ danteHeader ++ ds.flatMap danteBlock) ++ [] := by
    simp [deployed, shipped, renderDanteRoutes, Lines.terminated_append]
  have hlines : ∀ l ∈ sockdConf ++ [[]] ++ danteHeader ++ ds.flatMap danteBlock, nl ∉ l := by
    intro l hl
    simp only [List.mem_append, List.mem_flatMap] at hl
    rcases hl with ((hl | hl) | hl) | ⟨d, hd, hl⟩
    · exact sockdConf_no_nl l hl
    · obtain rfl := List.mem_singleton.mp hl
      simp
    · exact danteHeader_no_nl l hl
    · obtain ⟨a, ha⟩ := h d hd
      exact danteBlock_no_nl ha l hl
  have hblocks : (ds.flatMap danteBlock).flatMap lexLine =
      Lines.terminated closeBrace (ds.map routeChunk) := by
    rw [List.flatMap_assoc, Lines.terminated, List.flatMap_map]
    refine List.flatMap_congr fun d hd => ?_
    obtain ⟨a, ha⟩ := h d hd
    exact lex_danteBlock ha
  have h0 : [([] : Bytes)].flatMap lexLine = [] := rfl
  rw [lex, htext, Strings.split, Lines.splitOn_terminated nl hlines]
  simp only [List.flatMap_append, sockdConf_lex, danteHeader_lex, hblocks, List.splitOn_nil, h0,
    List.append_nil, Lines.terminated_append]

theorem forall₂_targetRoutes : List.Forall₂ (fun c b => readBlock c = some b) (ds.map routeChunk)
    ((targetRoutes ds).map .route) := by
  induction ds with
  | nil => exact .nil
  | cons d rest ih =>
    obtain ⟨a, ha⟩ := h d List.mem_cons_self
    have hrest := ih fun x hx => h x (List.mem_cons_of_mem d hx)
    have hroutes : targetRoutes (d :: rest) = routeOf d a :: targetRoutes rest := by
      simp [targetRoutes, ha.address]
    rw [hroutes]
    exact .cons (readBlock_routeChunk ha) hrest

/-- With readable targets the deployed file is the shipped rules and one route for
each target, in order. -/
theorem readConf_deployed : readConf (deployed shipped (renderDanteRoutes ds)) =
    some (sockdBlocks ++ (targetRoutes ds).map .route) := by
  have hchunks : ∀ c ∈ sockdChunks ++ ds.map routeChunk, closeBrace ∉ c := by
    intro c hc
    rcases List.mem_append.mp hc with hc | hc
    · exact closeBrace_not_mem_sockdChunks c hc
    · obtain ⟨d, hd, rfl⟩ := List.mem_map.mp hc
      obtain ⟨a, ha⟩ := h d hd
      exact closeBrace_not_mem_routeChunk ha
  have hsplit := Lines.splitOn_terminated closeBrace hchunks []
  rw [List.append_nil] at hsplit
  rw [readConf, lex_deployed h, hsplit]
  exact readBlocks_of_forall₂ (List.rel_append sockdChunks_read (forall₂_targetRoutes h))

end Deployed

theorem anyNet_covers (a : IPv4) : anyNet.covers a = true := by
  simp [Net.covers, anyNet, BitVec.ushiftRight_eq_zero]

theorem covers_host {a b : IPv4} : (Net.mk a 32).covers b = true ↔ b = a := by
  simp [Net.covers]

/-- Blocks in front of one rule that passes everything. -/
theorem verdict_blocked_then_pass (nets : List Net) (src dst : IPv4) :
    verdict (nets.map (fun n => ⟨false, anyNet, n, true⟩) ++ [⟨true, anyNet, anyNet, true⟩]) src dst =
      !nets.any (·.covers dst) := by
  induction nets with
  | nil => simp [verdict, anyNet_covers]
  | cons n rest ih =>
    cases hn : n.covers dst with
    | true => simp [verdict, anyNet_covers, hn]
    | false =>
      rw [List.any_cons, hn, Bool.false_or, ← ih]
      simp [verdict, hn]

/-- What the shipped rules and the added routes make of a CONNECT. -/
theorem egress_deployed (routes : List Route) (client server dst : IPv4) :
    egress (sockdBlocks ++ routes.map Block.route) client server dst =
      if blockedNets.any (·.covers dst) then .blocked
      else match routes.find? fun r => r.src.covers client && r.dst.covers dst with
        | some r => .via r.host r.port
        | none => .direct := by
  have hclient : (routes.map Block.route).filterMap Block.clientRule = [] := by
    simp [List.filterMap_map, Function.comp_def, Block.clientRule]
  have hsocks : (routes.map Block.route).filterMap Block.socksRule = [] := by
    simp [List.filterMap_map, Function.comp_def, Block.socksRule]
  have hroutes : (routes.map Block.route).filterMap Block.routeRule = routes := by
    simp [List.filterMap_map, Function.comp_def, Block.routeRule]
  have hsockd : sockdBlocks.filterMap Block.clientRule = [⟨true, anyNet, anyNet, true⟩] ∧
      sockdBlocks.filterMap Block.socksRule =
        blockedNets.map (fun n => ⟨false, anyNet, n, true⟩) ++ [⟨true, anyNet, anyNet, true⟩] ∧
      sockdBlocks.filterMap Block.routeRule = [] := ⟨rfl, rfl, rfl⟩
  have hpass : verdict [⟨true, anyNet, anyNet, true⟩] client server = true :=
    verdict_blocked_then_pass [] client server
  simp only [egress, List.filterMap_append, hclient, hsocks, hroutes, hsockd, List.append_nil,
    List.nil_append, hpass, verdict_blocked_then_pass, Bool.true_and]
  cases blockedNets.any (·.covers dst) <;> rfl

/-- A CONNECT to the private address of the target is passed, and leaves through
the host and port of its tunnel. -/
def Served (text : Bytes) (d : DanteRoute) : Prop :=
  ∃ conf a, readConf text = some conf ∧ readIPv4 d.targetCIDR = some a ∧
    ∀ client server, egress conf client server a = .via d.peerHost d.peerPort

/-- The blocks are readable, no address is one the shipped file blocks, and targets
with one address have one peer. -/
def Compatible (ds : List DanteRoute) : Prop :=
  ∀ d ∈ ds, ∃ a, Readable d a ∧ blockedNets.any (·.covers a) = false ∧
    ∀ d' ∈ ds, readIPv4 d'.targetCIDR = some a →
      d'.peerHost = d.peerHost ∧ d'.peerPort = d.peerPort

theorem mem_of_egress_via {conf : List Block} {client server dst : IPv4} {host : Bytes} {port : Int}
    (h : egress conf client server dst = .via host port) :
    ∃ r, Block.route r ∈ conf ∧ r.host = host ∧ r.port = port := by
  unfold egress at h
  split at h
  · split at h
    · next r hr =>
      obtain ⟨rfl, rfl⟩ := Egress.via.inj h
      obtain ⟨b, hb, hbr⟩ := List.mem_filterMap.mp (List.mem_of_find?_eq_some hr)
      cases b with
      | route r' =>
        obtain rfl := Option.some.inj hbr
        exact ⟨r', hb, rfl, rfl⟩
      | client | socks => cases hbr
    · cases h
  · cases h

/-- What is served was read back, whatever the other blocks contain. -/
theorem Served.readable {text : Bytes} {d : DanteRoute} (hname : nl ∉ d.name) (h : Served text d) :
    ∃ a, Readable d a := by
  obtain ⟨conf, a, hconf, haddr, hegress⟩ := h
  obtain ⟨r, hr, hhost, hport⟩ := mem_of_egress_via (hegress 0 0)
  obtain ⟨hplain, hrange⟩ := readConf_route hconf hr
  exact ⟨a, hname, haddr, hhost ▸ hplain, hport ▸ hrange⟩

theorem mem_targetRoutes {ds : List DanteRoute} {r : Route} :
    r ∈ targetRoutes ds ↔ ∃ d ∈ ds, ∃ a, readIPv4 d.targetCIDR = some a ∧ routeOf d a = r := by
  simp [targetRoutes]

/-- The routes to an address lead where its first target's block says. -/
theorem find_targetRoutes {ds : List DanteRoute} {d : DanteRoute} (hd : d ∈ ds) {a : IPv4}
    (ha : readIPv4 d.targetCIDR = some a) (client : IPv4) :
    ∃ d' ∈ ds, readIPv4 d'.targetCIDR = some a ∧
      ((targetRoutes ds).find? fun r => r.src.covers client && r.dst.covers a) =
        some (routeOf d' a) := by
  have hsome : ((targetRoutes ds).find? fun r => r.src.covers client && r.dst.covers a).isSome := by
    rw [List.find?_isSome]
    refine ⟨routeOf d a, mem_targetRoutes.mpr ⟨d, hd, a, ha, rfl⟩, ?_⟩
    simp [routeOf, anyNet_covers, covers_host]
  obtain ⟨r, hr⟩ := Option.isSome_iff_exists.mp hsome
  obtain ⟨d', hd', a', ha', rfl⟩ := mem_targetRoutes.mp (List.mem_of_find?_eq_some hr)
  have hcovers := List.find?_some hr
  simp only [routeOf, anyNet_covers, Bool.true_and, covers_host] at hcovers
  subst hcovers
  exact ⟨d', hd', ha', hr⟩

theorem served_iff {ds : List DanteRoute} (hnames : ∀ d ∈ ds, nl ∉ d.name) :
    (∀ d ∈ ds, Served (deployed shipped (renderDanteRoutes ds)) d) ↔ Compatible ds := by
  constructor
  · intro h d hd
    have hreadable : ∀ d ∈ ds, ∃ a, Readable d a := fun d hd => (h d hd).readable (hnames d hd)
    have hconf := readConf_deployed hreadable
    obtain ⟨a, ha⟩ := hreadable d hd
    -- every target with this address sees the same egress
    have hvia : ∀ d' ∈ ds, readIPv4 d'.targetCIDR = some a →
        egress (sockdBlocks ++ (targetRoutes ds).map .route) 0 0 a = .via d'.peerHost d'.peerPort := by
      intro d' hd' ha'
      obtain ⟨conf, a', hconf', haddr, hegress⟩ := h d' hd'
      obtain rfl := Option.some.inj (hconf.symm.trans hconf')
      obtain rfl := Option.some.inj (ha'.symm.trans haddr)
      exact hegress 0 0
    have hd_via := hvia d hd ha.address
    refine ⟨a, ha, ?_, fun d' hd' ha' => ?_⟩
    · cases hblocked : blockedNets.any (·.covers a) with
      | false => rfl
      | true =>
        rw [egress_deployed, hblocked] at hd_via
        cases hd_via
    · exact Egress.via.inj ((hvia d' hd' ha').symm.trans hd_via)
  · intro h d hd
    have hreadable : ∀ d ∈ ds, ∃ a, Readable d a := fun d hd => by
      obtain ⟨a, ha, -⟩ := h d hd
      exact ⟨a, ha⟩
    obtain ⟨a, ha, hpass, hsame⟩ := h d hd
    refine ⟨_, a, readConf_deployed hreadable, ha.address, fun client server => ?_⟩
    obtain ⟨d', hd', ha', hfind⟩ := find_targetRoutes hd ha.address client
    obtain ⟨hhost, hport⟩ := hsame d' hd' ha'
    rw [egress_deployed, hpass, hfind]
    simp [routeOf, hhost, hport]

/-- The target's row resolves through the profile. -/
def Carries (q : Queries) (h : TargetHost) (p : VPNProfile) : Prop :=
  ∃ ps ts tier, q.listProfiles = some ps ∧ q.listTargets = some ts ∧ h ∈ ts.rows ∧
    ResolvesTo q ps h p tier

/-- Every target that resolves has an IPv4 address outside the blocked ranges and a
profile whose peer Dante can read, the same for all targets at that address. -/
def SocksReady (q : Queries) : Prop :=
  ∀ h p, Carries q h p →
    Plain (peerEndpoint p).1 ∧ 0 ≤ (peerEndpoint p).2 ∧ (peerEndpoint p).2 ≤ 65535 ∧
    ∃ a, readIPv4 h.privateIP = some a ∧ blockedNets.any (·.covers a) = false ∧
      ∀ h' p', Carries q h' p' → readIPv4 h'.privateIP = some a → peerEndpoint p' = peerEndpoint p

theorem carries_iff {q : Queries} {c : Compiled} (hc : compileAll q = some c) (d : DanteRoute) :
    d ∈ c.resolved.map Resolved.dante ↔
      ∃ h p, Carries q h p ∧ d = danteRouteVia h (tunnelOf p) := by
  simp only [List.mem_map, mem_resolved_iff hc]
  constructor
  · rintro ⟨x, ⟨ps, ts, hps, hts, h, hh, p, tier, hres, rfl⟩, rfl⟩
    exact ⟨h, p, ⟨ps, ts, tier, hps, hts, hh, hres⟩, rfl⟩
  · rintro ⟨h, p, ⟨ps, ts, tier, hps, hts, hh, hres⟩, rfl⟩
    exact ⟨_, ⟨ps, ts, hps, hts, h, hh, p, tier, hres, rfl⟩, rfl⟩

theorem compatible_iff {q : Queries} {c : Compiled} (hc : compileAll q = some c) :
    Compatible (c.resolved.map Resolved.dante) ↔ SocksReady q := by
  constructor
  · intro hcompat h p hp
    obtain ⟨a, ha, hpass, hsame⟩ := hcompat _ ((carries_iff hc _).mpr ⟨h, p, hp, rfl⟩)
    refine ⟨ha.host, ha.port.1, ha.port.2, a, ha.address, hpass, fun h' p' hp' ha' => ?_⟩
    obtain ⟨hhost, hport⟩ := hsame _ ((carries_iff hc _).mpr ⟨h', p', hp', rfl⟩) ha'
    exact Prod.ext hhost hport
  · intro hready d hd
    obtain ⟨h, p, hp, rfl⟩ := (carries_iff hc d).mp hd
    obtain ⟨hhost, hlow, hhigh, a, ha, hpass, hsame⟩ := hready h p hp
    refine ⟨a, ⟨(tunnelOf_name_word p).no_nl, ha, hhost, hlow, hhigh⟩, hpass, fun d' hd' ha' => ?_⟩
    obtain ⟨h', p', hp', rfl⟩ := (carries_iff hc d').mp hd'
    exact Prod.ext_iff.mp (hsame h' p' hp' ha')

theorem names_no_nl {q : Queries} {c : Compiled} (hc : compileAll q = some c) :
    ∀ d ∈ c.resolved.map Resolved.dante, nl ∉ d.name := by
  intro d hd
  obtain ⟨h, p, -, rfl⟩ := (carries_iff hc d).mp hd
  exact (tunnelOf_name_word p).no_nl

/-- The SOCKS path takes every resolved target through its own tunnel exactly when
the rows are `SocksReady`. -/
theorem socks_path_iff {r : Reads} {q : Queries} (hr : r.Agrees q) {c : Compiled}
    (hc : compileAll q = some c) (printable : Nat → Bool) (e : Engine) :
    (∀ x ∈ c.resolved,
      Served (deployed shipped (e.compileAll printable r).artifacts.danteRoutes) x.dante) ↔
      SocksReady q := by
  rw [e.compileAll_of_agrees hr printable hc, ← compatible_iff hc, ← served_iff (names_no_nl hc)]
  simp

/-- The reads of `q`, each failure with the same text. -/
def readsOf (q : Queries) (text : Bytes) : Reads where
  listProfiles := q.listProfiles.elim (.error text) .ok
  listTargets := q.listTargets.elim (.error text) fun ts => .ok ts.rows
  listTiers id := (q.listTiers id).elim (.error text) .ok

theorem readsOf_agrees (q : Queries) (text : Bytes) : (readsOf q text).Agrees q where
  profiles := by cases h : q.listProfiles <;> simp [readsOf, h, Except.toOption]
  targets := by cases h : q.listTargets <;> simp [readsOf, h, Except.toOption]
  tiers id := by cases h : q.listTiers id <;> simp [readsOf, h, Except.toOption]

def euProfile : VPNProfile where
  id := lit "1"
  name := lit "eu"

def crmRow (ip : Bytes) : TargetHost where
  id := lit "t1"
  publicAlias := lit "crm"
  privateIP := ip

/-- The target `crm` at the given address, routed through `euProfile`. -/
def crmAt (ip : Bytes) : Queries where
  listProfiles := some ⟨[euProfile], by simp, by simp⟩
  listTargets := some ⟨[crmRow ip], by simp⟩
  listTiers id := some [⟨id, lit "1", 0⟩]

theorem carries_crmAt {ip : Bytes} {h : TargetHost} {p : VPNProfile} :
    Carries (crmAt ip) h p ↔ h = crmRow ip ∧ p = euProfile := by
  constructor
  · rintro ⟨ps, ts, tier, hps, hts, hh, -, hp, -⟩
    cases hps
    cases hts
    exact ⟨List.mem_singleton.mp hh, List.mem_singleton.mp hp⟩
  · rintro ⟨rfl, rfl⟩
    exact ⟨_, _, 0, rfl, rfl, List.mem_singleton.mpr rfl, rfl, List.mem_singleton.mpr rfl, rfl,
      by decide, _, rfl, rfl, rfl⟩

theorem compileAll_crmAt (ip : Bytes) : ∃ c, compileAll (crmAt ip) = some c ∧
    ∃ x ∈ c.resolved, x.dante = danteRouteVia (crmRow ip) (tunnelOf euProfile) := by
  obtain ⟨c, hc⟩ := (compileAll_isSome_iff (crmAt ip)).mpr ⟨_, _, rfl, rfl, fun _ _ _ => ⟨_, rfl⟩⟩
  have hmem := (carries_iff hc _).mpr ⟨_, _, carries_crmAt.mpr ⟨rfl, rfl⟩, rfl⟩
  obtain ⟨x, hx, hdante⟩ := List.mem_map.mp hmem
  exact ⟨c, hc, x, hx, hdante⟩

theorem socks_path_public : ∃ c, compileAll (crmAt (lit "203.0.113.7")) = some c ∧
    c.resolved ≠ [] ∧
    ∀ x ∈ c.resolved, Served (deployed shipped ((Engine.new [] []).compileAll (fun _ => true)
      (readsOf (crmAt (lit "203.0.113.7")) [])).artifacts.danteRoutes) x.dante := by
  obtain ⟨c, hc, x, hx, -⟩ := compileAll_crmAt (lit "203.0.113.7")
  refine ⟨c, hc, List.ne_nil_of_mem hx, (socks_path_iff (readsOf_agrees _ []) hc _ _).mpr ?_⟩
  intro h p hp
  obtain ⟨rfl, rfl⟩ := carries_crmAt.mp hp
  refine ⟨by decide, by decide, by decide, BitVec.ofNat 32 0xCB007107, by decide, by decide, ?_⟩
  intro h' p' hp' _
  rw [(carries_crmAt.mp hp').2]

/-- A target at an RFC 1918 address is refused by the rules in front of the routes. -/
theorem socks_path_private_blocked : ∃ c, compileAll (crmAt (lit "10.0.0.5")) = some c ∧
    ∃ x ∈ c.resolved, ¬Served (deployed shipped ((Engine.new [] []).compileAll (fun _ => true)
      (readsOf (crmAt (lit "10.0.0.5")) [])).artifacts.danteRoutes) x.dante := by
  obtain ⟨c, hc, x, hx, hdante⟩ := compileAll_crmAt (lit "10.0.0.5")
  refine ⟨c, hc, ?_⟩
  by_contra hall
  push Not at hall
  rw [(Engine.new [] []).compileAll_of_agrees (readsOf_agrees _ []) _ hc] at hall
  have hserved : ∀ d ∈ c.resolved.map Resolved.dante,
      Served (deployed shipped (renderDanteRoutes (c.resolved.map Resolved.dante))) d := by
    simpa using hall
  have hready := (compatible_iff hc).mp ((served_iff (names_no_nl hc)).mp hserved)
  obtain ⟨-, -, -, a, ha, hpass, -⟩ := hready _ _ (carries_crmAt.mpr ⟨rfl, rfl⟩)
  have haddr : readIPv4 (lit "10.0.0.5") = some (BitVec.ofNat 32 0x0A000005) := by decide
  obtain rfl := Option.some.inj (haddr.symm.trans ha)
  exact absurd hpass (by decide)

end HelixProxy.Dante
