import HelixProxy.SquidPolicy

/-!
# Fail-closed evaluation of the assembled configuration

The ACLs of the base file, the eight `http_access` rules in force, and what they
decide for a request that does not come from the proxy host itself.
-/

namespace HelixProxy.Routing

open Squid FirstMatch
set_option autoImplicit false
set_option maxRecDepth 4096

def localnetRanges : List Bytes :=
  [lit "0.0.0.1-0.255.255.255", lit "10.0.0.0/8", lit "100.64.0.0/10", lit "127.0.0.0/8",
   lit "169.254.0.0/16", lit "172.16.0.0/12", lit "192.168.0.0/16", lit "fc00::/7", lit "fe80::/10"]

def InLocalnet (r : Request) : Prop := ∃ range ∈ localnetRanges, r.inRange range = true

def SafePort (port : Nat) : Prop :=
  port ∈ [80, 21, 443, 70, 210, 280, 488, 591, 777] ∨ 1025 ≤ port ∧ port ≤ 65535

def ConnectOutsideSSL (r : Request) : Prop := r.method = lit "CONNECT" ∧ r.port ≠ 443

theorem portMatches_single {value : Bytes} {n : Nat}
    (h : (value.splitOn 45).map Strconv.atoi = [some (n : Int)]) (port : Nat) :
    portMatches value port = true ↔ port = n := by
  simp only [portMatches, h, decide_eq_true_eq, Nat.cast_inj]
  exact eq_comm

theorem portMatches_range {value : Bytes} {lo hi : Nat}
    (h : (value.splitOn 45).map Strconv.atoi = [some (lo : Int), some (hi : Int)]) (port : Nat) :
    portMatches value port = true ↔ lo ≤ port ∧ port ≤ hi := by
  simp [portMatches, h]

section Acls

variable {conf : List (List Bytes)} (r : Request)

theorem valueMatches_port (value : Bytes) :
    valueMatches conf r (lit "port") value = portMatches value r.port := by
  simp [valueMatches]

theorem aclMatches_safePorts
    (hv : aclValues conf (lit "Safe_ports") = aclValues headConf (lit "Safe_ports")) :
    aclMatches conf r (lit "Safe_ports") = true ↔ SafePort r.port := by
  have hvals : aclValues headConf (lit "Safe_ports") =
      [(lit "port", lit "80"), (lit "port", lit "21"), (lit "port", lit "443"),
       (lit "port", lit "70"), (lit "port", lit "210"), (lit "port", lit "1025-65535"),
       (lit "port", lit "280"), (lit "port", lit "488"), (lit "port", lit "591"),
       (lit "port", lit "777")] := by decide
  rw [aclMatches_of_values r (by decide) (hv.trans hvals)]
  simp only [List.mem_cons, List.not_mem_nil, or_false, exists_eq_or_imp, exists_eq_left,
    valueMatches_port]
  rw [portMatches_single (by decide : _ = [some ((80 : Nat) : Int)]),
    portMatches_single (by decide : _ = [some ((21 : Nat) : Int)]),
    portMatches_single (by decide : _ = [some ((443 : Nat) : Int)]),
    portMatches_single (by decide : _ = [some ((70 : Nat) : Int)]),
    portMatches_single (by decide : _ = [some ((210 : Nat) : Int)]),
    portMatches_range (by decide : _ = [some ((1025 : Nat) : Int), some ((65535 : Nat) : Int)]),
    portMatches_single (by decide : _ = [some ((280 : Nat) : Int)]),
    portMatches_single (by decide : _ = [some ((488 : Nat) : Int)]),
    portMatches_single (by decide : _ = [some ((591 : Nat) : Int)]),
    portMatches_single (by decide : _ = [some ((777 : Nat) : Int)])]
  simp only [SafePort, List.mem_cons, List.not_mem_nil, or_false]
  omega

theorem aclMatches_sslPorts
    (hv : aclValues conf (lit "SSL_ports") = aclValues headConf (lit "SSL_ports")) :
    aclMatches conf r (lit "SSL_ports") = true ↔ r.port = 443 := by
  have hvals : aclValues headConf (lit "SSL_ports") = [(lit "port", lit "443")] := by
    decide
  rw [aclMatches_of_values r (by decide) (hv.trans hvals)]
  simp only [List.mem_singleton, exists_eq_left, valueMatches_port]
  exact portMatches_single (by decide : _ = [some ((443 : Nat) : Int)]) r.port

theorem aclMatches_connect
    (hv : aclValues conf (lit "CONNECT") = aclValues headConf (lit "CONNECT")) :
    aclMatches conf r (lit "CONNECT") = true ↔ r.method = lit "CONNECT" := by
  have hvals : aclValues headConf (lit "CONNECT") = [(lit "method", lit "CONNECT")] := by
    decide
  rw [aclMatches_of_values r (by decide) (hv.trans hvals)]
  simp only [List.mem_singleton, exists_eq_left, valueMatches, lit_inj, String.reduceEq, if_false,
    if_true, decide_eq_true_eq]
  exact eq_comm

theorem aclMatches_localnet
    (hv : aclValues conf (lit "localnet") = aclValues headConf (lit "localnet")) :
    aclMatches conf r (lit "localnet") = true ↔ InLocalnet r := by
  have hvals : aclValues headConf (lit "localnet") = localnetRanges.map (lit "src", ·) := by
    decide
  rw [aclMatches_of_values r (by decide) (hv.trans hvals)]
  simp [valueMatches, InLocalnet]

end Acls

def headRules : List Rule :=
  [⟨.deny, [33 :: lit "Safe_ports"]⟩, ⟨.deny, [lit "CONNECT", 33 :: lit "SSL_ports"]⟩,
   ⟨.allow, [lit "localhost", lit "manager"]⟩, ⟨.deny, [lit "manager"]⟩, ⟨.allow, [lit "localhost"]⟩]

def tailRules : List Rule := [⟨.deny, [lit "all"]⟩]

def gateRules : List Rule := [⟨.deny, [33 :: lit "tun_up"]⟩, ⟨.allow, [lit "localnet"]⟩]

theorem rules_headConf : rules (lit "http_access") headConf = headRules := by decide

theorem rules_tailConf : rules (lit "http_access") tailConf = tailRules := by decide

theorem rules_gate : rules (lit "http_access") failClosedConf = gateRules := by decide

section Decision

variable {conf : List (List Bytes)} {r : Request}

theorem aclMatches_all : aclMatches conf r (lit "all") = true := by simp [aclMatches]

theorem aclMatches_localhost : aclMatches conf r (lit "localhost") = r.localhost := by
  simp [aclMatches]

theorem aclMatches_manager : aclMatches conf r (lit "manager") = r.manager := by
  simp [aclMatches]

/-- The rules before the include pass a request on exactly when none of the
three denials applies to it. -/
theorem decision_headRules (hl : r.localhost = false) {rest : List Rule} (hne : rest ≠ []) :
    decision conf r .deny (headRules ++ rest) = .allow ↔
      aclMatches conf r (lit "Safe_ports") = true ∧
        ¬ (aclMatches conf r (lit "CONNECT") = true ∧ ¬ aclMatches conf r (lit "SSL_ports") = true) ∧
        r.manager = false ∧ decision conf r .deny rest = .allow := by
  have hc : termMatches conf r (lit "CONNECT") = aclMatches conf r (lit "CONNECT") :=
    termMatches_plain conf r (by decide)
  have hlo : termMatches conf r (lit "localhost") = false := by
    rw [termMatches_plain conf r (by decide), aclMatches_localhost, hl]
  have hm : termMatches conf r (lit "manager") = r.manager := by
    rw [termMatches_plain conf r (by decide), aclMatches_manager]
  have hs : ∀ name, termMatches conf r (33 :: name) = !aclMatches conf r name := fun _ => rfl
  unfold decision headRules
  simp only [List.cons_append, List.nil_append]
  cases h1 : aclMatches conf r (lit "Safe_ports") with
  | false =>
    rw [evaluate_cons_of_match _ _ _ _ (by simp [Rule.holds, hs, h1])]
    simp
  | true =>
    rw [evaluate_cons_of_not_match _ _ _ (by simp [Rule.holds, hs, h1]) (by simp)]
    by_cases h2 : aclMatches conf r (lit "CONNECT") = true ∧
        ¬ aclMatches conf r (lit "SSL_ports") = true
    · rw [evaluate_cons_of_match _ _ _ _ (by simp [Rule.holds, hs, hc, h2])]
      simp [h2]
    · have hno : Rule.holds conf r ⟨.deny, [lit "CONNECT", 33 :: lit "SSL_ports"]⟩ = false := by
        simp only [Rule.holds, List.all_cons, List.all_nil, Bool.and_true, hc, hs]
        simpa using h2
      rw [evaluate_cons_of_not_match _ _ _ hno (by simp),
        evaluate_cons_of_not_match _ _ _ (by simp [Rule.holds, hlo]) (by simp)]
      cases h3 : r.manager with
      | true =>
        rw [evaluate_cons_of_match _ _ _ _ (by simp [Rule.holds, hm, h3])]
        simp
      | false =>
        rw [evaluate_cons_of_not_match _ _ _ (by simp [Rule.holds, hm, h3]) (by simp),
          evaluate_cons_of_not_match _ _ _ (by simp [Rule.holds, hlo]) hne]
        exact ⟨fun h => ⟨rfl, h2, rfl, h⟩, fun h => h.2.2.2⟩

theorem decision_gateRules (absent : Action) :
    decision conf r absent (gateRules ++ tailRules) = .allow ↔
      aclMatches conf r (lit "tun_up") = true ∧ aclMatches conf r (lit "localnet") = true := by
  have hn : termMatches conf r (lit "localnet") = aclMatches conf r (lit "localnet") :=
    termMatches_plain conf r (by decide)
  have ha : termMatches conf r (lit "all") = true := by
    rw [termMatches_plain conf r (by decide), aclMatches_all]
  have hs : ∀ name, termMatches conf r (33 :: name) = !aclMatches conf r name := fun _ => rfl
  cases h1 : aclMatches conf r (lit "tun_up") <;> cases h2 : aclMatches conf r (lit "localnet") <;>
    simp [decision, gateRules, tailRules, evaluate, Rule.holds, hs, hn, ha, h1, h2]

theorem decision_all (absent action : Action) (rest : List Rule) :
    decision conf r absent (⟨action, [lit "all"]⟩ :: rest) = action := by
  have ha : termMatches conf r (lit "all") = true := by
    rw [termMatches_plain conf r (by decide), aclMatches_all]
  exact evaluate_cons_of_match _ _ _ _ (by simp [Rule.holds, ha])

end Decision

theorem Kept.no_nl {s : Bytes} (h : Kept s) : nl ∉ s := fun hm => absurd (h nl hm) (by decide)

theorem Kept.last_ne {s : Bytes} (h : Kept s) : s.getLast? ≠ some 92 :=
  fun hl => absurd (h 92 (List.mem_of_getLast? hl)) (by decide)

theorem unbroken_of_kept {helperPath : Bytes} {tunnels : List Tunnel}
    (hh : ∀ b ∈ helperPath, white b = false ∧ b ≠ 92)
    (ht : ∀ t ∈ tunnels, Kept t.name ∧ Kept t.peerHost) : Unbroken helperPath tunnels where
  lineSafe := ⟨fun hm => absurd (hh nl hm).1 (by decide),
    fun t htm => ⟨(ht t htm).1.no_nl, (ht t htm).2.no_nl⟩⟩
  helper_last hl := (hh 92 (List.mem_of_getLast? hl)).2 rfl
  name_last t htm := (ht t htm).1.last_ne

theorem aclValues_assembled (helperPath : Bytes) (tunnels : List Tunnel) {name : Bytes}
    (hname : lit "tun_up" ≠ name) :
    aclValues (headConf ++ includeConf helperPath tunnels ++ tailConf) name =
      aclValues headConf name := by
  have htail : aclValues tailConf name = [] := aclValues_eq_nil name (by decide)
  rw [aclValues_append, aclValues_append, aclValues_includeConf, if_neg hname, htail,
    List.append_nil, List.append_nil]

theorem aclValues_assembled_tunUp (helperPath : Bytes) (tunnels : List Tunnel) :
    aclValues (headConf ++ includeConf helperPath tunnels ++ tailConf) (lit "tun_up") =
      [(lit "external", lit "vpn_route")] := by
  have hhead : aclValues headConf (lit "tun_up") = [] := by decide
  have htail : aclValues tailConf (lit "tun_up") = [] := aclValues_eq_nil _ (by decide)
  rw [aclValues_append, aclValues_append, aclValues_includeConf, if_pos rfl, hhead, htail]
  rfl

/-- With the include in place a request from another host is allowed exactly on
the intended conditions and never goes direct; without it nothing is allowed. -/
theorem assembled_fail_closed (helperPath : Bytes) (tunnels : List Tunnel)
    (hh : ∀ b ∈ helperPath, white b = false ∧ b ≠ 92)
    (ht : ∀ t ∈ tunnels, Kept t.name ∧ Kept t.peerHost)
    (r : Request) (hl : r.localhost = false) :
    (httpAccess (assembled (renderSquidInclude helperPath tunnels)) r = .allow ↔
      SafePort r.port ∧ ¬ ConnectOutsideSSL r ∧ r.manager = false ∧ r.helperOK = true ∧
        InLocalnet r) ∧
    neverDirect (assembled (renderSquidInclude helperPath tunnels)) r = .allow ∧
    httpAccess withoutInclude r = .deny := by
  have hparse := parse_assembled (unbroken_of_kept hh ht)
  refine ⟨?_, ?_, ?_⟩
  · have hrules : rules (lit "http_access")
        (headConf ++ includeConf helperPath tunnels ++ tailConf) =
          headRules ++ (gateRules ++ tailRules) := by
      rw [rules_append, rules_append, rules_headConf, rules_tailConf,
        rules_includeConf helperPath tunnels (by decide) (by decide) (by decide) (by decide),
        rules_gate, List.append_assoc]
    have hsafe := aclMatches_safePorts r (aclValues_assembled helperPath tunnels (by decide))
    have hssl := aclMatches_sslPorts r (aclValues_assembled helperPath tunnels (by decide))
    have hconnect := aclMatches_connect r (aclValues_assembled helperPath tunnels (by decide))
    have hlocalnet := aclMatches_localnet r (aclValues_assembled helperPath tunnels (by decide))
    have htun := aclMatches_tunUp r (aclValues_assembled_tunUp helperPath tunnels)
      (externalDeclared_assembled helperPath tunnels headConf tailConf)
    rw [httpAccess, hparse, hrules, decision_headRules hl (by decide), decision_gateRules, hsafe,
      hssl, hconnect, hlocalnet, htun]
    rfl
  · have hrules : rules (lit "never_direct")
        (headConf ++ includeConf helperPath tunnels ++ tailConf) = [⟨.allow, [lit "all"]⟩] := by
      have hhead : rules (lit "never_direct") headConf = [] := by decide
      have htail : rules (lit "never_direct") tailConf = [] := by decide
      have hinc : rules (lit "never_direct") failClosedConf = [⟨.allow, [lit "all"]⟩] := by
        decide
      rw [rules_append, rules_append, hhead, htail,
        rules_includeConf helperPath tunnels (by decide) (by decide) (by decide) (by decide), hinc]
      rfl
    rw [neverDirect, hparse, hrules, decision_all]
  · rw [httpAccess, parse_withoutInclude, rules_append, rules_headConf, rules_tailConf,
      ← Action.ne_allow_iff, ne_eq, decision_headRules hl (by decide), tailRules, decision_all]
    simp

def lanRequest : Request where
  port := 443
  method := lit "CONNECT"
  localhost := false
  manager := false
  inRange range := range = lit "192.168.0.0/16"
  helperOK := true

theorem assembled_fail_closed_lan :
    httpAccess (assembled (renderSquidInclude [] [⟨lit "eu", lit "tun_eu", lit "gluetun-eu", 8888⟩]))
      lanRequest = .allow := by
  have h := (assembled_fail_closed [] [⟨lit "eu", lit "tun_eu", lit "gluetun-eu", 8888⟩]
    (by decide) (by decide) lanRequest rfl).1
  refine h.mpr ⟨.inl (by decide), fun hc => hc.2 rfl, rfl, rfl, lit "192.168.0.0/16", ?_, ?_⟩
  · decide
  · decide

end HelixProxy.Routing
