import HelixProxy.ControlAudit
import HelixProxy.EgressAddress
import HelixProxy.RowConstraints
import HelixProxy.StoreReads

/-!
# The network of a target

A target's `private_ip` is an INET: an address with a prefix length. It is cast on
its way into the table and read back through `host()`, for the API and for the
Dante routes alike.
-/

namespace HelixProxy.Ip

set_option autoImplicit false

inductive Family where
  | v4
  | v6
  deriving DecidableEq, Repr

def Family.bits : Family → Nat
  | .v4 => 32
  | .v6 => 128

/-- An address, as groups of 16 bits, and a prefix length. -/
structure Network where
  family : Family
  groups : List Nat
  length : Nat
  deriving DecidableEq, Repr

/-- The address of a network alone. -/
def Network.host (n : Network) : Network := { n with length := n.family.bits }

def readHost (s : Bytes) : Option (Family × List Nat) :=
  match readQuad s with
  | some q => some (.v4, q)
  | none => (readIPv6 s).map (.v6, ·)

/-- `address/length`; an address without a length is the network of that host. -/
def readNetwork (s : Bytes) : Option Network :=
  match Strings.split s 47 with
  | [a] => (readHost a).map fun x => ⟨x.1, x.2, x.1.bits⟩
  | [a, n] => (readHost a).bind fun x =>
    if n ≠ [] ∧ n.all Strconv.isDigit ∧ Strconv.decimal n ≤ x.1.bits then
      some ⟨x.1, x.2, Strconv.decimal n⟩
    else none
  | _ => none

theorem Network.host_eq_iff (n : Network) : n.host = n ↔ n.length = n.family.bits := by
  constructor
  · intro h
    exact (congrArg Network.length h).symm
  · intro h
    cases n
    exact congrArg _ h.symm

/-- The text before the prefix length. -/
def beforeSlash (s : Bytes) : Bytes := (Strings.split s 47).headD []

theorem readNetwork_part {s a : Bytes} (ha : a ∈ Strings.split s 47) :
    readNetwork a = (readHost a).map fun x => ⟨x.1, x.2, x.1.bits⟩ := by
  have hmem : (47 : UInt8) ∉ a := by
    intro h
    have hsep := (Tokens.of_mem_splitOnP (· == 47) ha _ h).2
    simp at hsep
  rw [readNetwork, Strings.split, List.splitOn_eq_singleton hmem]

theorem readNetwork_beforeSlash {s : Bytes} {n : Network} (h : readNetwork s = some n) :
    readNetwork (beforeSlash s) = some n.host := by
  unfold readNetwork at h
  split at h
  · next a hsplit =>
    obtain ⟨x, hx, rfl⟩ := Option.map_eq_some_iff.mp h
    have ha := readNetwork_part (s := s) (a := a) (by simp [hsplit])
    simp only [beforeSlash, hsplit, List.headD_cons, ha, hx, Option.map_some, Network.host]
  · next a len hsplit =>
    obtain ⟨x, hx, hlen⟩ := Option.bind_eq_some_iff.mp h
    have ha := readNetwork_part (s := s) (a := a) (by simp [hsplit])
    split at hlen
    · cases hlen
      simp only [beforeSlash, hsplit, List.headD_cons, ha, hx, Option.map_some, Network.host]
    · cases hlen
  · cases h

end HelixProxy.Ip

namespace HelixProxy.Store

open Ip Utf8
set_option autoImplicit false

theorem storable_iff {s : Bytes} : storable s = true ↔ WellFormed s ∧ 0 ∉ s := by
  simp [storable]

theorem storable_assigned {n : Nat} {s : Bytes} (h : storable s = true) :
    storable (assigned n s) = true := by
  rw [storable_iff] at h ⊢
  have hsplit : assigned n s ++ ((segments s).drop n).flatMap Prod.snd = s := by
    rw [assigned, ← List.flatMap_append, List.take_append_drop, flatMap_segments]
  constructor
  · intro p hp
    have hpieces : ∀ ps : List (Nat × Bytes), (∀ q ∈ ps, q ∈ segments s) →
        segments (ps.flatMap Prod.snd) = ps := by
      intro ps hps
      induction ps with
      | nil => rfl
      | cons q ps ih =>
        rw [List.forall_mem_cons] at hps
        have hq := segments_of_mem hps.1 (h.1 q hps.1)
        have hwf : WellFormed q.2 := by
          intro q' hq'
          rw [hq, List.mem_singleton] at hq'
          exact hq' ▸ h.1 q hps.1
        rw [List.flatMap_cons, segments_append hwf, hq, ih hps.2, List.singleton_append]
    rw [assigned, hpieces _ fun q hq => List.mem_of_mem_take hq] at hp
    exact h.1 p (List.mem_of_mem_take hp)
  · intro hmem
    apply h.2
    rw [← hsplit]
    exact List.mem_append_left _ hmem

/-- The row a target is stored as. -/
def TargetHost.stored (v : TargetHost) (ip profile : Bytes) : TargetHost :=
  { v with
    publicAlias := assigned 255 v.publicAlias, privateIP := ip
    protocol := assigned 10 v.protocol, vpnProfileID := profile
    healthCheck := assigned 500 v.healthCheck }

/-- The row takes the place of the one with its alias, and its id, or is added. -/
inductive Upserted (newID : Bytes) (row : TargetHost) (t : Tables) : Tables → Prop
  | replaced : (∃ h ∈ t.targetHosts, h.publicAlias = row.publicAlias) →
      Upserted newID row t { t with targetHosts := t.targetHosts.map fun h =>
        if h.publicAlias = row.publicAlias then { row with id := h.id } else h }
  | added : (∀ h ∈ t.targetHosts, h.publicAlias ≠ row.publicAlias ∧ h.id ≠ newID) →
      Upserted newID row t { t with targetHosts := t.targetHosts ++ [{ row with id := newID }] }

theorem upsertTarget_ok {pg : Server} {newID : Bytes} {v : TargetHost} {t t' : Tables} {id : Bytes}
    (h : sqlUpsertTarget pg newID v t = .ok (t', id)) :
    ∃ ip profile, pg.inet v.privateIP = some ip ∧ storable v.publicAlias = true ∧
      (profile = [] ∨ ∃ p ∈ t.vpnProfiles, p.id = profile) ∧
      Upserted newID (v.stored ip profile) t t' := by
  unfold sqlUpsertTarget at h
  split at h
  · cases h
  · cases h
  · next ip profile hip hprofile =>
    have hchecked : ∀ {rest : List (Bool × SqlError)},
        (∀ c ∈ targetChecks v ++ [(profile = [] || t.vpnProfiles.any (·.id = profile),
          SqlError.violates (lit "target_hosts_vpn_profile_id_fkey"))] ++ rest, c.1 = true) →
        storable v.publicAlias = true ∧ (profile = [] ∨ ∃ p ∈ t.vpnProfiles, p.id = profile) := by
      intro rest hpass
      simp only [targetChecks, text, List.forall_mem_append, List.forall_mem_cons] at hpass
      have hprofile := hpass.1.2.1
      simp only [Bool.or_eq_true, decide_eq_true_eq, List.any_eq_true] at hprofile
      exact ⟨hpass.1.1.1.1.1.1.1, hprofile⟩
    refine ⟨ip, profile, hip, ?_⟩
    dsimp only at h
    split at h
    · next row hfind =>
      obtain ⟨hvalue, hpass⟩ := guarded_eq_ok h
      obtain ⟨rfl, rfl⟩ := Prod.mk.inj hvalue
      obtain ⟨halias, href⟩ := @hchecked [] (by simpa using hpass)
      refine ⟨halias, href, .replaced ⟨row, List.mem_of_find?_eq_some hfind, ?_⟩⟩
      have hsame := List.find?_some hfind
      exact of_decide_eq_true hsame
    · next hfind =>
      obtain ⟨hvalue, hpass⟩ := guarded_eq_ok h
      obtain ⟨rfl, rfl⟩ := Prod.mk.inj hvalue
      obtain ⟨halias, href⟩ := hchecked hpass
      refine ⟨halias, href, .added ?_⟩
      intro row hrow
      refine ⟨fun hsame => List.find?_eq_none.mp hfind row hrow (decide_eq_true hsame), ?_⟩
      have hnew := hpass _ (List.mem_append_right _ List.mem_cons_self)
      simp only [Bool.not_eq_true', List.any_eq_false, decide_eq_true_eq] at hnew
      exact hnew row hrow

section Upserted

variable {newID : Bytes} {row : TargetHost} {t t' : Tables} (h : Upserted newID row t t')
include h

theorem Upserted.frame : ∃ hosts, t' = { t with targetHosts := hosts } := by
  cases h with
  | replaced _ => exact ⟨_, rfl⟩
  | added _ => exact ⟨_, rfl⟩

/-- The tables hold the row, under some id. -/
theorem Upserted.holds : ∃ id, { row with id } ∈ t'.targetHosts := by
  cases h with
  | replaced hfound =>
    obtain ⟨old, hold, halias⟩ := hfound
    exact ⟨old.id, List.mem_map.mpr ⟨old, hold, if_pos halias⟩⟩
  | added _ => exact ⟨newID, List.mem_append_right _ List.mem_cons_self⟩

/-- Every other row was there before. -/
theorem Upserted.of_mem {r : TargetHost} (hr : r ∈ t'.targetHosts) :
    r ∈ t.targetHosts ∨ ∃ id, r = { row with id } := by
  cases h with
  | replaced _ =>
    obtain ⟨old, hold, rfl⟩ := List.mem_map.mp hr
    split
    · exact .inr ⟨old.id, rfl⟩
    · exact .inl hold
  | added _ =>
    rcases List.mem_append.mp hr with hr | hr
    · exact .inl hr
    · exact .inr ⟨newID, List.mem_singleton.mp hr⟩

theorem Upserted.id_mem {old : TargetHost} (hold : old ∈ t.targetHosts) :
    ∃ r ∈ t'.targetHosts, r.id = old.id := by
  cases h with
  | replaced _ =>
    refine ⟨_, List.mem_map_of_mem hold, ?_⟩
    split <;> rfl
  | added _ => exact ⟨old, List.mem_append_left _ hold, rfl⟩

/-- A column that the row takes over from the one it replaces, and has for itself
when it is added, stays without repetitions. -/
theorem Upserted.nodup {κ : Type} {f : TargetHost → κ} (hf : (t.targetHosts.map f).Nodup)
    (hreplaced : ∀ old, old.publicAlias = row.publicAlias → f { row with id := old.id } = f old)
    (hadded : ∀ old, old.publicAlias ≠ row.publicAlias → old.id ≠ newID →
      f old ≠ f { row with id := newID }) : (t'.targetHosts.map f).Nodup := by
  cases h with
  | replaced _ =>
    have hsame : (t.targetHosts.map fun old =>
        if old.publicAlias = row.publicAlias then { row with id := old.id } else old).map f =
        t.targetHosts.map f := by
      rw [List.map_map]
      apply List.map_congr_left
      intro old _
      simp only [Function.comp_apply]
      split
      · next halias => exact hreplaced old halias
      · rfl
    rw [hsame]
    exact hf
  | added hnew =>
    rw [List.map_append, List.nodup_append]
    refine ⟨hf, List.nodup_singleton _, ?_⟩
    intro x hx y hy
    obtain ⟨old, hold, rfl⟩ := List.mem_map.mp hx
    rw [List.map_cons, List.map_nil, List.mem_singleton] at hy
    rw [hy]
    exact hadded old (hnew old hold).1 (hnew old hold).2

/-- An upsert keeps the keys and foreign keys. -/
theorem Upserted.keyed (ht : Keyed t)
    (hprofile : row.vpnProfileID = [] ∨ ∃ p ∈ t.vpnProfiles, p.id = row.vpnProfileID) :
    Keyed t' := by
  have hids : (t'.targetHosts.map TargetHost.id).Nodup :=
    h.nodup ht.target_ids (fun _ _ => rfl) (fun _ _ hid => hid)
  have haliases : (t'.targetHosts.map TargetHost.publicAlias).Nodup :=
    h.nodup ht.target_aliases (fun _ halias => halias.symm) (fun _ halias _ => halias)
  have hprofiles : ∀ r ∈ t'.targetHosts, r.vpnProfileID = [] ∨
      ∃ p ∈ t.vpnProfiles, p.id = r.vpnProfileID := by
    intro r hr
    rcases h.of_mem hr with hr | ⟨id, rfl⟩
    · exact ht.target_profile r hr
    · exact hprofile
  have htiers : ∀ r ∈ t.tiers, ∃ h ∈ t'.targetHosts, h.id = r.targetID := by
    intro r hr
    obtain ⟨old, hold, hid⟩ := ht.tier_target r hr
    obtain ⟨new, hnew, hsame⟩ := h.id_mem hold
    exact ⟨new, hnew, hsame.trans hid⟩
  obtain ⟨hosts, rfl⟩ := h.frame
  exact { ht with
    target_ids := hids, target_aliases := haliases
    target_profile := hprofiles, tier_target := htiers }

end Upserted

def sqlGetTargetHost (rd : Reader) (publicAlias : Bytes) (t : Tables) : Except SqlError TargetHost :=
  if storable publicAlias then
    match t.targetHosts.find? (·.publicAlias = publicAlias) with
    | some h => .ok (rd.target h)
    | none => .error .noRows
  else .error (.invalidInput (lit "public_alias"))

/-- How the server reads and writes an INET: what it stores denotes a network, the one
it was given if that was in the usual notation, and `host()` gives the address. -/
structure InetText (pg : Server) (rd : Reader) : Prop where
  stored : ∀ s u, pg.inet s = some u → ∃ n, readNetwork u = some n
  given : ∀ s u n, pg.inet s = some u → readNetwork s = some n → readNetwork u = some n
  host : ∀ u n, readNetwork u = some n → readNetwork (rd.host u) = some n.host

end HelixProxy.Store

namespace HelixProxy.Api

open Ip Routing Store
set_option autoImplicit false

def getTargetHost (pg : Server) (rd : Reader) (publicAlias : Bytes) (t : Tables) :
    Except StoreError TargetHost :=
  match sqlGetTargetHost rd publicAlias t with
  | .ok h => .ok h
  | .error .noRows => .error .notFound
  | .error e => .error (.failed (lit "store: get target: " ++ pg.errorText e))

/-- `getTarget`; the row is what the body of a 200 is made of. -/
def getTarget (pg : Server) (rd : Reader) (publicAlias : Bytes) (t : Tables) :
    Except Response TargetHost :=
  match getTargetHost pg rd publicAlias t with
  | .ok h => .ok h
  | .error .notFound => .error (writeErr 404 (lit "target not found"))
  | .error e => .error (internalError e)

/-- The tables hold a target with this alias and this stored address. -/
def HoldsTarget (publicAlias u : Bytes) (t : Tables) : Prop :=
  ∃ h ∈ t.targetHosts, h.publicAlias = publicAlias ∧ h.privateIP = u

section Holds

variable {rd : Reader} {publicAlias u : Bytes} {db : Database}
  (h : HoldsTarget publicAlias u db.tables)
include h

theorem getTarget_of_holds (pg : Server) (halias : storable publicAlias = true) :
    ∃ row, getTarget pg rd publicAlias db.tables = .ok row ∧ row.privateIP = rd.host u := by
  obtain ⟨row, hrow, hname, rfl⟩ := h
  have hfind : db.tables.targetHosts.find? (·.publicAlias = publicAlias) = some row := by
    rw [← List.head?_filter, ← hname, filter_key_eq db.keyed.target_aliases hrow]
    rfl
  refine ⟨rd.target row, ?_, rfl⟩
  simp only [getTarget, getTargetHost, sqlGetTargetHost, if_pos halias, hfind]

theorem targetCIDR_of_holds {c : Compiled} (hc : compileAll (db.queries rd) = some c) {x : Resolved}
    (hx : x ∈ c.forAlias publicAlias) : x.dante.targetCIDR = rd.host u := by
  obtain ⟨row, hrow, rfl, rfl⟩ := h
  have hlisted : rd.target row ∈ sqlListTargets rd db.tables :=
    (List.mem_insertionSort _).mpr (List.mem_map_of_mem hrow)
  obtain ⟨out, hout, hiff⟩ := forAlias_eq hc hlisted
  have hx' : x ∈ out.toList := hout ▸ hx
  obtain ⟨-, p, -, -, -, tier, -, rfl⟩ := (hiff x).mp (Option.mem_toList.mp hx')
  rfl

end Holds

/-- What a `putTarget` that succeeds leaves in the tables. -/
theorem putTarget_holds {env : Env} {d : TargetDTO} {t : Tables}
    (h : (putTarget env (.ok d) t).2.success = true) :
    ∃ u, env.pg.inet d.privateIP = some u ∧ storable d.publicAlias = true ∧
      HoldsTarget (assigned 255 d.publicAlias) u (putTarget env (.ok d) t).1 ∧
      (Keyed t → Keyed (putTarget env (.ok d) t).1) := by
  obtain ⟨-, hcommit⟩ | ⟨hfail, -⟩ := serve_served env t (.putTarget (.ok d))
  · obtain ⟨stmt, changed, id, detail, hstmt, hexec, -, hafter⟩ := hcommit
    cases hstmt
    obtain ⟨ip, profile, hip, halias, hprofile, hupserted⟩ := upsertTarget_ok hexec
    have htables : (putTarget env (.ok d) t).1 = _ := hafter
    refine ⟨ip, hip, halias, ?_, ?_⟩
    · obtain ⟨newID, hmem⟩ := hupserted.holds
      rw [htables]
      exact ⟨_, hmem, rfl, rfl⟩
    · intro ht
      rw [htables]
      exact { hupserted.keyed ht hprofile with }
  · change (putTarget env (.ok d) t).2.failure = true at hfail
    simp only [Response.success, Response.failure, Bool.and_eq_true, decide_eq_true_eq] at h hfail
    omega

/-- What the API and the Dante route give back of a target's network: the network
itself exactly when it is a single host. This is so as long as the target keeps
the address it was put with. -/
theorem target_network_kept_iff {env : Env} {rd : Reader} (hinet : InetText env.pg rd)
    {d : TargetDTO} {t : Tables} (hput : (putTarget env (.ok d) t).2.success = true) :
    ∃ u n, env.pg.inet d.privateIP = some u ∧ readNetwork u = some n ∧
      (∀ m, readNetwork d.privateIP = some m → m = n) ∧
      HoldsTarget (assigned 255 d.publicAlias) u (putTarget env (.ok d) t).1 ∧
      (Keyed t → Keyed (putTarget env (.ok d) t).1) ∧
      ∀ db : Database, HoldsTarget (assigned 255 d.publicAlias) u db.tables →
        (∃ row, getTarget env.pg rd (assigned 255 d.publicAlias) db.tables = .ok row ∧
          (readNetwork row.privateIP = some n ↔ n.length = n.family.bits)) ∧
        ∀ c, compileAll (db.queries rd) = some c → ∀ x ∈ c.forAlias (assigned 255 d.publicAlias),
          (readNetwork x.dante.targetCIDR = some n ↔ n.length = n.family.bits) := by
  obtain ⟨u, hu, halias, hholds, hkeyed⟩ := putTarget_holds hput
  obtain ⟨n, hn⟩ := hinet.stored _ u hu
  have hkept : readNetwork (rd.host u) = some n ↔ n.length = n.family.bits := by
    rw [hinet.host u n hn, Option.some.injEq, n.host_eq_iff]
  refine ⟨u, n, hu, hn, ?_, hholds, hkeyed, ?_⟩
  · intro m hm
    have hsame := hinet.given _ u m hu hm
    rw [hn] at hsame
    exact (Option.some.inj hsame).symm
  · intro db hlater
    obtain ⟨row, hget, hrow⟩ :=
      @getTarget_of_holds rd _ _ _ hlater env.pg (storable_assigned halias)
    refine ⟨⟨row, hget, hrow ▸ hkept⟩, ?_⟩
    intro c hc x hx
    rw [targetCIDR_of_holds hlater hc hx]
    exact hkept

/-- Stores every network in the notation it is given in. -/
def plainInet : Server :=
  ⟨some, fun s => if (readNetwork s).isSome then some s else none, some, fun _ => []⟩

def plainReader : Reader := ⟨fun a b => decide (a ≤ b), beforeSlash⟩

theorem plain_inetText : InetText plainInet plainReader where
  stored s u h := by
    simp only [plainInet, Option.ite_none_right_eq_some, Option.some.injEq] at h
    obtain ⟨hread, rfl⟩ := h
    exact Option.isSome_iff_exists.mp hread
  given s u n h hn := by
    simp only [plainInet, Option.ite_none_right_eq_some, Option.some.injEq] at h
    rwa [← h.2]
  host u n hn := readNetwork_beforeSlash hn

def office (privateIP : Bytes) : TargetDTO :=
  { publicAlias := lit "office", privateIP, vpnProfileID := [1], enabled := true }

/-- One profile, and nothing else. -/
def oneProfile : Database where
  tables :=
    { vpnProfiles := [{ id := [1], name := lit "eu", type := .wireguard, config := .absent
                        secretRef := [], enabled := true }] }
  keyed := by
    constructor <;> simp

def putOffice (privateIP : Bytes) : Tables × Response :=
  putTarget { pg := plainInet, newID := [2] } (.ok (office privateIP)) oneProfile.tables

theorem target_network_kept_seven : (putOffice (lit "10.0.0.7")).2.success = true ∧
    ∃ row, getTarget plainInet plainReader (lit "office") (putOffice (lit "10.0.0.7")).1 = .ok row ∧
      readNetwork row.privateIP = some ⟨.v4, [0x0A00, 7], 32⟩ := by
  have hput : (putOffice (lit "10.0.0.7")).2.success = true := by decide
  have halias : assigned 255 (office (lit "10.0.0.7")).publicAlias = lit "office" := by decide
  have hread : readNetwork (lit "10.0.0.7") = some ⟨.v4, [0x0A00, 7], 32⟩ := by decide
  obtain ⟨u, n, -, -, hgiven, hholds, hkeyed, hlater⟩ := target_network_kept_iff plain_inetText hput
  obtain ⟨⟨row, hget, hkept⟩, -⟩ := hlater ⟨_, hkeyed oneProfile.keyed⟩ hholds
  rw [halias] at hget
  rw [← hgiven _ hread] at hkept
  exact ⟨hput, row, hget, hkept.mpr rfl⟩

/-- A /24 comes back, and is routed, as its first address. -/
theorem target_prefix_lost : (putOffice (lit "10.0.0.0/24")).2.success = true ∧
    readNetwork (lit "10.0.0.0/24") = some ⟨.v4, [0x0A00, 0], 24⟩ ∧
    (∃ row, getTarget plainInet plainReader (lit "office") (putOffice (lit "10.0.0.0/24")).1 =
      .ok row ∧ readNetwork row.privateIP = some ⟨.v4, [0x0A00, 0], 32⟩) ∧
    ∃ db : Database, db.tables = (putOffice (lit "10.0.0.0/24")).1 ∧
      ∃ c x, compileAll (db.queries plainReader) = some c ∧ c.forAlias (lit "office") = [x] ∧
        readNetwork x.dante.targetCIDR = some ⟨.v4, [0x0A00, 0], 32⟩ := by
  have hput : (putOffice (lit "10.0.0.0/24")).2.success = true := by decide
  have hkeyed : Keyed (putOffice (lit "10.0.0.0/24")).1 := by
    obtain ⟨-, -, -, -, hkeyed⟩ := putTarget_holds hput
    exact hkeyed oneProfile.keyed
  refine ⟨hput, by decide, ⟨_, rfl, by decide⟩, ⟨_, hkeyed⟩, rfl, ?_⟩
  obtain ⟨c, hc⟩ := compileAll_database plainReader ⟨_, hkeyed⟩
  obtain ⟨row, hlist⟩ : ∃ row, sqlListTargets plainReader (putOffice (lit "10.0.0.0/24")).1 = [row] ∧
      row.publicAlias = lit "office" ∧ row.privateIP = lit "10.0.0.0" ∧ row.vpnProfileID = [1] ∧
      row.enabled = true := ⟨_, rfl, by decide, by decide, rfl, rfl⟩
  obtain ⟨hlist, halias, hip, hprofile, henabled⟩ := hlist
  have hmem : row ∈ sqlListTargets plainReader (putOffice (lit "10.0.0.0/24")).1 := by
    rw [hlist]
    exact List.mem_cons_self
  have hprimary : PrimaryID (putOffice (lit "10.0.0.0/24")).1.tiers row [1] 0 := by
    rw [← hprofile]
    apply PrimaryID.fallback
    · intro r hr
      cases hr
    · rw [hprofile]
      decide
  have hroutes := forAlias_of_primary hc hmem hprimary List.mem_cons_self rfl
  rw [halias, if_pos ⟨henabled, rfl, by decide⟩] at hroutes
  refine ⟨c, _, hc, hroutes, ?_⟩
  change readNetwork row.privateIP = _
  rw [hip]
  decide

end HelixProxy.Api
