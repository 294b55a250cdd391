import HelixProxy.Replay

/-!
# What the rows of a reachable store are like

A row that the handlers have stored is one that they would store again: its texts
fit their columns and are kept whole, its name is not blank, its references are in
the form that the server gives them.
-/

namespace HelixProxy.Store

open Strings Utf8 Upsert Transaction
set_option autoImplicit false

section Texts

theorem segments_flatMap {s : Bytes} (h : WellFormed s) {ps : List (Nat × Bytes)}
    (hps : ∀ p ∈ ps, p ∈ segments s) : segments (ps.flatMap Prod.snd) = ps := by
  induction ps with
  | nil => rfl
  | cons p ps ih =>
    rw [List.forall_mem_cons] at hps
    have hp := segments_of_mem hps.1 (h p hps.1)
    have hwf : WellFormed p.2 := by
      intro q hq
      rw [hp, List.mem_singleton] at hq
      exact hq ▸ h p hps.1
    rw [List.flatMap_cons, segments_append hwf, hp, ih hps.2, List.singleton_append]

theorem segments_assigned {n : Nat} {s : Bytes} (h : WellFormed s) :
    segments (assigned n s) = (segments s).take n :=
  segments_flatMap h fun _ hp => List.mem_of_mem_take hp

/-- The text fits a `varchar(n)` column, which keeps it whole. -/
structure Kept (n : Nat) (s : Bytes) : Prop where
  fits : FitsVarchar n s
  whole : assigned n s = s

theorem kept_assigned {n : Nat} {s : Bytes} (h : FitsVarchar n s) : Kept n (assigned n s) := by
  have hsegments := @segments_assigned n s h.wellFormed
  have hstorable := storable_iff.mp (@storable_assigned n s (storable_iff.mpr ⟨h.wellFormed, h.noNul⟩))
  refine ⟨⟨hstorable.1, hstorable.2, ?_⟩, ?_⟩
  · rw [runes, hsegments, ← List.map_drop, List.drop_take, Nat.sub_self, List.take_zero]
    simp
  · rw [assigned, hsegments, List.take_take, Nat.min_self, assigned]

/-- Cutting off spaces leaves a text that was not blank not blank. -/
theorem trimSpace_assigned {n : Nat} {s : Bytes} (h : FitsVarchar n s)
    (hs : trimSpace s ≠ []) : trimSpace (assigned n s) ≠ [] := by
  intro hblank
  rw [trimSpace_eq_nil_iff] at hblank
  refine hs (trimSpace_eq_nil_iff.mpr fun r hr => ?_)
  rw [← List.take_append_drop n (runes s)] at hr
  rcases List.mem_append.mp hr with hr | hr
  · apply hblank r
    rwa [runes, segments_assigned h.wellFormed, List.map_take]
  · rw [h.length r hr]
    rfl

end Texts

/-- The server has one form for a uuid, takes that form back, and has none for an
empty text. -/
structure UuidText (pg : Server) : Prop where
  empty : pg.uuid [] = none
  canonical : ∀ s u, pg.uuid s = some u → pg.uuid u = some u

section Uuids

variable {pg : Server} (hpg : UuidText pg)
include hpg

theorem UuidText.ne_nil {s u : Bytes} (h : pg.uuid s = some u) : u ≠ [] := by
  rintro rfl
  have hcanonical := hpg.canonical s [] h
  rw [hpg.empty] at hcanonical
  cases hcanonical

theorem UuidText.nullable {s u : Bytes} (h : pg.nullableUUID s = some u) :
    pg.nullableUUID u = some u := by
  unfold Server.nullableUUID at h ⊢
  split
  · next hu => rw [hu]
  · next hu =>
    split at h
    · exact absurd (Option.some.inj h).symm hu
    · exact hpg.canonical s u h

end Uuids

structure StoredProfile (pg : Server) (p : VPNProfile) : Prop where
  id : pg.uuid p.id = some p.id
  name : Kept 255 p.name
  named : trimSpace p.name ≠ []
  config : ∃ given kept, pg.jsonb given = some kept ∧ p.config = .document kept
  secretRef : Kept 255 p.secretRef

structure StoredTarget (pg : Server) (h : TargetHost) : Prop where
  id : pg.uuid h.id = some h.id
  publicAlias : Kept 255 h.publicAlias
  named : trimSpace h.publicAlias ≠ []
  privateIP : ∃ s, pg.inet s = some h.privateIP
  protocol : Kept 10 h.protocol
  vpnProfileID : pg.nullableUUID h.vpnProfileID = some h.vpnProfileID
  healthCheck : Kept 500 h.healthCheck

structure StoredRule (pg : Server) (r : ProxyRule) : Prop where
  id : pg.uuid r.id = some r.id
  priority : FitsInteger r.priority
  matchHost : Kept 255 r.matchHost
  matchPath : Kept 500 r.matchPath
  targetHostID : pg.nullableUUID r.targetHostID = some r.targetHostID

structure StoredTier (pg : Server) (x : TargetTunnelTier) : Prop where
  targetID : pg.uuid x.targetID = some x.targetID
  vpnProfileID : pg.uuid x.vpnProfileID = some x.vpnProfileID
  tier : FitsInteger x.tier

structure StoredUser (pg : Server) (u : ProxyUser) : Prop where
  id : pg.uuid u.id = some u.id
  username : Kept 255 u.username
  named : trimSpace u.username ≠ []
  secretRef : Kept 255 u.secretRef
  role : Kept 50 u.role

structure Stored (pg : Server) (t : Tables) : Prop where
  profiles : ∀ p ∈ t.vpnProfiles, StoredProfile pg p
  targets : ∀ h ∈ t.targetHosts, StoredTarget pg h
  rules : ∀ r ∈ t.proxyRules, StoredRule pg r
  tiers : ∀ x ∈ t.tiers, StoredTier pg x
  users : ∀ u ∈ t.proxyUsers, StoredUser pg u

theorem stored_empty (pg : Server) : Stored pg {} := by
  constructor <;> simp

theorem VPNProfile.stored_config {pg : Server} (v : VPNProfile) (h : (pg.config v.config).isSome) :
    ∃ given kept, pg.jsonb given = some kept ∧ (v.stored pg).config = .document kept := by
  obtain ⟨c, hc⟩ := Option.isSome_iff_exists.mp h
  have hstored : (v.stored pg).config = c := by rw [VPNProfile.stored, hc, Option.getD_some]
  unfold Server.config at hc
  split at hc
  · next given _ =>
    obtain ⟨kept, hkept, rfl⟩ := Option.map_eq_some_iff.mp hc
    exact ⟨given, kept, hkept, hstored⟩
  · cases hc

/-- What the handlers see to before they make the statement. -/
def Statement.Named : Statement → Prop
  | .upsertProfile _ v => trimSpace v.name ≠ []
  | .upsertTarget _ v => trimSpace v.publicAlias ≠ []
  | .upsertUser _ v => trimSpace v.username ≠ []
  | _ => True

section Statements

variable {pg : Server} {newID id : Bytes} {t t' : Tables} (ht : Stored pg t)
include ht

theorem Stored.withAudit (entries : List AuditLogEntry) : Stored pg { t with auditLog := entries } :=
  { ht with }

theorem Stored.upsertProfile {v : VPNProfile} (hnew : pg.uuid newID = some newID)
    (hname : trimSpace v.name ≠ []) (h : sqlUpsertProfile pg newID v t = .ok (t', id)) :
    Stored pg t' := by
  rw [upsertProfile_eq] at h
  obtain ⟨hvalue, hpass⟩ := guarded_eq_ok h
  obtain ⟨rfl, -⟩ := Prod.mk.inj hvalue
  have hrow := (profileChecks_iff pg v).mp fun c hc => hpass c (List.mem_append_left _ hc)
  refine { ht with profiles := upsert_induction ht.profiles fun i hi => ?_ }
  refine ⟨?_, kept_assigned hrow.name, trimSpace_assigned hrow.name hname, ?_,
    kept_assigned hrow.secretRef⟩
  · rcases hi with rfl | ⟨old, hold, rfl⟩
    · exact hnew
    · exact (ht.profiles old hold).id
  · exact v.stored_config hrow.config

theorem Stored.deleteProfile (h : sqlDeleteProfile pg id t = .ok t') : Stored pg t' := by
  obtain ⟨u, -, rfl⟩ := deleteProfile_ok h
  refine { ht with
    profiles := fun p hp => ht.profiles p (List.mem_of_mem_filter hp)
    targets := fun x hx => ?_
    tiers := fun x hx => ht.tiers x (List.mem_of_mem_filter hx) }
  obtain ⟨old, hold, rfl⟩ := List.mem_map.mp hx
  unfold TargetHost.clearProfile
  split
  · exact { ht.targets old hold with vpnProfileID := rfl }
  · exact ht.targets old hold

theorem Stored.upsertTarget (hpg : UuidText pg) {v : TargetHost}
    (hnew : pg.uuid newID = some newID) (hname : trimSpace v.publicAlias ≠ [])
    (h : sqlUpsertTarget pg newID v t = .ok (t', id)) : Stored pg t' := by
  obtain ⟨ip, profile, hip, hprofile⟩ := upsertTarget_inputs h
  rw [upsertTarget_eq hip hprofile] at h
  obtain ⟨hvalue, hpass⟩ := guarded_eq_ok h
  obtain ⟨rfl, -⟩ := Prod.mk.inj hvalue
  have hrow : TargetRow pg v := (targetChecks_iff pg v).mp
    ⟨fun c hc => hpass c (List.mem_append_left _ (List.mem_append_left _ hc)), by simp [hip],
      by simp [hprofile]⟩
  refine { ht with targets := upsert_induction ht.targets fun i hi => ?_ }
  refine ⟨?_, kept_assigned hrow.publicAlias, trimSpace_assigned hrow.publicAlias hname,
    ⟨_, hip⟩, kept_assigned hrow.protocol.1, hpg.nullable hprofile,
    kept_assigned hrow.healthCheck⟩
  rcases hi with rfl | ⟨old, hold, rfl⟩
  · exact hnew
  · exact (ht.targets old hold).id

theorem Stored.deleteTarget (h : sqlDeleteTarget pg id t = .ok t') : Stored pg t' := by
  obtain ⟨u, -, rfl⟩ := deleteTarget_ok h
  exact { ht with
    targets := fun x hx => ht.targets x (List.mem_of_mem_filter hx)
    tiers := fun x hx => ht.tiers x (List.mem_of_mem_filter hx)
    rules := fun r hr => ht.rules r (List.mem_of_mem_filter hr) }

omit ht in
theorem storedRule (hpg : UuidText pg) {v : ProxyRule} {target : Bytes}
    (hid : pg.uuid id = some id) (htarget : pg.nullableUUID v.targetHostID = some target)
    (hrow : RuleRow pg v) : StoredRule pg (v.stored id target) :=
  ⟨hid, hrow.priority, kept_assigned hrow.matchHost, kept_assigned hrow.matchPath,
    hpg.nullable htarget⟩

theorem Stored.insertRule (hpg : UuidText pg) {v : ProxyRule} (hnew : pg.uuid newID = some newID)
    (h : sqlInsertRule pg newID v t = .ok (t', id)) : Stored pg t' := by
  obtain ⟨target, htarget, hpass, -, rfl⟩ := insertRule_ok h
  have hrow := (ruleRow_iff pg htarget).mpr (List.forall_mem_append.mp hpass).1
  exact { ht with
    rules := List.forall_mem_append.mpr
      ⟨ht.rules, List.forall_mem_singleton.mpr (storedRule hpg hnew htarget hrow)⟩ }

theorem Stored.updateRule (hpg : UuidText pg) {v : ProxyRule}
    (h : sqlUpdateRule pg v t = .ok (t', id)) : Stored pg t' := by
  obtain ⟨u, target, hid, htarget, hpass, rfl⟩ := updateRule_replaced h
  have hrow := (ruleRow_iff pg htarget).mpr (List.forall_mem_append.mp hpass).1
  refine { ht with rules := fun r hr => ?_ }
  obtain ⟨old, hold, rfl⟩ := List.mem_map.mp hr
  split
  · exact storedRule hpg (hpg.canonical _ _ hid) htarget hrow
  · exact ht.rules old hold

theorem Stored.deleteRule (h : sqlDeleteRule pg id t = .ok t') : Stored pg t' := by
  obtain ⟨u, -, rfl⟩ := deleteRule_ok h
  exact { ht with rules := fun r hr => ht.rules r (List.mem_of_mem_filter hr) }

theorem Stored.upsertTier (hpg : UuidText pg) {v : TargetTunnelTier}
    (h : sqlUpsertTier pg v t = .ok t') : Stored pg t' := by
  obtain ⟨target, profile, htarget, hprofile⟩ := upsertTier_inputs h
  rw [upsertTier_eq htarget hprofile] at h
  obtain ⟨rfl, hpass⟩ := guarded_eq_ok h
  have hint := (int4_iff v.tier).mp (hpass _ List.mem_cons_self)
  refine { ht with tiers := fun x hx => ?_ }
  rcases of_mem_place hx with rfl | ⟨hx, -⟩
  · exact ⟨hpg.canonical _ _ htarget, hpg.canonical _ _ hprofile, hint⟩
  · exact ht.tiers x hx

theorem Stored.deleteTier {tier : Int} (h : sqlDeleteTier pg id tier t = .ok t') :
    Stored pg t' := by
  obtain ⟨u, -, -, rfl⟩ := deleteTier_ok h
  exact { ht with tiers := fun x hx => ht.tiers x (List.mem_of_mem_filter hx) }

theorem Stored.upsertUser {v : ProxyUser} (hnew : pg.uuid newID = some newID)
    (hname : trimSpace v.username ≠ []) (h : sqlUpsertUser newID v t = .ok (t', id)) :
    Stored pg t' := by
  rw [upsertUser_eq] at h
  obtain ⟨hvalue, hpass⟩ := guarded_eq_ok h
  obtain ⟨rfl, -⟩ := Prod.mk.inj hvalue
  have hrow := (userChecks_iff v).mp fun c hc => hpass c (List.mem_append_left _ hc)
  refine { ht with users := upsert_induction ht.users fun i hi => ?_ }
  refine ⟨?_, kept_assigned hrow.username, trimSpace_assigned hrow.username hname,
    kept_assigned hrow.secretRef.1, kept_assigned hrow.role.1⟩
  rcases hi with rfl | ⟨old, hold, rfl⟩
  · exact hnew
  · exact (ht.users old hold).id

theorem Statement.exec_stored (hpg : UuidText pg) {stmt : Statement} (hnamed : stmt.Named)
    (hnew : ∀ u, stmt.generated = some u → pg.uuid u = some u)
    (h : stmt.exec pg t = .ok (t', id)) : Stored pg t' := by
  cases stmt with
  | upsertProfile newID v => exact ht.upsertProfile (hnew newID rfl) hnamed h
  | deleteProfile id => exact ht.deleteProfile (map_ok_fst h)
  | upsertTarget newID v => exact ht.upsertTarget hpg (hnew newID rfl) hnamed h
  | deleteTarget id => exact ht.deleteTarget (map_ok_fst h)
  | insertRule newID v => exact ht.insertRule hpg (hnew newID rfl) h
  | updateRule v => exact ht.updateRule hpg h
  | deleteRule id => exact ht.deleteRule (map_ok_fst h)
  | upsertTier v => exact ht.upsertTier hpg (map_ok_fst h)
  | deleteTier targetID tier => exact ht.deleteTier (map_ok_fst h)
  | upsertUser newID v => exact ht.upsertUser (hnew newID rfl) hnamed h

end Statements

end HelixProxy.Store

namespace HelixProxy.Api

open Store Transaction
set_option autoImplicit false

/-- A request that succeeds has passed the checks of its handler. -/
theorem Call.named_of_success {env : Env} {call : Call} {t : Tables}
    (hok : (call.serve env t).2.success = true) {stmt : Statement}
    (hstmt : call.statement env = some stmt) : stmt.Named := by
  cases call with
  | putProfile body =>
    cases body with
    | error e => cases hstmt
    | ok d =>
      obtain ⟨type, -, rfl⟩ := Option.map_eq_some_iff.mp hstmt
      intro hblank
      rw [Call.serve, Api.putProfile, if_pos hblank] at hok
      cases hok
  | putTarget body =>
    cases body with
    | error e => cases hstmt
    | ok d =>
      obtain rfl := Option.some.inj hstmt
      intro hblank
      rw [Call.serve, Api.putTarget, if_pos hblank] at hok
      cases hok
  | putRule body =>
    cases body with
    | error e => cases hstmt
    | ok d =>
      obtain rfl := Option.some.inj hstmt
      unfold upsertRule
      dsimp only
      split <;> trivial
  | putTier body =>
    cases body with
    | error e => cases hstmt
    | ok d =>
      obtain rfl := Option.some.inj hstmt
      trivial
  | putUser body =>
    cases body with
    | error e => cases hstmt
    | ok d =>
      obtain rfl := Option.some.inj hstmt
      intro hblank
      rw [Call.serve, Api.putUser, if_pos hblank] at hok
      cases hok
  | deleteProfile id =>
    obtain rfl := Option.some.inj hstmt
    trivial
  | deleteTarget id =>
    obtain rfl := Option.some.inj hstmt
    trivial
  | deleteRule id =>
    obtain rfl := Option.some.inj hstmt
    trivial
  | deleteTier targetID tierText =>
    obtain ⟨tier, -, rfl⟩ := Option.map_eq_some_iff.mp hstmt
    trivial

section Runs

variable {pg : Server} (hpg : UuidText pg)
include hpg

theorem serve_stored {t : Tables} (ht : Stored pg t) {r : Request} (hr : r.env.pg = pg)
    (hnew : pg.uuid r.env.newID = some r.env.newID) : Stored pg (serve t r).1 := by
  rcases serve_served r.env t r.call with ⟨hok, hcommitted⟩ | ⟨-, hsame⟩
  · obtain ⟨stmt, changed, id, detail, hstmt, hexec, -, hafter⟩ := hcommitted
    rw [hr] at hexec
    rw [serve, hafter]
    refine Stored.withAudit (Statement.exec_stored ht hpg (Call.named_of_success hok hstmt) ?_ hexec) _
    intro u hu
    rw [Call.generated_eq hstmt hu]
    exact hnew
  · rw [serve, hsame]
    exact ht

/-- Every store that requests lead to has the schema and rows that can be stored again. -/
theorem final_stored {requests : List Request}
    (hr : ∀ r ∈ requests, r.env.pg = pg ∧ pg.uuid r.env.newID = some r.env.newID) {t : Tables}
    (hschema : Schema t) (ht : Stored pg t) :
    Schema (final serve t requests) ∧ Stored pg (final serve t requests) := by
  induction requests generalizing t with
  | nil => exact ⟨hschema, ht⟩
  | cons r rest ih =>
    obtain ⟨hserver, hnew⟩ := hr r List.mem_cons_self
    have hne : r.env.newID ≠ [] := hpg.ne_nil hnew
    exact ih (fun x hx => hr x (List.mem_cons_of_mem r hx)) (serve_schema hschema hne)
      (serve_stored hpg ht hserver hnew)

end Runs

end HelixProxy.Api
