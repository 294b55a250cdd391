import HelixProxy.SchemaRuns
import HelixProxy.ServeAlike

/-!
# Requests that are sent again

A client that gets no answer sends its request again. Every statement but the
insertion of a rule is idempotent: made again on the tables it has left, by
whatever id the server would have generated, it changes nothing and returns
the same. So a request that succeeded may be repeated.
-/

namespace HelixProxy.Store

open Transaction Upsert
set_option autoImplicit false

/-- The statement with another generated id. -/
def Statement.withID (newID : Bytes) : Statement → Statement
  | .upsertProfile _ v => .upsertProfile newID v
  | .upsertTarget _ v => .upsertTarget newID v
  | .insertRule _ v => .insertRule newID v
  | .upsertUser _ v => .upsertUser newID v
  | stmt => stmt

def Statement.repeatable : Statement → Bool
  | .insertRule .. => false
  | _ => true

theorem guarded_of_pass {α : Type} {checks : List (Bool × SqlError)}
    (h : ∀ c ∈ checks, c.1 = true) (x : α) : guarded checks x = .ok x := by
  have hfind : checks.find? (!·.1) = none := by simpa using h
  rw [guarded, hfind]

/-- The check of a generated id, which is made only for a row that is added. -/
def freshCheck {α : Type} (rows : List α) (found taken : α → Bool) (constraint : Bytes) :
    List (Bool × SqlError) :=
  if (rows.find? found).isSome then [] else [(!rows.any taken, .violates constraint)]

theorem again_of_map {t t' : Tables} {id : Bytes} {f : Tables → Except SqlError Tables}
    (h : (f t).map (·, ([] : Bytes)) = .ok (t', id)) (hagain : f t = .ok t' → f t' = .ok t') :
    (f t').map (·, ([] : Bytes)) = .ok (t', id) := by
  have hft := map_ok_fst h
  rw [hft] at h
  rw [hagain hft]
  exact h

section Statements

variable {pg : Server} {newID id : Bytes} {t t' : Tables}

theorem upsertProfile_eq (pg : Server) (newID : Bytes) (v : VPNProfile) (t : Tables) :
    sqlUpsertProfile pg newID v t =
      guarded (profileChecks pg v ++ freshCheck t.vpnProfiles (·.name = assigned 255 v.name)
          (·.id = newID) (lit "vpn_profiles_pkey"))
        ({ t with vpnProfiles := (upsert (profileRow pg v) newID t.vpnProfiles).1 },
          (upsert (profileRow pg v) newID t.vpnProfiles).2) := by
  unfold sqlUpsertProfile freshCheck VPNProfile.stored
  dsimp only
  cases hfind : t.vpnProfiles.find? (·.name = assigned 255 v.name) with
  | some r =>
    have hrow : upsert (profileRow pg v) newID t.vpnProfiles = _ := upsert_found hfind
    rw [hrow, Option.isSome_some, if_pos rfl, List.append_nil]
    rfl
  | none =>
    have hrow : upsert (profileRow pg v) newID t.vpnProfiles = _ := upsert_added hfind
    rw [hrow]
    rfl

theorem upsertTarget_eq {v : TargetHost} {ip profile : Bytes} (hip : pg.inet v.privateIP = some ip)
    (hprofile : pg.nullableUUID v.vpnProfileID = some profile) (newID : Bytes) (t : Tables) :
    sqlUpsertTarget pg newID v t =
      guarded (targetChecks v ++ [(profile = [] || t.vpnProfiles.any (·.id = profile),
            .violates (lit "target_hosts_vpn_profile_id_fkey"))] ++
          freshCheck t.targetHosts (·.publicAlias = assigned 255 v.publicAlias) (·.id = newID)
            (lit "target_hosts_pkey"))
        ({ t with targetHosts := (upsert (targetRow (v.stored ip profile)) newID t.targetHosts).1 },
          (upsert (targetRow (v.stored ip profile)) newID t.targetHosts).2) := by
  unfold sqlUpsertTarget freshCheck
  rw [hip, hprofile]
  dsimp only
  cases hfind : t.targetHosts.find? (·.publicAlias = assigned 255 v.publicAlias) with
  | some r =>
    have hrow : upsert (targetRow (v.stored ip profile)) newID t.targetHosts = _ := upsert_found hfind
    rw [hrow, Option.isSome_some, if_pos rfl, List.append_nil]
    rfl
  | none =>
    have hrow : upsert (targetRow (v.stored ip profile)) newID t.targetHosts = _ := upsert_added hfind
    rw [hrow]
    rfl

theorem upsertUser_eq (newID : Bytes) (v : ProxyUser) (t : Tables) :
    sqlUpsertUser newID v t =
      guarded (userChecks v ++ freshCheck t.proxyUsers (·.username = assigned 255 v.username)
          (·.id = newID) (lit "proxy_users_pkey"))
        ({ t with proxyUsers := (upsert (userRow v) newID t.proxyUsers).1 },
          (upsert (userRow v) newID t.proxyUsers).2) := by
  unfold sqlUpsertUser freshCheck
  dsimp only
  cases hfind : t.proxyUsers.find? (·.username = assigned 255 v.username) with
  | some r =>
    have hrow : upsert (userRow v) newID t.proxyUsers = _ := upsert_found hfind
    rw [hrow, Option.isSome_some, if_pos rfl, List.append_nil]
    rfl
  | none =>
    have hrow : upsert (userRow v) newID t.proxyUsers = _ := upsert_added hfind
    rw [hrow]
    rfl

/-- No id is generated for a row that is there. -/
theorem freshCheck_of_holds {α : Type} {rows : List α} {found : α → Bool}
    (h : ∃ r ∈ rows, found r = true) (taken : α → Bool) (constraint : Bytes) :
    freshCheck rows found taken constraint = [] := by
  rw [freshCheck, if_pos (List.find?_isSome.mpr h)]

theorem upsertProfile_again {v : VPNProfile} (h : sqlUpsertProfile pg newID v t = .ok (t', id))
    (newID' : Bytes) : sqlUpsertProfile pg newID' v t' = .ok (t', id) := by
  rw [upsertProfile_eq] at h
  obtain ⟨hvalue, hpass⟩ := guarded_eq_ok h
  obtain ⟨rfl, rfl⟩ := Prod.mk.inj hvalue
  obtain ⟨r, hr, hkey⟩ := @upsert_holds _ _ _ _ _ _ (profileRow pg v) newID t.vpnProfiles
  rw [upsertProfile_eq, freshCheck_of_holds ⟨r, hr, decide_eq_true hkey⟩, upsert_upsert,
    List.append_nil]
  exact guarded_of_pass (fun c hc => hpass c (List.mem_append_left _ hc)) _

theorem upsertUser_again {v : ProxyUser} (h : sqlUpsertUser newID v t = .ok (t', id))
    (newID' : Bytes) : sqlUpsertUser newID' v t' = .ok (t', id) := by
  rw [upsertUser_eq] at h
  obtain ⟨hvalue, hpass⟩ := guarded_eq_ok h
  obtain ⟨rfl, rfl⟩ := Prod.mk.inj hvalue
  obtain ⟨r, hr, hkey⟩ := @upsert_holds _ _ _ _ _ _ (userRow v) newID t.proxyUsers
  rw [upsertUser_eq, freshCheck_of_holds ⟨r, hr, decide_eq_true hkey⟩, upsert_upsert,
    List.append_nil]
  exact guarded_of_pass (fun c hc => hpass c (List.mem_append_left _ hc)) _

/-- A statement that succeeds has read the columns with a type of their own. -/
theorem upsertTarget_inputs {v : TargetHost} {out : Tables × Bytes}
    (h : sqlUpsertTarget pg newID v t = .ok out) :
    ∃ ip profile, pg.inet v.privateIP = some ip ∧ pg.nullableUUID v.vpnProfileID = some profile := by
  unfold sqlUpsertTarget at h
  split at h
  · cases h
  · cases h
  · next ip profile hip hprofile => exact ⟨ip, profile, hip, hprofile⟩

theorem upsertTarget_again {v : TargetHost} (h : sqlUpsertTarget pg newID v t = .ok (t', id))
    (newID' : Bytes) : sqlUpsertTarget pg newID' v t' = .ok (t', id) := by
  obtain ⟨ip, profile, hip, hprofile⟩ := upsertTarget_inputs h
  rw [upsertTarget_eq hip hprofile] at h
  obtain ⟨hvalue, hpass⟩ := guarded_eq_ok h
  obtain ⟨rfl, rfl⟩ := Prod.mk.inj hvalue
  obtain ⟨r, hr, hkey⟩ :=
    @upsert_holds _ _ _ _ _ _ (targetRow (v.stored ip profile)) newID t.targetHosts
  rw [upsertTarget_eq hip hprofile, freshCheck_of_holds ⟨r, hr, decide_eq_true hkey⟩,
    upsert_upsert, List.append_nil]
  exact guarded_of_pass (fun c hc => hpass c (List.mem_append_left _ hc)) _

theorem updateRule_again {v : ProxyRule} (h : sqlUpdateRule pg v t = .ok (t', id)) :
    sqlUpdateRule pg v t' = .ok (t', id) := by
  unfold sqlUpdateRule at h ⊢
  split at h
  · cases h
  · cases h
  · next u target hid htarget =>
    obtain ⟨hvalue, hpass⟩ := guarded_eq_ok h
    obtain ⟨rfl, rfl⟩ := Prod.mk.inj hvalue
    simp only [List.forall_mem_append] at hpass
    obtain ⟨⟨⟨hinputs, hfound⟩, hchecks⟩, href⟩ := hpass
    have htwice : ∀ r : ProxyRule, (if (if r.id = u then v.stored u target else r).id = u then
        v.stored u target else if r.id = u then v.stored u target else r) =
          if r.id = u then v.stored u target else r := by
      intro r
      by_cases hr : r.id = u <;> simp [hr]
    have hagain : (t.proxyRules.map fun r => if r.id = u then v.stored u target else r).any
        (·.id = u) = true := by
      obtain ⟨r, hr, hru⟩ := List.any_eq_true.mp (hfound _ List.mem_cons_self)
      refine List.any_eq_true.mpr ⟨_, List.mem_map_of_mem hr, ?_⟩
      rw [if_pos (of_decide_eq_true hru)]
      exact decide_eq_true rfl
    rw [guarded_of_pass]
    · simp only [List.map_map, Function.comp_def, htwice]
    · simp only [List.forall_mem_append]
      exact ⟨⟨⟨hinputs, List.forall_mem_singleton.mpr hagain⟩, hchecks⟩, href⟩

def tierSlot (target : Bytes) (tier : Int) (x : TargetTunnelTier) : Bool :=
  x.targetID = target && x.tier = tier

theorem upsertTier_eq {v : TargetTunnelTier} {target profile : Bytes}
    (htarget : pg.uuid v.targetID = some target) (hprofile : pg.uuid v.vpnProfileID = some profile)
    (t : Tables) : sqlUpsertTier pg v t =
      guarded [(int4 v.tier, .outOfRange (lit "tier")),
          (0 ≤ v.tier, .violates (lit "target_tunnel_tiers_tier_chk")),
          (t.targetHosts.any (·.id = target),
            .violates (lit "target_tunnel_tiers_target_host_id_fkey")),
          (t.vpnProfiles.any (·.id = profile),
            .violates (lit "target_tunnel_tiers_vpn_profile_id_fkey")),
          (!t.tiers.any fun x => x.targetID = target && x.vpnProfileID = profile &&
            !tierSlot target v.tier x, .violates (lit "target_tunnel_tiers_unique_profile"))]
        { t with tiers := place (tierSlot target v.tier) ⟨target, profile, v.tier⟩ t.tiers } := by
  unfold sqlUpsertTier
  rw [htarget, hprofile]
  rfl

theorem upsertTier_inputs {v : TargetTunnelTier} (h : sqlUpsertTier pg v t = .ok t') :
    ∃ target profile, pg.uuid v.targetID = some target ∧
      pg.uuid v.vpnProfileID = some profile := by
  unfold sqlUpsertTier at h
  split at h
  · cases h
  · cases h
  · next target profile htarget hprofile => exact ⟨target, profile, htarget, hprofile⟩

theorem upsertTier_again {v : TargetTunnelTier} (h : sqlUpsertTier pg v t = .ok t') :
    sqlUpsertTier pg v t' = .ok t' := by
  obtain ⟨target, profile, htarget, hprofile⟩ := upsertTier_inputs h
  rw [upsertTier_eq htarget hprofile] at h
  obtain ⟨rfl, hpass⟩ := guarded_eq_ok h
  have hslot : tierSlot target v.tier ⟨target, profile, v.tier⟩ = true := by simp [tierSlot]
  rw [upsertTier_eq htarget hprofile, place_place hslot, guarded_of_pass]
  simp only [List.forall_mem_cons] at hpass ⊢
  obtain ⟨hint, hnonneg, htargetRef, hprofileRef, hunique, -⟩ := hpass
  refine ⟨hint, hnonneg, htargetRef, hprofileRef, ?_, by simp⟩
  simp only [Bool.not_eq_true', List.any_eq_false] at hunique ⊢
  intro x hx
  rcases of_mem_place hx with rfl | ⟨hx, -⟩
  · simp [hslot]
  · exact hunique x hx

theorem deleteProfile_again (h : sqlDeleteProfile pg id t = .ok t') :
    sqlDeleteProfile pg id t' = .ok t' := by
  obtain ⟨u, hid, rfl⟩ := deleteProfile_ok h
  have hcleared : ∀ x : TargetHost, (x.clearProfile u).clearProfile u = x.clearProfile u := by
    intro x
    unfold TargetHost.clearProfile
    by_cases hx : x.vpnProfileID = u
    · rw [if_pos hx]
      split <;> rfl
    · rw [if_neg hx, if_neg hx]
  rw [sqlDeleteProfile_eq hid]
  simp only [Tables.withoutProfile, List.filter_filter, Bool.and_self, List.map_map,
    Function.comp_def, hcleared]

theorem deleteTarget_again (h : sqlDeleteTarget pg id t = .ok t') :
    sqlDeleteTarget pg id t' = .ok t' := by
  obtain ⟨u, hid, rfl⟩ := deleteTarget_ok h
  simp only [sqlDeleteTarget, hid, Tables.withoutTarget, List.filter_filter, Bool.and_self]

theorem deleteRule_again (h : sqlDeleteRule pg id t = .ok t') :
    sqlDeleteRule pg id t' = .ok t' := by
  obtain ⟨u, hid, rfl⟩ := deleteRule_ok h
  simp only [sqlDeleteRule, hid, List.filter_filter, Bool.and_self]

theorem deleteTier_again {tier : Int} (h : sqlDeleteTier pg id tier t = .ok t') :
    sqlDeleteTier pg id tier t' = .ok t' := by
  obtain ⟨u, hid, hint, rfl⟩ := deleteTier_ok h
  rw [sqlDeleteTier, hid]
  dsimp only
  rw [guarded_of_pass (List.forall_mem_singleton.mpr hint)]
  simp only [List.filter_filter, Bool.and_self]

/-- What a statement has done, it does not do a second time. -/
theorem Statement.exec_again {stmt : Statement} (hs : stmt.repeatable = true)
    (h : stmt.exec pg t = .ok (t', id)) (newID' : Bytes) :
    (stmt.withID newID').exec pg t' = .ok (t', id) := by
  cases stmt with
  | upsertProfile _ v => exact upsertProfile_again h newID'
  | upsertTarget _ v => exact upsertTarget_again h newID'
  | upsertUser _ v => exact upsertUser_again h newID'
  | updateRule v => exact updateRule_again h
  | insertRule => cases hs
  | deleteProfile u => exact again_of_map h deleteProfile_again
  | deleteTarget u => exact again_of_map h deleteTarget_again
  | deleteRule u => exact again_of_map h deleteRule_again
  | upsertTier v => exact again_of_map h upsertTier_again
  | deleteTier targetID tier => exact again_of_map h deleteTier_again

end Statements

/-- The tables are the same but for the audit log. -/
def SameEntities (t u : Tables) : Prop := ∃ l, u = { t with auditLog := l }

section Entities

variable {pg : Server} {t u v : Tables}

theorem SameEntities.refl (t : Tables) : SameEntities t t := ⟨t.auditLog, rfl⟩

theorem SameEntities.symm (h : SameEntities t u) : SameEntities u t := by
  obtain ⟨l, rfl⟩ := h
  exact ⟨t.auditLog, rfl⟩

theorem SameEntities.trans (h : SameEntities t u) (h' : SameEntities u v) : SameEntities t v := by
  obtain ⟨l, rfl⟩ := h
  obtain ⟨m, rfl⟩ := h'
  exact ⟨m, rfl⟩

theorem alike_guarded (h : SameEntities t u) (checks : List (Bool × SqlError)) (id : Bytes) :
    Alike SameEntities (guarded checks (t, id)) (guarded checks (u, id)) := by
  unfold guarded
  split
  · exact .error _
  · exact .ok id h

/-- No statement reads the audit log. -/
theorem Statement.exec_entities (h : SameEntities t u) (stmt : Statement) :
    Alike SameEntities (stmt.exec pg t) (stmt.exec pg u) := by
  obtain ⟨l, rfl⟩ := h
  cases stmt with
  | upsertProfile newID v =>
    simp only [exec, sqlUpsertProfile]
    split
    · exact alike_guarded ⟨l, rfl⟩ _ _
    · exact alike_guarded ⟨l, rfl⟩ _ _
  | deleteProfile id =>
    simp only [exec, sqlDeleteProfile]
    split
    · exact .error _
    · exact .ok [] ⟨l, rfl⟩
  | upsertTarget newID v =>
    simp only [exec, sqlUpsertTarget]
    split
    · exact .error _
    · exact .error _
    · split
      · exact alike_guarded ⟨l, rfl⟩ _ _
      · exact alike_guarded ⟨l, rfl⟩ _ _
  | deleteTarget id =>
    simp only [exec, sqlDeleteTarget]
    split
    · exact .error _
    · exact .ok [] ⟨l, rfl⟩
  | insertRule newID v =>
    simp only [exec, sqlInsertRule]
    split
    · exact .error _
    · exact alike_guarded ⟨l, rfl⟩ _ _
  | updateRule v =>
    simp only [exec, sqlUpdateRule]
    split
    · exact .error _
    · exact .error _
    · exact alike_guarded ⟨l, rfl⟩ _ _
  | deleteRule id =>
    simp only [exec, sqlDeleteRule]
    split
    · exact .error _
    · exact .ok [] ⟨l, rfl⟩
  | upsertTier v =>
    simp only [exec, sqlUpsertTier]
    split
    · exact .error _
    · exact .error _
    · rw [guarded_map, guarded_map]
      exact alike_guarded ⟨l, rfl⟩ _ _
  | deleteTier targetID tier =>
    simp only [exec, sqlDeleteTier]
    split
    · exact .error _
    · rw [guarded_map, guarded_map]
      exact alike_guarded ⟨l, rfl⟩ _ _
  | upsertUser newID v =>
    simp only [exec, sqlUpsertUser]
    split
    · exact alike_guarded ⟨l, rfl⟩ _ _
    · exact alike_guarded ⟨l, rfl⟩ _ _

end Entities

end HelixProxy.Store

namespace HelixProxy.Api

open Store Transaction
set_option autoImplicit false

/-- Every request but the put of a rule without an id. -/
def Call.repeatable : Call → Bool
  | .putRule (.ok d) => d.id ≠ []
  | _ => true

theorem ignoresAudit_entities : IgnoresAudit SameEntities := by
  intro t u l m h
  obtain ⟨l', rfl⟩ := h
  exact ⟨m, rfl⟩

theorem serve_entities {t u : Tables} (h : SameEntities t u) (r : Request) :
    SameEntities (serve t r).1 (serve u r).1 ∧ (serve t r).2 = (serve u r).2 :=
  Call.serve_alike ignoresAudit_entities h fun stmt _ => Statement.exec_entities h stmt

theorem Call.statement_again {env env' : Env} {call : Call} (hr : call.repeatable = true)
    {stmt stmt' : Statement} (h : call.statement env = some stmt)
    (h' : call.statement env' = some stmt') :
    stmt' = stmt.withID env'.newID ∧ stmt.repeatable = true := by
  cases call with
  | putProfile body =>
    cases body with
    | error e => cases h
    | ok d =>
      obtain ⟨type, htype, rfl⟩ := Option.map_eq_some_iff.mp h
      obtain ⟨type', htype', rfl⟩ := Option.map_eq_some_iff.mp h'
      obtain rfl := Option.some.inj (htype.symm.trans htype')
      exact ⟨rfl, rfl⟩
  | putRule body =>
    cases body with
    | error e => cases h
    | ok d =>
      obtain rfl := Option.some.inj h
      obtain rfl := Option.some.inj h'
      have hid : d.id ≠ [] := of_decide_eq_true hr
      have hupdate : ∀ e : Env, upsertRule e d = .updateRule
          ⟨d.id, d.priority, d.matchHost, d.matchPath, d.targetHostID, d.enabled⟩ :=
        fun e => if_pos hid
      rw [hupdate, hupdate]
      exact ⟨rfl, rfl⟩
  | deleteTier targetID tierText =>
    obtain ⟨tier, htier, rfl⟩ := Option.map_eq_some_iff.mp h
    obtain ⟨tier', htier', rfl⟩ := Option.map_eq_some_iff.mp h'
    obtain rfl := Option.some.inj (htier.symm.trans htier')
    exact ⟨rfl, rfl⟩
  | putTarget body =>
    cases body with
    | error e => cases h
    | ok d =>
      obtain rfl := Option.some.inj h
      obtain rfl := Option.some.inj h'
      exact ⟨rfl, rfl⟩
  | putTier body =>
    cases body with
    | error e => cases h
    | ok d =>
      obtain rfl := Option.some.inj h
      obtain rfl := Option.some.inj h'
      exact ⟨rfl, rfl⟩
  | putUser body =>
    cases body with
    | error e => cases h
    | ok d =>
      obtain rfl := Option.some.inj h
      obtain rfl := Option.some.inj h'
      exact ⟨rfl, rfl⟩
  | deleteProfile id =>
    obtain rfl := Option.some.inj h
    obtain rfl := Option.some.inj h'
    exact ⟨rfl, rfl⟩
  | deleteTarget id =>
    obtain rfl := Option.some.inj h
    obtain rfl := Option.some.inj h'
    exact ⟨rfl, rfl⟩
  | deleteRule id =>
    obtain rfl := Option.some.inj h
    obtain rfl := Option.some.inj h'
    exact ⟨rfl, rfl⟩

theorem committed_of_success {env : Env} {call : Call} {t : Tables}
    (hok : (call.serve env t).2.success = true) : Committed env call t (call.serve env t).1 := by
  rcases serve_served env t call with ⟨-, hcommitted⟩ | ⟨hfail, -⟩
  · exact hcommitted
  · simp only [Response.success, Response.failure, Bool.and_eq_true, decide_eq_true_eq] at hok hfail
    omega

/-- A request that has been answered with success changes nothing when it is served
again, whether or not it succeeds then. -/
theorem serve_again {t : Tables} {r : Request} (hr : r.call.repeatable = true)
    (hok : (serve t r).2.success = true) {env : Env} (hpg : env.pg = r.env.pg) :
    SameEntities (serve (serve t r).1 ⟨env, r.call⟩).1 (serve t r).1 := by
  obtain ⟨stmt, changed, id, detail, hstmt, hexec, -, hafter⟩ := committed_of_success hok
  have hsame : SameEntities (serve t r).1 changed := ⟨changed.auditLog, by rw [serve, hafter]⟩
  rcases serve_served env (serve t r).1 r.call with ⟨-, hcommitted⟩ | ⟨-, hunchanged⟩
  · obtain ⟨stmt', changed', id', detail', hstmt', hexec', -, hafter'⟩ := hcommitted
    obtain ⟨rfl, hrepeat⟩ := Call.statement_again hr hstmt hstmt'
    have hagain := Statement.exec_again hrepeat hexec env.newID
    have halike := @Statement.exec_entities env.pg _ _ hsame (stmt.withID env.newID)
    rw [hexec', hpg, hagain] at halike
    cases halike with
    | ok _ hchanged =>
      have hlogged : SameEntities (serve (serve t r).1 ⟨env, r.call⟩).1 changed' :=
        ⟨changed'.auditLog, by rw [serve, hafter']⟩
      exact hlogged.trans (hchanged.trans hsame.symm)
  · rw [serve, hunchanged]
    exact .refl _

/-- A request and the environments of its repetitions. -/
structure Sending where
  request : Request
  repeats : List Env

def Sending.delivered (s : Sending) : List Request :=
  s.request :: s.repeats.map (⟨·, s.request.call⟩)

theorem repeats_same {t u : Tables} {r : Request} (hr : r.call.repeatable = true)
    (hok : (serve t r).2.success = true) (envs : List Env) (hpg : ∀ env ∈ envs, env.pg = r.env.pg)
    (hu : SameEntities u (serve t r).1) :
    SameEntities (final serve u (envs.map (⟨·, r.call⟩))) (serve t r).1 := by
  induction envs generalizing u with
  | nil => exact hu
  | cons env rest ih =>
    refine ih (fun e he => hpg e (List.mem_cons_of_mem env he)) ?_
    have hstep := (serve_entities hu ⟨env, r.call⟩).1
    exact hstep.trans (serve_again hr hok (hpg env List.mem_cons_self))

theorem final_append (t : Tables) (as bs : List Request) :
    final serve t (as ++ bs) = final serve (final serve t as) bs := List.foldl_append

theorem retries_same {t u : Tables} (h : SameEntities u t) {sendings : List Sending}
    (hpg : ∀ s ∈ sendings, ∀ env ∈ s.repeats, env.pg = s.request.env.pg)
    (hrepeat : ∀ s ∈ sendings, s.repeats ≠ [] → s.request.call.repeatable = true)
    (hok : ∀ x ∈ exchanges serve t (sendings.map Sending.request), x.answer.success = true) :
    SameEntities (final serve u (sendings.flatMap Sending.delivered))
      (final serve t (sendings.map Sending.request)) := by
  induction sendings generalizing t u with
  | nil => exact h
  | cons s rest ih =>
    have hfirst : (serve t s.request).2.success = true := hok _ List.mem_cons_self
    have hstep : SameEntities (serve u s.request).1 (serve t s.request).1 :=
      (serve_entities h s.request).1
    have hdelivered : SameEntities (final serve u s.delivered) (serve t s.request).1 := by
      cases hs : s.repeats with
      | nil =>
        rw [Sending.delivered, hs]
        exact hstep
      | cons env more =>
        have hkind := hrepeat s List.mem_cons_self (by simp [hs])
        exact repeats_same hkind hfirst s.repeats (hpg s List.mem_cons_self) hstep
    rw [List.flatMap_cons, final_append]
    exact ih hdelivered (fun x hx => hpg x (List.mem_cons_of_mem s hx))
      (fun x hx => hrepeat x (List.mem_cons_of_mem s hx))
      fun x hx => hok x (List.mem_cons_of_mem _ hx)

/-- However often the requests of a run are sent again once they were answered with
success, with whatever faults and generated ids, the tables end up as in the run
without repetitions; only the audit log shows them. -/
theorem retries_harmless (t : Tables) (sendings : List Sending)
    (hpg : ∀ s ∈ sendings, ∀ env ∈ s.repeats, env.pg = s.request.env.pg)
    (hrepeat : ∀ s ∈ sendings, s.repeats ≠ [] → s.request.call.repeatable = true)
    (hok : ∀ x ∈ exchanges serve t (sendings.map Sending.request), x.answer.success = true) :
    SameEntities (final serve t (sendings.flatMap Sending.delivered))
      (final serve t (sendings.map Sending.request)) :=
  retries_same (.refl t) hpg hrepeat hok

/-- The target is put three times, the second time with a failing commit. -/
def officeSendings : List Sending :=
  [⟨⟨{ pg := lenient, newID := lit "p1" },
      .putProfile (.ok { name := lit "office", enabled := true })⟩, []⟩,
   ⟨⟨{ pg := lenient, newID := lit "t1" },
      .putTarget (.ok {
        publicAlias := lit "crm", privateIP := lit "10.8.0.4", vpnProfileID := lit "p1"
        enabled := true })⟩,
    [{ pg := lenient, newID := lit "t2", commitFault := some (lit "lost") },
      { pg := lenient, newID := lit "t3" }]⟩]

theorem retries_harmless_office :
    SameEntities (final serve {} (officeSendings.flatMap Sending.delivered))
      (final serve {} (officeSendings.map Sending.request)) := by
  refine retries_harmless {} officeSendings ?_ ?_ ?_
  · simp [officeSendings]
  · simp [officeSendings, Call.repeatable]
  · have hanswers : (exchanges serve {} (officeSendings.map Sending.request)).map
        (fun x => x.answer.success) = [true, true] := rfl
    intro x hx
    have hmem : x.answer.success ∈ [true, true] := hanswers ▸ List.mem_map_of_mem hx
    simpa using hmem

end HelixProxy.Api
