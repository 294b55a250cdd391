import HelixProxy.Library.Upsert
import HelixProxy.ProfileDeletion
import HelixProxy.PutValidation
import HelixProxy.RowConstraints
import HelixProxy.TargetNetworks

/-!
# The schema holds in every reachable store

Keys, foreign keys and CHECK constraints of `sql/schema.sql` over whole runs of
the control API. Each statement is shown to keep them once; the handlers reach
the tables through these statements only.
-/

namespace HelixProxy.Store

open Upsert (Applied)
set_option autoImplicit false

/-- The constraints of the schema across all five entity tables. -/
structure Schema (t : Tables) : Prop where
  keyed : Keyed t
  rule_ids : (t.proxyRules.map ProxyRule.id).Nodup
  rule_target : ∀ r ∈ t.proxyRules, r.targetHostID = [] ∨ ∃ h ∈ t.targetHosts, h.id = r.targetHostID
  user_ids : (t.proxyUsers.map ProxyUser.id).Nodup
  usernames : (t.proxyUsers.map ProxyUser.username).Nodup
  port_chk : ∀ h ∈ t.targetHosts, 1 ≤ h.port ∧ h.port ≤ 65535
  protocol_chk : ∀ h ∈ t.targetHosts, h.protocol ∈ protocols
  tier_chk : ∀ r ∈ t.tiers, 0 ≤ r.tier
  match_present_chk : ∀ r ∈ t.proxyRules, r.matchHost ≠ [] ∨ r.matchPath ≠ []
  role_chk : ∀ u ∈ t.proxyUsers, u.role ∈ roles
  secret_ref_chk : ∀ u ∈ t.proxyUsers, ∃ b ∈ u.secretRef, b ≠ space

def profileRow (pg : Server) (v : VPNProfile) : Upsert.Row VPNProfile.name VPNProfile.id where
  put i := { v.stored pg with id := i }
  naturalKey := assigned 255 v.name
  key_put _ := rfl
  ident_put _ := rfl

def targetRow (v : TargetHost) : Upsert.Row TargetHost.publicAlias TargetHost.id where
  put i := { v with id := i }
  naturalKey := v.publicAlias
  key_put _ := rfl
  ident_put _ := rfl

def userRow (v : ProxyUser) : Upsert.Row ProxyUser.username ProxyUser.id where
  put i := { v with
    id := i, username := assigned 255 v.username, secretRef := assigned 255 v.secretRef
    role := assigned 50 v.role }
  naturalKey := assigned 255 v.username
  key_put _ := rfl
  ident_put _ := rfl

def Tables.withoutTarget (u : Bytes) (t : Tables) : Tables :=
  { t with
    targetHosts := t.targetHosts.filter (·.id ≠ u)
    tiers := t.tiers.filter (·.targetID ≠ u)
    proxyRules := t.proxyRules.filter (·.targetHostID ≠ u) }

section Statements

variable {pg : Server} {newID id : Bytes} {t t' : Tables}

theorem not_any_of_check {α : Type} {l : List α} {p : α → Bool} (h : (!l.any p) = true) :
    ∀ x ∈ l, ¬p x = true := by
  simpa using h

theorem upsertProfile_ok {v : VPNProfile} (h : sqlUpsertProfile pg newID v t = .ok (t', id)) :
    ∃ rows, t' = { t with vpnProfiles := rows } ∧
      Applied (profileRow pg v) newID t.vpnProfiles rows := by
  unfold sqlUpsertProfile at h
  dsimp only at h
  split at h
  · next row hfind =>
    obtain ⟨rfl, rfl⟩ := Prod.mk.inj (guarded_eq_ok h).1
    refine ⟨_, rfl, .replaced ⟨row, List.mem_of_find?_eq_some hfind, ?_⟩⟩
    have hname := List.find?_some hfind
    exact of_decide_eq_true hname
  · next hfind =>
    obtain ⟨hvalue, hpass⟩ := guarded_eq_ok h
    obtain ⟨rfl, rfl⟩ := Prod.mk.inj hvalue
    have hfresh := not_any_of_check (hpass _ (List.mem_append_right _ List.mem_cons_self))
    refine ⟨_, rfl, .added fun r hr => ⟨?_, ?_⟩⟩
    · exact fun hname => List.find?_eq_none.mp hfind r hr (decide_eq_true hname)
    · exact fun hid => hfresh r hr (decide_eq_true hid)

theorem upsertUser_ok {v : ProxyUser} (h : sqlUpsertUser newID v t = .ok (t', id)) :
    (∀ c ∈ userChecks v, c.1 = true) ∧ ∃ rows, t' = { t with proxyUsers := rows } ∧
      Applied (userRow v) newID t.proxyUsers rows := by
  unfold sqlUpsertUser at h
  dsimp only at h
  split at h
  · next row hfind =>
    obtain ⟨hvalue, hpass⟩ := guarded_eq_ok h
    obtain ⟨rfl, rfl⟩ := Prod.mk.inj hvalue
    refine ⟨hpass, _, rfl, .replaced ⟨row, List.mem_of_find?_eq_some hfind, ?_⟩⟩
    have hname := List.find?_some hfind
    exact of_decide_eq_true hname
  · next hfind =>
    obtain ⟨hvalue, hpass⟩ := guarded_eq_ok h
    obtain ⟨rfl, rfl⟩ := Prod.mk.inj hvalue
    have hfresh := not_any_of_check (hpass _ (List.mem_append_right _ List.mem_cons_self))
    refine ⟨fun c hc => hpass c (List.mem_append_left _ hc), _, rfl, .added fun r hr => ⟨?_, ?_⟩⟩
    · exact fun hname => List.find?_eq_none.mp hfind r hr (decide_eq_true hname)
    · exact fun hid => hfresh r hr (decide_eq_true hid)

theorem Upserted.applied {row : TargetHost} (h : Upserted newID row t t') :
    ∃ rows, t' = { t with targetHosts := rows } ∧
      Applied (targetRow row) newID t.targetHosts rows := by
  cases h with
  | replaced hfound => exact ⟨_, rfl, .replaced hfound⟩
  | added hnew => exact ⟨_, rfl, .added hnew⟩

/-- What `sqlUpsertTarget` has checked of the row it stores. -/
theorem upsertTarget_checked {v : TargetHost} (h : sqlUpsertTarget pg newID v t = .ok (t', id)) :
    (1 ≤ v.port ∧ v.port ≤ 65535) ∧ assigned 10 v.protocol ∈ protocols := by
  have hchecks : ∀ c ∈ targetChecks v, c.1 = true := by
    unfold sqlUpsertTarget at h
    split at h
    · cases h
    · cases h
    · dsimp only at h
      split at h
      · exact fun c hc => (guarded_eq_ok h).2 c (List.mem_append_left _ hc)
      · exact fun c hc => (guarded_eq_ok h).2 c
          (List.mem_append_left _ (List.mem_append_left _ hc))
  simp only [targetChecks, List.forall_mem_append, List.forall_mem_cons] at hchecks
  have hport := hchecks.1.1.1.2.2.1
  have hproto := hchecks.1.2.1
  exact ⟨of_decide_eq_true hport, List.contains_iff_mem.mp hproto⟩

theorem deleteProfile_ok (h : sqlDeleteProfile pg id t = .ok t') :
    ∃ u, pg.uuid id = some u ∧ t' = t.withoutProfile u := by
  unfold sqlDeleteProfile at h
  split at h
  · cases h
  · next u hid => exact ⟨u, hid, (Except.ok.inj h).symm⟩

theorem deleteTarget_ok (h : sqlDeleteTarget pg id t = .ok t') :
    ∃ u, pg.uuid id = some u ∧ t' = t.withoutTarget u := by
  unfold sqlDeleteTarget at h
  split at h
  · cases h
  · next u hid => exact ⟨u, hid, (Except.ok.inj h).symm⟩

theorem insertRule_ok {v : ProxyRule} (h : sqlInsertRule pg newID v t = .ok (t', id)) :
    ∃ target, pg.nullableUUID v.targetHostID = some target ∧
      (∀ c ∈ ruleInputs v ++ ruleChecks v ++ ruleTarget target t, c.1 = true) ∧
      (∀ r ∈ t.proxyRules, r.id ≠ newID) ∧
      t' = { t with proxyRules := t.proxyRules ++ [v.stored newID target] } := by
  unfold sqlInsertRule at h
  split at h
  · cases h
  · next target htarget =>
    obtain ⟨hvalue, hpass⟩ := guarded_eq_ok h
    obtain ⟨hchecks, hfresh⟩ := List.forall_mem_append.mp hpass
    refine ⟨target, htarget, hchecks, fun r hr hid => ?_, (Prod.mk.inj hvalue).1.symm⟩
    exact not_any_of_check (hfresh _ List.mem_cons_self) r hr (decide_eq_true hid)

theorem updateRule_replaced {v : ProxyRule} (h : sqlUpdateRule pg v t = .ok (t', id)) :
    ∃ u target, pg.uuid v.id = some u ∧ pg.nullableUUID v.targetHostID = some target ∧
      (∀ c ∈ ruleInputs v ++ ruleChecks v ++ ruleTarget target t, c.1 = true) ∧
      t' = { t with proxyRules := t.proxyRules.map fun r =>
        if r.id = u then v.stored u target else r } := by
  unfold sqlUpdateRule at h
  split at h
  · cases h
  · cases h
  · next u target hid htarget =>
    obtain ⟨hvalue, hpass⟩ := guarded_eq_ok h
    refine ⟨u, target, hid, htarget, ?_, (Prod.mk.inj hvalue).1.symm⟩
    simp only [List.forall_mem_append] at hpass ⊢
    exact ⟨⟨hpass.1.1.1, hpass.1.2⟩, hpass.2⟩

theorem deleteRule_ok (h : sqlDeleteRule pg id t = .ok t') :
    ∃ u, pg.uuid id = some u ∧
      t' = { t with proxyRules := t.proxyRules.filter (·.id ≠ u) } := by
  unfold sqlDeleteRule at h
  split at h
  · cases h
  · next u hid => exact ⟨u, hid, (Except.ok.inj h).symm⟩

theorem upsertTier_ok {v : TargetTunnelTier} (h : sqlUpsertTier pg v t = .ok t') :
    ∃ target profile, 0 ≤ v.tier ∧ (∃ x ∈ t.targetHosts, x.id = target) ∧
      (∃ p ∈ t.vpnProfiles, p.id = profile) ∧
      (∀ x ∈ t.tiers, x.targetID = target → x.vpnProfileID = profile → x.tier = v.tier) ∧
      t' = { t with tiers :=
        if t.tiers.any fun x => x.targetID = target && x.tier = v.tier then
          t.tiers.map fun x => if x.targetID = target ∧ x.tier = v.tier then
            ⟨target, profile, v.tier⟩ else x
        else t.tiers ++ [⟨target, profile, v.tier⟩] } := by
  unfold sqlUpsertTier at h
  split at h
  · cases h
  · cases h
  · next target profile _ _ =>
    obtain ⟨rfl, hpass⟩ := guarded_eq_ok h
    simp only [List.forall_mem_cons, decide_eq_true_eq, List.any_eq_true, Bool.not_eq_true',
      List.any_eq_false, Bool.and_eq_true, not_and] at hpass
    obtain ⟨-, htier, htarget, hprofile, hother, -⟩ := hpass
    refine ⟨target, profile, htier, htarget, hprofile, ?_, ?_⟩
    · intro x hx hxt hxp
      have hslot := hother x hx ⟨hxt, hxp⟩
      simpa [hxt] using hslot
    · simp

theorem deleteTier_ok {tier : Int} (h : sqlDeleteTier pg id tier t = .ok t') :
    ∃ u, pg.uuid id = some u ∧ int4 tier = true ∧
      t' = { t with tiers := t.tiers.filter fun x => !(x.targetID = u && x.tier = tier) } := by
  unfold sqlDeleteTier at h
  split at h
  · cases h
  · next u hid =>
    obtain ⟨hvalue, hpass⟩ := guarded_eq_ok h
    exact ⟨u, hid, hpass _ List.mem_cons_self, hvalue.symm⟩

end Statements

section Keys

variable {t : Tables}

theorem Keyed.withProfiles (ht : Keyed t) {pg : Server} {v : VPNProfile} {newID : Bytes} (hnew : newID ≠ [])
    {rows : List VPNProfile} (h : Applied (profileRow pg v) newID t.vpnProfiles rows) :
    Keyed { t with vpnProfiles := rows } := by
  have hkept : ∀ {u : Bytes}, (∃ p ∈ t.vpnProfiles, p.id = u) → ∃ p ∈ rows, p.id = u := by
    rintro u ⟨p, hp, rfl⟩
    exact h.ident_mem hp
  refine { ht with
    profile_ids := h.nodup_ident ht.profile_ids
    profile_names := h.nodup_key ht.profile_names
    profile_id_ne := fun p hp => ?_
    target_profile := fun x hx => (ht.target_profile x hx).imp_right hkept
    tier_profile := fun r hr => hkept (ht.tier_profile r hr) }
  rcases h.bound p hp with ⟨old, hold, hid, -⟩ | hid
  · exact hid ▸ ht.profile_id_ne old hold
  · exact hid ▸ hnew

theorem Keyed.withoutTarget (ht : Keyed t) (u : Bytes) : Keyed (t.withoutTarget u) :=
  { ht with
    target_ids := ht.target_ids.sublist (List.filter_sublist.map _)
    target_aliases := ht.target_aliases.sublist (List.filter_sublist.map _)
    target_profile := fun x hx => ht.target_profile x (List.mem_of_mem_filter hx)
    tier_slots := ht.tier_slots.sublist (List.filter_sublist.map _)
    tier_profiles := ht.tier_profiles.sublist (List.filter_sublist.map _)
    tier_target := by
      intro r hr
      obtain ⟨hr, hne⟩ := List.mem_filter.mp hr
      obtain ⟨x, hx, hid⟩ := ht.tier_target r hr
      exact ⟨x, List.mem_filter.mpr ⟨hx, by simpa [hid] using hne⟩, hid⟩
    tier_profile := fun r hr => ht.tier_profile r (List.mem_of_mem_filter hr) }

theorem Keyed.withoutTiers (ht : Keyed t) (p : TargetTunnelTier → Bool) :
    Keyed { t with tiers := t.tiers.filter p } :=
  { ht with
    tier_slots := ht.tier_slots.sublist (List.filter_sublist.map _)
    tier_profiles := ht.tier_profiles.sublist (List.filter_sublist.map _)
    tier_target := fun r hr => ht.tier_target r (List.mem_of_mem_filter hr)
    tier_profile := fun r hr => ht.tier_profile r (List.mem_of_mem_filter hr) }

section Slots

variable {v : TargetTunnelTier} (htarget : ∃ x ∈ t.targetHosts, x.id = v.targetID)
  (hprofile : ∃ p ∈ t.vpnProfiles, p.id = v.vpnProfileID)
include htarget hprofile

/-- The row in a slot gives way to one with a profile the chain does not have yet. -/
theorem Keyed.replaceTier (ht : Keyed t)
    (hother : ∀ x ∈ t.tiers, x.targetID = v.targetID → x.vpnProfileID = v.vpnProfileID →
      x.tier = v.tier) :
    Keyed { t with tiers := t.tiers.map fun x =>
      if x.targetID = v.targetID ∧ x.tier = v.tier then v else x } := by
  have hmem : ∀ {P : TargetTunnelTier → Prop}, (∀ x ∈ t.tiers, P x) → P v →
      ∀ r ∈ t.tiers.map fun x => if x.targetID = v.targetID ∧ x.tier = v.tier then v else x, P r := by
    intro P hP hv r hr
    obtain ⟨x, hx, rfl⟩ := List.mem_map.mp hr
    split
    · exact hv
    · exact hP x hx
  refine { ht with
    tier_slots := ?_
    tier_profiles := ?_
    tier_target := hmem ht.tier_target htarget
    tier_profile := hmem ht.tier_profile hprofile }
  · rw [Upsert.map_replaced fun x _ hslot => by rw [hslot.1, hslot.2]]
    exact ht.tier_slots
  · rw [List.map_map]
    refine List.Nodup.map_on ?_ (ht.tier_slots.of_map _)
    intro x hx y hy hxy
    simp only [Function.comp_apply] at hxy
    split at hxy
    · next hsx =>
      split at hxy
      · next hsy =>
        exact List.inj_on_of_nodup_map ht.tier_slots hx hy (by simp [hsx, hsy])
      · next hsy =>
        obtain ⟨hyt, hyp⟩ := Prod.mk.inj hxy
        exact absurd ⟨hyt.symm, hother y hy hyt.symm hyp.symm⟩ hsy
    · next hsx =>
      split at hxy
      · obtain ⟨hxt, hxp⟩ := Prod.mk.inj hxy
        exact absurd ⟨hxt, hother x hx hxt hxp⟩ hsx
      · exact List.inj_on_of_nodup_map ht.tier_profiles hx hy hxy

theorem Keyed.addTier (ht : Keyed t)
    (hother : ∀ x ∈ t.tiers, x.targetID = v.targetID → x.vpnProfileID = v.vpnProfileID →
      x.tier = v.tier)
    (hslot : ∀ x ∈ t.tiers, ¬(x.targetID = v.targetID ∧ x.tier = v.tier)) :
    Keyed { t with tiers := t.tiers ++ [v] } := by
  refine { ht with
    tier_slots := Upsert.nodup_concat ht.tier_slots fun x hx he =>
      hslot x hx ⟨congrArg Prod.fst he, congrArg Prod.snd he⟩
    tier_profiles := Upsert.nodup_concat ht.tier_profiles fun x hx he => ?_
    tier_target := List.forall_mem_append.mpr ⟨ht.tier_target, by simpa using htarget⟩
    tier_profile := List.forall_mem_append.mpr ⟨ht.tier_profile, by simpa using hprofile⟩ }
  obtain ⟨hxt, hxp⟩ := Prod.mk.inj he
  exact hslot x hx ⟨hxt, hother x hx hxt hxp⟩

end Slots

end Keys

theorem assigned_ne_nil {n : Nat} {s : Bytes} (h : s ≠ []) : assigned (n + 1) s ≠ [] := by
  obtain ⟨p, rest, hseg⟩ := List.exists_cons_of_ne_nil fun hnil => h (Utf8.segments_eq_nil_iff.mp hnil)
  have hp : p.2 ≠ [] := Utf8.ne_nil_of_mem_segments (hseg ▸ List.mem_cons_self)
  simp [assigned, hseg, hp]

/-- What an insert or an update of a rule has checked. -/
structure RuleChecked (v : ProxyRule) (target : Bytes) (t : Tables) : Prop where
  target : target = [] ∨ ∃ x ∈ t.targetHosts, x.id = target
  present : v.matchHost ≠ [] ∨ v.matchPath ≠ []

theorem ruleChecked {v : ProxyRule} {target : Bytes} {t : Tables}
    (h : ∀ c ∈ ruleInputs v ++ ruleChecks v ++ ruleTarget target t, c.1 = true) :
    RuleChecked v target t := by
  simp only [ruleChecks, ruleTarget, List.forall_mem_append, List.forall_mem_cons, Bool.or_eq_true,
    decide_eq_true_eq, List.any_eq_true] at h
  exact ⟨h.2.1, h.1.2.2.2.1⟩

theorem RuleChecked.present_stored {v : ProxyRule} {target : Bytes} {t : Tables}
    (h : RuleChecked v target t) (i : Bytes) :
    (v.stored i target).matchHost ≠ [] ∨ (v.stored i target).matchPath ≠ [] :=
  h.present.imp assigned_ne_nil assigned_ne_nil

section Kept

variable {pg : Server} {newID id : Bytes} {t t' : Tables} (ht : Schema t)
include ht

theorem Schema.withAudit (entries : List AuditLogEntry) : Schema { t with auditLog := entries } :=
  { ht with keyed := ht.keyed.withAudit entries }

theorem Schema.upsertProfile {v : VPNProfile} (hnew : newID ≠ [])
    (h : sqlUpsertProfile pg newID v t = .ok (t', id)) : Schema t' := by
  obtain ⟨rows, rfl, happlied⟩ := upsertProfile_ok h
  exact { ht with keyed := ht.keyed.withProfiles hnew happlied }

theorem Schema.deleteProfile (h : sqlDeleteProfile pg id t = .ok t') : Schema t' := by
  obtain ⟨u, -, rfl⟩ := deleteProfile_ok h
  have hcleared : ∀ {P : TargetHost → Prop}, (∀ x ∈ t.targetHosts, P (x.clearProfile u)) →
      ∀ x ∈ (t.withoutProfile u).targetHosts, P x := by
    intro P hP x hx
    obtain ⟨y, hy, rfl⟩ := List.mem_map.mp hx
    exact hP y hy
  refine { ht with
    keyed := ht.keyed.withoutProfile u
    rule_target := fun r hr => (ht.rule_target r hr).imp_right ?_
    port_chk := hcleared fun x hx => ?_
    protocol_chk := hcleared fun x hx => ?_
    tier_chk := fun r hr => ht.tier_chk r (List.mem_of_mem_filter hr) }
  · rintro ⟨x, hx, hid⟩
    exact ⟨_, List.mem_map_of_mem hx, by simpa using hid⟩
  · rw [clearProfile_eq]
    exact ht.port_chk x hx
  · rw [clearProfile_eq]
    exact ht.protocol_chk x hx

theorem Schema.upsertTarget {v : TargetHost} (h : sqlUpsertTarget pg newID v t = .ok (t', id)) :
    Schema t' := by
  obtain ⟨ip, profile, -, -, hprofile, hupserted⟩ := upsertTarget_ok h
  obtain ⟨hport, hproto⟩ := upsertTarget_checked h
  have hkeyed := hupserted.keyed ht.keyed hprofile
  obtain ⟨rows, rfl, happlied⟩ := hupserted.applied
  refine { ht with
    keyed := hkeyed
    rule_target := fun r hr => (ht.rule_target r hr).imp_right ?_
    port_chk := fun x hx => ?_
    protocol_chk := fun x hx => ?_ }
  · rintro ⟨x, hx, hid⟩
    obtain ⟨y, hy, hsame⟩ := happlied.ident_mem hx
    exact ⟨y, hy, hsame.trans hid⟩
  · rcases happlied.of_mem hx with hx | ⟨i, rfl⟩
    · exact ht.port_chk x hx
    · exact hport
  · rcases happlied.of_mem hx with hx | ⟨i, rfl⟩
    · exact ht.protocol_chk x hx
    · exact hproto

theorem Schema.deleteTarget (h : sqlDeleteTarget pg id t = .ok t') : Schema t' := by
  obtain ⟨u, -, rfl⟩ := deleteTarget_ok h
  refine { ht with
    keyed := ht.keyed.withoutTarget u
    rule_ids := ht.rule_ids.sublist (List.filter_sublist.map _)
    rule_target := fun r hr => ?_
    port_chk := fun x hx => ht.port_chk x (List.mem_of_mem_filter hx)
    protocol_chk := fun x hx => ht.protocol_chk x (List.mem_of_mem_filter hx)
    tier_chk := fun r hr => ht.tier_chk r (List.mem_of_mem_filter hr)
    match_present_chk := fun r hr => ht.match_present_chk r (List.mem_of_mem_filter hr) }
  obtain ⟨hr, hne⟩ := List.mem_filter.mp hr
  refine (ht.rule_target r hr).imp_right ?_
  rintro ⟨x, hx, hid⟩
  exact ⟨x, List.mem_filter.mpr ⟨hx, by simpa [hid] using hne⟩, hid⟩

theorem Schema.insertRule {v : ProxyRule} (h : sqlInsertRule pg newID v t = .ok (t', id)) :
    Schema t' := by
  obtain ⟨target, -, hpass, hfresh, rfl⟩ := insertRule_ok h
  have hchecked := ruleChecked hpass
  exact { ht with
    keyed := { ht.keyed with }
    rule_ids := Upsert.nodup_concat ht.rule_ids hfresh
    rule_target := List.forall_mem_append.mpr
      ⟨ht.rule_target, List.forall_mem_singleton.mpr hchecked.target⟩
    match_present_chk := List.forall_mem_append.mpr
      ⟨ht.match_present_chk, List.forall_mem_singleton.mpr (hchecked.present_stored newID)⟩ }

theorem Schema.updateRule {v : ProxyRule} (h : sqlUpdateRule pg v t = .ok (t', id)) :
    Schema t' := by
  obtain ⟨u, target, -, -, hpass, rfl⟩ := updateRule_replaced h
  have hchecked := ruleChecked hpass
  have hmem : ∀ {P : ProxyRule → Prop}, (∀ r ∈ t.proxyRules, P r) → P (v.stored u target) →
      ∀ r ∈ t.proxyRules.map fun r => if r.id = u then v.stored u target else r, P r := by
    intro P hP hv r hr
    obtain ⟨x, hx, rfl⟩ := List.mem_map.mp hr
    split
    · exact hv
    · exact hP x hx
  refine { ht with
    keyed := { ht.keyed with }
    rule_ids := ?_
    rule_target := hmem ht.rule_target hchecked.target
    match_present_chk := hmem ht.match_present_chk (hchecked.present_stored u) }
  rw [Upsert.map_replaced fun r _ hid => hid.symm]
  exact ht.rule_ids

theorem Schema.deleteRule (h : sqlDeleteRule pg id t = .ok t') : Schema t' := by
  obtain ⟨u, -, rfl⟩ := deleteRule_ok h
  exact { ht with
    keyed := { ht.keyed with }
    rule_ids := ht.rule_ids.sublist (List.filter_sublist.map _)
    rule_target := fun r hr => ht.rule_target r (List.mem_of_mem_filter hr)
    match_present_chk := fun r hr => ht.match_present_chk r (List.mem_of_mem_filter hr) }

theorem Schema.upsertTier {v : TargetTunnelTier} (h : sqlUpsertTier pg v t = .ok t') :
    Schema t' := by
  obtain ⟨target, profile, htier, htarget, hprofile, hother, rfl⟩ := upsertTier_ok h
  split
  · refine { ht with
      keyed := ht.keyed.replaceTier (v := ⟨target, profile, v.tier⟩) htarget hprofile hother
      tier_chk := fun r hr => ?_ }
    obtain ⟨x, hx, rfl⟩ := List.mem_map.mp hr
    split
    · exact htier
    · exact ht.tier_chk x hx
  · next hfree =>
    exact { ht with
      keyed := ht.keyed.addTier (v := ⟨target, profile, v.tier⟩) htarget hprofile hother
        fun x hx hslot => hfree (List.any_eq_true.mpr ⟨x, hx, by simpa using hslot⟩)
      tier_chk := List.forall_mem_append.mpr ⟨ht.tier_chk, by simpa using htier⟩ }

theorem Schema.deleteTier {tier : Int} (h : sqlDeleteTier pg id tier t = .ok t') : Schema t' := by
  obtain ⟨u, -, -, rfl⟩ := deleteTier_ok h
  exact { ht with
    keyed := ht.keyed.withoutTiers _
    tier_chk := fun r hr => ht.tier_chk r (List.mem_of_mem_filter hr) }

theorem Schema.upsertUser {v : ProxyUser} (h : sqlUpsertUser newID v t = .ok (t', id)) :
    Schema t' := by
  obtain ⟨hpass, rows, rfl, happlied⟩ := upsertUser_ok h
  simp only [userChecks, List.forall_mem_append, List.forall_mem_cons] at hpass
  have hrole : assigned 50 v.role ∈ roles := List.contains_iff_mem.mp hpass.2.1
  have hsecret : ∃ b ∈ assigned 255 v.secretRef, b ≠ space := by simpa using hpass.2.2.1
  refine { ht with
    keyed := { ht.keyed with }
    user_ids := happlied.nodup_ident ht.user_ids
    usernames := happlied.nodup_key ht.usernames
    role_chk := fun u hu => ?_
    secret_ref_chk := fun u hu => ?_ }
  · rcases happlied.of_mem hu with hu | ⟨i, rfl⟩
    · exact ht.role_chk u hu
    · exact hrole
  · rcases happlied.of_mem hu with hu | ⟨i, rfl⟩
    · exact ht.secret_ref_chk u hu
    · exact hsecret

end Kept

/-- The id a statement would give a row it adds. -/
def Statement.generated : Statement → Option Bytes
  | .upsertProfile newID _ => some newID
  | .upsertTarget newID _ => some newID
  | .insertRule newID _ => some newID
  | .upsertUser newID _ => some newID
  | _ => none

theorem Statement.exec_schema {pg : Server} {t t' : Tables} {stmt : Statement} {id : Bytes}
    (ht : Schema t) (hnew : ∀ u, stmt.generated = some u → u ≠ [])
    (h : stmt.exec pg t = .ok (t', id)) : Schema t' := by
  cases stmt with
  | upsertProfile newID v => exact ht.upsertProfile (hnew newID rfl) h
  | deleteProfile id => exact ht.deleteProfile (map_ok_fst h)
  | upsertTarget newID v => exact ht.upsertTarget h
  | deleteTarget id => exact ht.deleteTarget (map_ok_fst h)
  | insertRule newID v => exact ht.insertRule h
  | updateRule v => exact ht.updateRule h
  | deleteRule id => exact ht.deleteRule (map_ok_fst h)
  | upsertTier v => exact ht.upsertTier (map_ok_fst h)
  | deleteTier targetID tier => exact ht.deleteTier (map_ok_fst h)
  | upsertUser newID v => exact ht.upsertUser h

end HelixProxy.Store

namespace HelixProxy.Api

open Store Transaction
set_option autoImplicit false

theorem Call.generated_eq {env : Env} {call : Call} {stmt : Statement}
    (h : call.statement env = some stmt) {u : Bytes} (hu : stmt.generated = some u) :
    u = env.newID := by
  cases call with
  | putProfile body =>
    cases body with
    | error e => cases h
    | ok d =>
      obtain ⟨type, -, rfl⟩ := Option.map_eq_some_iff.mp h
      exact (Option.some.inj hu).symm
  | putTarget body =>
    cases body with
    | error e => cases h
    | ok d =>
      obtain rfl := Option.some.inj h
      exact (Option.some.inj hu).symm
  | putRule body =>
    cases body with
    | error e => cases h
    | ok d =>
      obtain rfl := Option.some.inj h
      unfold upsertRule at hu
      split at hu
      · cases hu
      · exact (Option.some.inj hu).symm
  | putTier body =>
    cases body with
    | error e => cases h
    | ok d =>
      obtain rfl := Option.some.inj h
      cases hu
  | putUser body =>
    cases body with
    | error e => cases h
    | ok d =>
      obtain rfl := Option.some.inj h
      exact (Option.some.inj hu).symm
  | deleteProfile id =>
    obtain rfl := Option.some.inj h
    cases hu
  | deleteTarget id =>
    obtain rfl := Option.some.inj h
    cases hu
  | deleteRule id =>
    obtain rfl := Option.some.inj h
    cases hu
  | deleteTier targetID tierText =>
    obtain ⟨tier, -, rfl⟩ := Option.map_eq_some_iff.mp h
    cases hu

theorem serve_schema {t : Tables} (ht : Schema t) {r : Request} (hnew : r.env.newID ≠ []) :
    Schema (serve t r).1 := by
  rcases serve_served r.env t r.call with ⟨-, hcommitted⟩ | ⟨-, hsame⟩
  · obtain ⟨stmt, changed, id, detail, hstmt, hexec, -, hafter⟩ := hcommitted
    rw [serve, hafter]
    refine Schema.withAudit (Statement.exec_schema ht (fun u hu => ?_) hexec) _
    rw [Call.generated_eq hstmt hu]
    exact hnew
  · rw [serve, hsame]
    exact ht

theorem exchanges_schema {t : Tables} (ht : Schema t) {requests : List Request}
    (hnew : ∀ r ∈ requests, r.env.newID ≠ []) :
    (∀ x ∈ exchanges serve t requests, Schema x.before ∧ Schema x.after) ∧
      Schema (final serve t requests) := by
  induction requests generalizing t with
  | nil => exact ⟨by simp [exchanges], ht⟩
  | cons r rest ih =>
    have hstep := serve_schema ht (hnew r List.mem_cons_self)
    obtain ⟨hall, hfinal⟩ := ih hstep fun x hx => hnew x (List.mem_cons_of_mem r hx)
    exact ⟨List.forall_mem_cons.mpr ⟨⟨ht, hstep⟩, hall⟩, hfinal⟩

/-- Whatever the handlers are asked for, every store they pass through satisfies
the keys, the foreign keys and the CHECK constraints of the schema. -/
theorem schema_kept (t : Tables) (ht : Schema t) (requests : List Request)
    (hnew : ∀ r ∈ requests, r.env.newID ≠ []) :
    (∀ x ∈ exchanges serve t requests, Schema x.before ∧ Schema x.after) ∧
      Schema (final serve t requests) :=
  exchanges_schema ht hnew

theorem schema_empty : Schema {} := by
  constructor
  · constructor <;> simp
  all_goals simp

/-- A profile, a target behind it and a rule for the target. -/
def officeRun : List Request :=
  [⟨{ pg := lenient, newID := lit "p1" },
      .putProfile (.ok { name := lit "office", enabled := true })⟩,
   ⟨{ pg := lenient, newID := lit "t1" },
      .putTarget (.ok {
        publicAlias := lit "crm", privateIP := lit "10.8.0.4", vpnProfileID := lit "p1"
        enabled := true })⟩,
   ⟨{ pg := lenient, newID := lit "r1" },
      .putRule (.ok { matchHost := lit "crm", targetHostID := lit "t1", enabled := true })⟩]

theorem schema_kept_office : Schema {} ∧ Schema (final serve {} officeRun) ∧
    (final serve {} officeRun).auditLog.length = 3 :=
  ⟨schema_empty, (schema_kept {} schema_empty officeRun (by decide)).2, rfl⟩

end HelixProxy.Api
