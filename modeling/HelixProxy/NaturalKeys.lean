import HelixProxy.SchemaRuns

/-!
# An id names the same thing for ever

Profiles, targets and users are written by their natural key (name, alias, user
name) and referred to by id. No request changes the natural key that belongs to
an id, so a reference held by a target, a tier or a rule never comes to mean
something else.
-/

namespace HelixProxy.Store

open Upsert (Applied Bound bound_of_subset)
set_option autoImplicit false

structure IdsBound (fresh : Bytes → Prop) (t t' : Tables) : Prop where
  profiles : Bound VPNProfile.name VPNProfile.id fresh t.vpnProfiles t'.vpnProfiles
  targets : Bound TargetHost.publicAlias TargetHost.id fresh t.targetHosts t'.targetHosts
  users : Bound ProxyUser.username ProxyUser.id fresh t.proxyUsers t'.proxyUsers

theorem IdsBound.refl (fresh : Bytes → Prop) (t : Tables) : IdsBound fresh t t :=
  ⟨bound_of_subset (List.Subset.refl _), bound_of_subset (List.Subset.refl _),
    bound_of_subset (List.Subset.refl _)⟩

theorem IdsBound.trans {fresh : Bytes → Prop} {t t' t'' : Tables} (h : IdsBound fresh t t')
    (h' : IdsBound fresh t' t'') : IdsBound fresh t t'' :=
  ⟨h.profiles.trans h'.profiles, h.targets.trans h'.targets, h.users.trans h'.users⟩

theorem IdsBound.mono {fresh fresh' : Bytes → Prop} {t t' : Tables} (h : IdsBound fresh t t')
    (hfresh : ∀ i, fresh i → fresh' i) : IdsBound fresh' t t' :=
  ⟨h.profiles.mono hfresh, h.targets.mono hfresh, h.users.mono hfresh⟩

theorem Statement.exec_idsBound {pg : Server} {t t' : Tables} {stmt : Statement} {id : Bytes}
    (h : stmt.exec pg t = .ok (t', id)) : IdsBound (fun u => stmt.generated = some u) t t' := by
  have hrefl := IdsBound.refl (fun u => stmt.generated = some u) t
  have hnew : ∀ {newID : Bytes}, stmt.generated = some newID →
      ∀ i, i = newID → stmt.generated = some i := fun hgen i hi => hi ▸ hgen
  cases stmt with
  | upsertProfile newID v =>
    obtain ⟨rows, rfl, happlied⟩ := upsertProfile_ok h
    exact { hrefl with profiles := happlied.bound.mono (hnew rfl) }
  | deleteProfile id =>
    obtain ⟨u, -, rfl⟩ := deleteProfile_ok (map_ok_fst h)
    refine { hrefl with profiles := bound_of_subset (List.filter_subset_self _), targets := ?_ }
    intro x hx
    obtain ⟨y, hy, rfl⟩ := List.mem_map.mp hx
    exact .inl ⟨y, hy, by simp, by simp⟩
  | upsertTarget newID v =>
    obtain ⟨ip, profile, -, -, -, hupserted⟩ := upsertTarget_ok h
    obtain ⟨rows, rfl, happlied⟩ := hupserted.applied
    exact { hrefl with targets := happlied.bound.mono (hnew rfl) }
  | deleteTarget id =>
    obtain ⟨u, -, rfl⟩ := deleteTarget_ok (map_ok_fst h)
    exact { hrefl with targets := bound_of_subset (List.filter_subset_self _) }
  | insertRule newID v =>
    obtain ⟨target, -, -, -, rfl⟩ := insertRule_ok h
    exact { hrefl with }
  | updateRule v =>
    obtain ⟨u, target, -, -, -, rfl⟩ := updateRule_replaced h
    exact { hrefl with }
  | deleteRule id =>
    obtain ⟨u, -, rfl⟩ := deleteRule_ok (map_ok_fst h)
    exact { hrefl with }
  | upsertTier v =>
    obtain ⟨target, profile, -, -, -, -, rfl⟩ := upsertTier_ok (map_ok_fst h)
    exact { hrefl with }
  | deleteTier targetID tier =>
    obtain ⟨u, -, -, rfl⟩ := deleteTier_ok (map_ok_fst h)
    exact { hrefl with }
  | upsertUser newID v =>
    obtain ⟨-, rows, rfl, happlied⟩ := upsertUser_ok h
    exact { hrefl with users := happlied.bound.mono (hnew rfl) }

end HelixProxy.Store

namespace HelixProxy.Api

open Store Transaction
set_option autoImplicit false

theorem serve_idsBound (t : Tables) (r : Request) :
    IdsBound (· = r.env.newID) t (serve t r).1 := by
  rcases serve_served r.env t r.call with ⟨-, hcommitted⟩ | ⟨-, hsame⟩
  · obtain ⟨stmt, changed, id, detail, hstmt, hexec, -, hafter⟩ := hcommitted
    have hbound := (Statement.exec_idsBound hexec).mono fun u hu => Call.generated_eq hstmt hu
    rw [serve, hafter]
    exact { hbound with }
  · rw [serve, hsame]
    exact .refl _ t

theorem run_idsBound (t : Tables) (requests : List Request) :
    IdsBound (fun u => ∃ r ∈ requests, r.env.newID = u) t (final serve t requests) := by
  induction requests generalizing t with
  | nil => exact .refl _ t
  | cons r rest ih =>
    have hstep := (serve_idsBound t r).mono fun u (hu : u = r.env.newID) =>
      (⟨r, List.mem_cons_self, hu.symm⟩ : ∃ x ∈ r :: rest, x.env.newID = u)
    have hrest := (ih (serve t r).1).mono fun u ⟨x, hx, hid⟩ =>
      (⟨x, List.mem_cons_of_mem r hx, hid⟩ : ∃ x ∈ r :: rest, x.env.newID = u)
    exact hstep.trans hrest

/-- The uuids the server generates over a run are none that a row already has. -/
def FreshIDs (t : Tables) (requests : List Request) : Prop :=
  ∀ r ∈ requests, r.env.newID ∉ t.vpnProfiles.map VPNProfile.id ++
    t.targetHosts.map TargetHost.id ++ t.proxyUsers.map ProxyUser.id

/-- Whatever the handlers are asked for in between, a profile, target or user
that is found under an id has the natural key it had under that id before. -/
theorem natural_keys_kept (t : Tables) (ht : Schema t) (requests : List Request)
    (hfresh : FreshIDs t requests) :
    let later := final serve t requests
    (∀ p ∈ t.vpnProfiles, ∀ q ∈ later.vpnProfiles, p.id = q.id → p.name = q.name) ∧
    (∀ p ∈ t.targetHosts, ∀ q ∈ later.targetHosts, p.id = q.id → p.publicAlias = q.publicAlias) ∧
    (∀ p ∈ t.proxyUsers, ∀ q ∈ later.proxyUsers, p.id = q.id → p.username = q.username) := by
  have hbound := run_idsBound t requests
  have hold : ∀ {u : Bytes}, u ∈ t.vpnProfiles.map VPNProfile.id ++
      t.targetHosts.map TargetHost.id ++ t.proxyUsers.map ProxyUser.id →
      ¬∃ r ∈ requests, r.env.newID = u := by
    rintro u hu ⟨r, hr, rfl⟩
    exact hfresh r hr hu
  refine ⟨fun p hp q hq hid => ?_, fun p hp q hq hid => ?_, fun p hp q hq hid => ?_⟩
  · refine hbound.profiles.key_eq ht.keyed.profile_ids hp hq hid (hold ?_)
    exact List.mem_append_left _ (List.mem_append_left _ (List.mem_map_of_mem hp))
  · refine hbound.targets.key_eq ht.keyed.target_ids hp hq hid (hold ?_)
    exact List.mem_append_left _ (List.mem_append_right _ (List.mem_map_of_mem hp))
  · refine hbound.users.key_eq ht.user_ids hp hq hid (hold ?_)
    exact List.mem_append_right _ (List.mem_map_of_mem hp)

def renamed : Request :=
  ⟨{ pg := lenient, newID := lit "p2" }, .putProfile (.ok { name := lit "branch" })⟩

theorem natural_keys_kept_office : Schema (final serve {} officeRun) ∧
    FreshIDs (final serve {} officeRun) [renamed] ∧
    ∀ p ∈ (final serve {} officeRun).vpnProfiles,
      ∀ q ∈ (final serve (final serve {} officeRun) [renamed]).vpnProfiles,
        p.id = q.id → p.name = q.name := by
  have hschema : Schema (final serve {} officeRun) := (exchanges_schema schema_empty (by decide)).2
  have hfresh : FreshIDs (final serve {} officeRun) [renamed] := by
    intro r hr
    obtain rfl := List.mem_singleton.mp hr
    decide
  exact ⟨hschema, hfresh, (natural_keys_kept _ hschema [renamed] hfresh).1⟩

end HelixProxy.Api
