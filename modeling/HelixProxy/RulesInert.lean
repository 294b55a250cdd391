import HelixProxy.Library.Purge
import HelixProxy.SchemaRuns
import HelixProxy.ServeAlike

/-!
# Rules and users do not reach the proxies

A compile pass reads profiles, targets and tiers. Requests that write rules or
users leave those alone and change no answer the other requests depend on, so a
run compiles to the same artefacts and routes with all of them taken out.
-/

namespace HelixProxy.Store

open Transaction
set_option autoImplicit false

/-- The tables a compile pass reads are the same. -/
structure SameRouting (t u : Tables) : Prop where
  profiles : t.vpnProfiles = u.vpnProfiles
  targets : t.targetHosts = u.targetHosts
  tiers : t.tiers = u.tiers

def Statement.writesRouting : Statement → Bool
  | .insertRule .. => false
  | .updateRule .. => false
  | .deleteRule .. => false
  | .upsertUser .. => false
  | _ => true

section Statements

variable {pg : Server} {t u : Tables} {stmt : Statement}

theorem SameRouting.guarded (h : SameRouting t u) (checks : List (Bool × SqlError)) (id : Bytes) :
    Alike SameRouting (Store.guarded checks (t, id)) (Store.guarded checks (u, id)) := by
  unfold Store.guarded
  split
  · exact .error _
  · exact .ok id h

theorem Statement.exec_alike (h : SameRouting t u) (hs : stmt.writesRouting = true) :
    Alike SameRouting (stmt.exec pg t) (stmt.exec pg u) := by
  obtain ⟨hp, hh, ht⟩ := h
  cases stmt with
  | upsertProfile newID v =>
    simp only [exec, sqlUpsertProfile, hp]
    split
    all_goals
      apply SameRouting.guarded
      exact ⟨rfl, hh, ht⟩
  | deleteProfile id =>
    simp only [exec, sqlDeleteProfile]
    split
    · exact .error _
    · exact .ok [] ⟨by rw [hp], by rw [hh], by rw [ht]⟩
  | upsertTarget newID v =>
    simp only [exec, sqlUpsertTarget, hp, hh]
    split
    · exact .error _
    · exact .error _
    · split
      all_goals
        apply SameRouting.guarded
        exact ⟨rfl, rfl, ht⟩
  | deleteTarget id =>
    simp only [exec, sqlDeleteTarget]
    split
    · exact .error _
    · exact .ok [] ⟨hp, by rw [hh], by rw [ht]⟩
  | upsertTier v =>
    simp only [exec, sqlUpsertTier, hp, hh, ht]
    split
    · exact .error _
    · exact .error _
    · rw [guarded_map, guarded_map]
      apply SameRouting.guarded
      exact ⟨rfl, rfl, rfl⟩
  | deleteTier targetID tier =>
    simp only [exec, sqlDeleteTier, ht]
    split
    · exact .error _
    · rw [guarded_map, guarded_map]
      apply SameRouting.guarded
      exact ⟨hp, hh, rfl⟩
  | insertRule => cases hs
  | updateRule => cases hs
  | deleteRule => cases hs
  | upsertUser => cases hs

theorem Statement.exec_sameRouting {t' : Tables} {id : Bytes} (hs : stmt.writesRouting = false)
    (h : stmt.exec pg t = .ok (t', id)) : SameRouting t' t := by
  cases stmt with
  | insertRule newID v =>
    obtain ⟨target, -, -, -, rfl⟩ := insertRule_ok h
    exact ⟨rfl, rfl, rfl⟩
  | updateRule v =>
    obtain ⟨u, target, -, -, -, rfl⟩ := updateRule_replaced h
    exact ⟨rfl, rfl, rfl⟩
  | deleteRule id =>
    obtain ⟨u, -, rfl⟩ := deleteRule_ok (map_ok_fst h)
    exact ⟨rfl, rfl, rfl⟩
  | upsertUser newID v =>
    obtain ⟨-, rows, rfl, -⟩ := upsertUser_ok h
    exact ⟨rfl, rfl, rfl⟩
  | upsertProfile => cases hs
  | deleteProfile => cases hs
  | upsertTarget => cases hs
  | deleteTarget => cases hs
  | upsertTier => cases hs
  | deleteTier => cases hs

end Statements

theorem Database.queries_congr {db db' : Database} (h : SameRouting db.tables db'.tables)
    (rd : Reader) : db.queries rd = db'.queries rd := by
  simp only [queries, sqlListProfiles, sqlListTargets, sqlListTiers, h.profiles, h.targets, h.tiers]

end HelixProxy.Store

namespace HelixProxy.Api

open Store Transaction
set_option autoImplicit false

def Call.writesRouting : Call → Bool
  | .putRule _ => false
  | .deleteRule _ => false
  | .putUser _ => false
  | _ => true

section Handlers

variable {env : Env} {call : Call} {t u : Tables}

theorem Call.statement_writesRouting {stmt : Statement} (h : call.statement env = some stmt) :
    stmt.writesRouting = call.writesRouting := by
  cases call with
  | putProfile body =>
    cases body with
    | error e => cases h
    | ok d =>
      obtain ⟨type, -, rfl⟩ := Option.map_eq_some_iff.mp h
      rfl
  | putRule body =>
    cases body with
    | error e => cases h
    | ok d =>
      obtain rfl := Option.some.inj h
      unfold upsertRule
      split <;> rfl
  | deleteTier targetID tierText =>
    obtain ⟨tier, -, rfl⟩ := Option.map_eq_some_iff.mp h
    rfl
  | putTarget body =>
    cases body with
    | error e => cases h
    | ok d =>
      obtain rfl := Option.some.inj h
      rfl
  | putTier body =>
    cases body with
    | error e => cases h
    | ok d =>
      obtain rfl := Option.some.inj h
      rfl
  | putUser body =>
    cases body with
    | error e => cases h
    | ok d =>
      obtain rfl := Option.some.inj h
      rfl
  | deleteProfile id =>
    obtain rfl := Option.some.inj h
    rfl
  | deleteTarget id =>
    obtain rfl := Option.some.inj h
    rfl
  | deleteRule id =>
    obtain rfl := Option.some.inj h
    rfl

theorem Call.serve_sameRouting (hseen : call.writesRouting = true) (h : SameRouting t u) :
    SameRouting (call.serve env t).1 (call.serve env u).1 := by
  refine (Call.serve_alike (fun _ _ hsame => ?_) h fun stmt hstmt => ?_).1
  · exact ⟨hsame.profiles, hsame.targets, hsame.tiers⟩
  · exact Statement.exec_alike h ((Call.statement_writesRouting hstmt).trans hseen)

theorem Call.serve_unseen (hunseen : call.writesRouting = false) (h : SameRouting t u) :
    SameRouting (call.serve env t).1 u := by
  rcases serve_served env t call with ⟨-, hcommitted⟩ | ⟨-, hsame⟩
  · obtain ⟨stmt, changed, id, detail, hstmt, hexec, -, hafter⟩ := hcommitted
    have hs := (Call.statement_writesRouting hstmt).trans hunseen
    obtain ⟨hp, hh, ht⟩ := Statement.exec_sameRouting hs hexec
    rw [hafter]
    exact ⟨hp.trans h.profiles, hh.trans h.targets, ht.trans h.tiers⟩
  · rw [hsame]
    exact h

end Handlers

theorem routing_unwinds :
    Purge.Unwinds (fun t r => (serve t r).1) (fun r : Request => r.call.writesRouting)
      SameRouting where
  consistent _ hseen h := Call.serve_sameRouting hseen h
  respects _ hunseen h := Call.serve_unseen hunseen h

/-- Over every run of the handlers, a compile pass makes of the database what it would
make of it had every request on rules and users been left out. -/
theorem rules_inert (rd : Reader) (t : Tables) (ht : Schema t) (requests : List Request)
    (hnew : ∀ r ∈ requests, r.env.newID ≠ []) :
    ∃ db purged : Database, db.tables = final serve t requests ∧
      purged.tables = final serve t (requests.filter (·.call.writesRouting)) ∧
      Routing.compileAll (db.queries rd) = Routing.compileAll (purged.queries rd) := by
  have hall := (exchanges_schema ht hnew).2
  have hpurged : Schema (final serve t (requests.filter (·.call.writesRouting))) :=
    (exchanges_schema ht fun r hr => hnew r (List.mem_of_mem_filter hr)).2
  have hsame : SameRouting (final serve t requests)
      (final serve t (requests.filter (·.call.writesRouting))) :=
    routing_unwinds.run ⟨rfl, rfl, rfl⟩ requests
  refine ⟨⟨_, hall.keyed⟩, ⟨_, hpurged.keyed⟩, rfl, rfl, ?_⟩
  exact congrArg Routing.compileAll (Database.queries_congr hsame rd)

theorem rules_inert_office : Schema {} ∧
    ∃ db purged : Database, db.tables = final serve {} officeRun ∧
      purged.tables = final serve {} (officeRun.filter (·.call.writesRouting)) ∧
      Routing.compileAll (db.queries ⟨fun a b => a ≤ b, id⟩) =
        Routing.compileAll (purged.queries ⟨fun a b => a ≤ b, id⟩) :=
  ⟨schema_empty, rules_inert _ {} schema_empty officeRun (by decide)⟩

end HelixProxy.Api
