import HelixProxy.ControlAudit
import HelixProxy.RowConstraints

/-!
# Validation in front of the database

How far the put handlers of the control API check what the schema asks of a row:
for a request that is past validation, the row is in order exactly when the fields
that its handler hands on unseen are.
-/

namespace HelixProxy.Api

open Store
set_option autoImplicit false

/-! What each handler leaves to the database. -/

structure ProfileDTO.Unchecked (pg : Server) (d : ProfileDTO) : Prop where
  name : FitsVarchar 255 d.name
  config : ∃ members, (d.config = .document (.object members) ∨ d.config = .absent ∧ members = []) ∧
    (pg.jsonb (.object members)).isSome
  secretRef : FitsVarchar 255 d.secretRef

structure TargetDTO.Unchecked (pg : Server) (d : TargetDTO) : Prop where
  publicAlias : FitsVarchar 255 d.publicAlias
  privateIP : (pg.inet d.privateIP).isSome
  protocol : d.protocol = [] ∨ d.protocol ∈ protocols
  vpnProfileID : d.vpnProfileID = [] ∨ (pg.uuid d.vpnProfileID).isSome
  healthCheck : FitsVarchar 500 d.healthCheck

structure RuleDTO.Unchecked (pg : Server) (d : RuleDTO) : Prop where
  id : d.id = [] ∨ (pg.uuid d.id).isSome
  priority : FitsInteger d.priority
  matchHost : FitsVarchar 255 d.matchHost
  matchPath : FitsVarchar 500 d.matchPath
  targetHostID : d.targetHostID = [] ∨ (pg.uuid d.targetHostID).isSome

structure TierDTO.Unchecked (pg : Server) (d : TierDTO) : Prop where
  targetID : (pg.uuid d.targetID).isSome
  vpnProfileID : (pg.uuid d.vpnProfileID).isSome
  tier : d.tier < 2 ^ 31

structure UserDTO.Unchecked (d : UserDTO) : Prop where
  username : FitsVarchar 255 d.username
  secretRef : FitsVarchar 255 d.secretRef
  nonBlank : ∃ b ∈ d.secretRef, b ≠ space
  role : d.role = [] ∨ d.role ∈ roles

def Call.Unchecked (pg : Server) : Call → Prop
  | .putProfile (.ok d) => d.Unchecked pg
  | .putTarget (.ok d) => d.Unchecked pg
  | .putRule (.ok d) => d.Unchecked pg
  | .putTier (.ok d) => d.Unchecked pg
  | .putUser (.ok d) => d.Unchecked
  | _ => True

section Handlers

variable {env : Env} {t : Tables}

theorem nullableUUID_isSome_iff (pg : Server) (s : Bytes) :
    (pg.nullableUUID s).isSome ↔ s = [] ∨ (pg.uuid s).isSome := by
  unfold Server.nullableUUID
  split
  · next h => simp [h]
  · next h => simp [h]

theorem mem_default_iff {values : List Bytes} {default : Bytes} (h : default ∈ values) (s : Bytes) :
    (if s = [] then default else s) ∈ values ↔ s = [] ∨ s ∈ values := by
  split
  · next hs => simp [hs, h]
  · next hs => simp [hs]

theorem upsertProfile_checked_iff (d : ProfileDTO) (type : Option VPNType) :
    (upsertProfile env d type).Row env.pg ∧ (upsertProfile env d type).ObjectConfig ↔
      d.Unchecked env.pg := by
  obtain ⟨name, kind, config, secretRef, enabled⟩ := d
  constructor
  · rintro ⟨hrow, members, hconfig⟩
    have hjsonb := hrow.config
    rw [hconfig, Server.config, Option.isSome_map] at hjsonb
    refine ⟨hrow.name, ⟨members, ?_, hjsonb⟩, hrow.secretRef⟩
    cases config with
    | absent =>
      cases hconfig
      exact .inr ⟨rfl, rfl⟩
    | malformed => cases hconfig
    | document v => exact .inl hconfig
  · intro h
    obtain ⟨members, hconfig, hjsonb⟩ := h.config
    have hkept : (env.pg.config (.document (.object members))).isSome := by
      rwa [Server.config, Option.isSome_map]
    rcases hconfig with rfl | ⟨rfl, rfl⟩
    · exact ⟨⟨h.name, hkept, h.secretRef⟩, members, rfl⟩
    · exact ⟨⟨h.name, hkept, h.secretRef⟩, [], rfl⟩

theorem putTarget_past {d : TargetDTO} (h : (putTarget env (.ok d) t).2.code ≠ 400) :
    0 ≤ d.port ∧ d.port ≤ 65535 := by
  by_contra hport
  apply h
  simp only [putTarget]
  split
  · rfl
  · split
    · rfl
    · rw [if_pos (by omega)]
      rfl

theorem upsertTarget_checked_iff {d : TargetDTO} (hport : 0 ≤ d.port ∧ d.port ≤ 65535) :
    (upsertTarget env d).Row env.pg ↔ d.Unchecked env.pg := by
  have hdefault : lit "http" ∈ protocols := List.mem_cons_self
  have hprotocol := mem_default_iff hdefault d.protocol
  constructor
  · intro h
    exact ⟨h.publicAlias, h.privateIP, hprotocol.mp h.protocol.2,
      (nullableUUID_isSome_iff _ _).mp h.vpnProfileID, h.healthCheck⟩
  · intro h
    have hmem := hprotocol.mpr h.protocol
    have hrange : 1 ≤ (if d.port = 0 then 80 else d.port) ∧
        (if d.port = 0 then 80 else d.port) ≤ 65535 := by
      split <;> omega
    refine ⟨h.publicAlias, h.privateIP, ⟨⟨?_, ?_⟩, hrange⟩, ⟨fits_of_mem (by decide) hmem, hmem⟩,
      (nullableUUID_isSome_iff _ _).mpr h.vpnProfileID, h.healthCheck⟩
    · exact le_trans (by norm_num) hrange.1
    · exact lt_of_le_of_lt hrange.2 (by norm_num)

theorem putRule_past {d : RuleDTO} (h : (putRule env (.ok d) t).2.code ≠ 400) :
    d.matchHost ≠ [] ∨ d.matchPath ≠ [] := by
  by_contra hmatch
  apply h
  simp only [putRule]
  rw [if_pos (by simpa only [not_or, not_not] using hmatch)]
  rfl

theorem upsertRule_checked_iff {d : RuleDTO} (hmatch : d.matchHost ≠ [] ∨ d.matchPath ≠ []) :
    (upsertRule env d).Row env.pg ↔ d.Unchecked env.pg := by
  have hrule : RuleRow env.pg ⟨d.id, d.priority, d.matchHost, d.matchPath, d.targetHostID, d.enabled⟩ ↔
      FitsInteger d.priority ∧ FitsVarchar 255 d.matchHost ∧ FitsVarchar 500 d.matchPath ∧
        (d.targetHostID = [] ∨ (env.pg.uuid d.targetHostID).isSome) := by
    constructor
    · intro h
      exact ⟨h.priority, h.matchHost, h.matchPath, (nullableUUID_isSome_iff _ _).mp h.targetHostID⟩
    · rintro ⟨hpriority, hhost, hpath, htarget⟩
      exact ⟨hpriority, hhost, hpath, hmatch, (nullableUUID_isSome_iff _ _).mpr htarget⟩
  have hrow : (upsertRule env d).Row env.pg ↔ (d.id = [] ∨ (env.pg.uuid d.id).isSome) ∧
      RuleRow env.pg ⟨d.id, d.priority, d.matchHost, d.matchPath, d.targetHostID, d.enabled⟩ := by
    unfold upsertRule
    split
    · next hid => simp [Statement.Row, hid]
    · next hid => simp [Statement.Row, not_not.mp hid]
  rw [hrow, hrule]
  constructor
  · rintro ⟨hid, hpriority, hhost, hpath, htarget⟩
    exact ⟨hid, hpriority, hhost, hpath, htarget⟩
  · intro h
    exact ⟨h.id, h.priority, h.matchHost, h.matchPath, h.targetHostID⟩

theorem putTier_past {d : TierDTO} (h : (putTier env (.ok d) t).2.code ≠ 400) : 0 ≤ d.tier := by
  by_contra htier
  apply h
  simp only [putTier]
  split
  · rfl
  · rw [if_pos (by omega)]
    rfl

theorem upsertTier_checked_iff {d : TierDTO} (htier : 0 ≤ d.tier) :
    TierRow env.pg ⟨d.targetID, d.vpnProfileID, d.tier⟩ ↔ d.Unchecked env.pg := by
  constructor
  · intro h
    exact ⟨h.targetID, h.vpnProfileID, h.tier.1.2⟩
  · intro h
    exact ⟨h.targetID, h.vpnProfileID, ⟨le_trans (by norm_num) htier, h.tier⟩, htier⟩

theorem upsertUser_checked_iff (d : UserDTO) : (upsertUser env d).Row env.pg ↔ d.Unchecked := by
  have hdefault : lit "user" ∈ roles := List.mem_cons_of_mem _ List.mem_cons_self
  have hrole := mem_default_iff hdefault d.role
  constructor
  · intro h
    exact ⟨h.username, h.secretRef.1, h.secretRef.2, hrole.mp h.role.2⟩
  · intro h
    have hmem := hrole.mpr h.role
    exact ⟨h.username, ⟨h.secretRef, h.nonBlank⟩, fits_of_mem (by decide) hmem, hmem⟩

end Handlers

/-- The row of a request that is past validation is in order exactly when the fields
that its handler does not look at are. -/
theorem put_rows_iff (env : Env) (t : Tables) (call : Call) (stmt : Statement)
    (hstmt : call.statement env = some stmt) (hput : stmt.writesRow = true)
    (hpast : (call.serve env t).2.code ≠ 400) :
    RowChecked env.pg stmt ↔ call.Unchecked env.pg := by
  rw [rowChecked_iff hput]
  cases call with
  | putProfile body =>
    cases body with
    | error e => cases hstmt
    | ok d =>
      obtain ⟨type, -, rfl⟩ := Option.map_eq_some_iff.mp hstmt
      exact upsertProfile_checked_iff d type
  | putTarget body =>
    cases body with
    | error e => cases hstmt
    | ok d =>
      cases hstmt
      exact (and_iff_left trivial).trans (upsertTarget_checked_iff (putTarget_past hpast))
  | putRule body =>
    cases body with
    | error e => cases hstmt
    | ok d =>
      cases hstmt
      have hconfig : (upsertRule env d).ObjectConfig := by
        unfold upsertRule
        split <;> trivial
      exact (and_iff_left hconfig).trans (upsertRule_checked_iff (putRule_past hpast))
  | putTier body =>
    cases body with
    | error e => cases hstmt
    | ok d =>
      cases hstmt
      exact (and_iff_left trivial).trans (upsertTier_checked_iff (putTier_past hpast))
  | putUser body =>
    cases body with
    | error e => cases hstmt
    | ok d =>
      cases hstmt
      exact (and_iff_left trivial).trans (upsertUser_checked_iff d)
  | deleteProfile id =>
    cases hstmt
    cases hput
  | deleteTarget id =>
    cases hstmt
    cases hput
  | deleteRule id =>
    cases hstmt
    cases hput
  | deleteTier targetID tierText =>
    obtain ⟨tier, -, rfl⟩ := Option.map_eq_some_iff.mp hstmt
    cases hput

/-- Takes every input and stores it as it is. -/
def lenient : Server := ⟨some, some, some, fun _ => []⟩

def bob (secretRef : Bytes) : Call :=
  .putUser (.ok { username := lit "bob", secretRef, enabled := true })

theorem put_rows_bob :
    RowChecked lenient (.upsertUser [] ⟨[], lit "bob", lit "bob-secret", lit "user", true⟩) := by
  have hfits : ∀ s ∈ [lit "bob", lit "bob-secret"], ∀ c ∈ text [] 255 s, c.1 = true := by decide
  refine (put_rows_iff { pg := lenient } {} (bob (lit "bob-secret")) _ rfl rfl (by decide)).mpr
    ⟨?_, ?_, ⟨98, by decide, by decide⟩, .inl rfl⟩
  · exact (text_iff _ _ _).mp (hfits _ List.mem_cons_self)
  · exact (text_iff _ _ _).mp (hfits _ (List.mem_cons_of_mem _ List.mem_cons_self))

/-- A user without a `secret_ref` is past validation, and the database refuses the row. -/
theorem put_user_without_secret :
    ((bob []).serve { pg := lenient } {}).2.code = 500 ∧
      ∃ stmt, (bob []).statement { pg := lenient } = some stmt ∧ stmt.writesRow = true ∧
        ¬RowChecked lenient stmt := by
  refine ⟨rfl, _, rfl, rfl, fun h => ?_⟩
  obtain ⟨b, hb, -⟩ := UserRow.secretRef h.row |>.2
  cases hb

end HelixProxy.Api
