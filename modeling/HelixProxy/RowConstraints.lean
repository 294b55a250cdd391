import HelixProxy.Postgres

/-!
# Row constraints

The column types and CHECK constraints of `sql/schema.sql` that concern one row by
itself, and that the statements test them: whatever else the tables hold, a row is
refused for itself exactly when it breaks one of them.
-/

namespace HelixProxy.Store

open Utf8
set_option autoImplicit false

/-- The text can be stored in a `varchar(n)` column. -/
structure FitsVarchar (n : Nat) (s : Bytes) : Prop where
  wellFormed : WellFormed s
  noNul : (0 : UInt8) ∉ s
  length : ∀ r ∈ (runes s).drop n, r = 32

def FitsInteger (n : Int) : Prop := -2 ^ 31 ≤ n ∧ n < 2 ^ 31

def protocols : List Bytes := [lit "http", lit "https", lit "tcp", lit "socks5"]
def roles : List Bytes := [lit "admin", lit "user"]

structure ProfileRow (pg : Server) (v : VPNProfile) : Prop where
  name : FitsVarchar 255 v.name
  config : (pg.config v.config).isSome
  secretRef : FitsVarchar 255 v.secretRef

structure TargetRow (pg : Server) (v : TargetHost) : Prop where
  publicAlias : FitsVarchar 255 v.publicAlias
  privateIP : (pg.inet v.privateIP).isSome
  port : FitsInteger v.port ∧ 1 ≤ v.port ∧ v.port ≤ 65535
  protocol : FitsVarchar 10 v.protocol ∧ v.protocol ∈ protocols
  vpnProfileID : (pg.nullableUUID v.vpnProfileID).isSome
  healthCheck : FitsVarchar 500 v.healthCheck

structure RuleRow (pg : Server) (v : ProxyRule) : Prop where
  priority : FitsInteger v.priority
  matchHost : FitsVarchar 255 v.matchHost
  matchPath : FitsVarchar 500 v.matchPath
  matchPresent : v.matchHost ≠ [] ∨ v.matchPath ≠ []
  targetHostID : (pg.nullableUUID v.targetHostID).isSome

structure TierRow (pg : Server) (v : TargetTunnelTier) : Prop where
  targetID : (pg.uuid v.targetID).isSome
  vpnProfileID : (pg.uuid v.vpnProfileID).isSome
  tier : FitsInteger v.tier ∧ 0 ≤ v.tier

structure UserRow (v : ProxyUser) : Prop where
  username : FitsVarchar 255 v.username
  secretRef : FitsVarchar 255 v.secretRef ∧ ∃ b ∈ v.secretRef, b ≠ space
  role : FitsVarchar 50 v.role ∧ v.role ∈ roles

/-- The row of a statement satisfies its column types and CHECK constraints. -/
def Statement.Row (pg : Server) : Statement → Prop
  | .upsertProfile _ v => ProfileRow pg v
  | .upsertTarget _ v => TargetRow pg v
  | .insertRule _ v => RuleRow pg v
  | .updateRule v => (pg.uuid v.id).isSome ∧ RuleRow pg v
  | .upsertTier v => TierRow pg v
  | .upsertUser _ v => UserRow v
  | .deleteProfile _ | .deleteTarget _ | .deleteRule _ | .deleteTier _ _ => True

def Statement.writesRow : Statement → Bool
  | .deleteProfile _ | .deleteTarget _ | .deleteRule _ | .deleteTier _ _ => false
  | _ => true

/-- Errors that depend on what the tables hold, not on the row alone. -/
def SqlError.referential : SqlError → Bool
  | .violates c => [lit "vpn_profiles_pkey", lit "target_hosts_pkey", lit "proxy_rules_pkey",
      lit "proxy_users_pkey", lit "target_hosts_vpn_profile_id_fkey",
      lit "proxy_rules_target_host_id_fkey", lit "target_tunnel_tiers_target_host_id_fkey",
      lit "target_tunnel_tiers_vpn_profile_id_fkey",
      lit "target_tunnel_tiers_unique_profile"].contains c
  | .noRows => true
  | .invalidInput _ | .tooLong _ | .outOfRange _ => false

section Columns

theorem text_iff (column : Bytes) (n : Nat) (s : Bytes) :
    (∀ c ∈ text column n s, c.1 = true) ↔ FitsVarchar n s := by
  have hall : (∀ c ∈ text column n s, c.1 = true) ↔
      (WellFormed s ∧ (0 : UInt8) ∉ s) ∧ ∀ r ∈ (runes s).drop n, r = 32 := by
    simp [text, storable, varchar]
  rw [hall]
  constructor
  · rintro ⟨⟨hwf, hnul⟩, hlen⟩
    exact ⟨hwf, hnul, hlen⟩
  · intro h
    exact ⟨⟨h.wellFormed, h.noNul⟩, h.length⟩

instance (n : Nat) (s : Bytes) : Decidable (FitsVarchar n s) :=
  decidable_of_iff _ (text_iff [] n s)

theorem fits_of_mem {n : Nat} {values : List Bytes}
    (hall : ∀ v ∈ values, ∀ c ∈ text [] n v, c.1 = true) {s : Bytes} (h : s ∈ values) :
    FitsVarchar n s :=
  (text_iff [] n s).mp (hall s h)

theorem int4_iff (n : Int) : int4 n = true ↔ FitsInteger n := by
  simp [int4, FitsInteger]

/-- A text that is kept shorter than its column is kept whole. -/
theorem assigned_eq {n : Nat} {s : Bytes} (h : (assigned n s).length < n) : assigned n s = s := by
  have hlen : ∀ segs : List (Nat × Bytes), (∀ p ∈ segs, p.2 ≠ []) →
      segs.length ≤ (segs.flatMap Prod.snd).length := by
    intro segs hne
    induction segs with
    | nil => simp
    | cons p rest ih =>
      have hp := List.length_pos_iff.mpr (hne p List.mem_cons_self)
      have hrest := ih fun q hq => hne q (List.mem_cons_of_mem p hq)
      simp only [List.length_cons, List.flatMap_cons, List.length_append]
      omega
  have htake := hlen ((segments s).take n) fun p hp => ne_nil_of_mem_segments (List.mem_of_mem_take hp)
  unfold assigned at h ⊢
  rw [List.length_take] at htake
  rw [List.take_of_length_le (by omega), flatMap_segments]

theorem contains_assigned_iff {n : Nat} {values : List Bytes} (h : ∀ v ∈ values, v.length < n)
    (hn : ∀ v ∈ values, assigned n v = v) (s : Bytes) :
    values.contains (assigned n s) = true ↔ s ∈ values := by
  rw [List.contains_iff_mem]
  constructor
  · intro hmem
    rwa [assigned_eq (h _ hmem)] at hmem
  · intro hmem
    rwa [hn s hmem]

theorem bytes_of_space {s : Bytes} {p : Nat × Bytes} (hp : p ∈ segments s) (h : p.1 = 32) :
    p.2 = [space] := by
  induction s using segments_induction with
  | nil => cases hp
  | step s hs ih =>
    rw [segments_of_ne hs, List.mem_cons] at hp
    rcases hp with rfl | hp
    · obtain ⟨b, rest, rfl⟩ := List.exists_cons_of_ne_nil hs
      have hrune : (decodeRune (b :: rest)).1 = 32 := h
      have hd := @decodeRune_lt b rest (by omega)
      rw [hd] at hrune
      have hb : b = space := UInt8.toNat_inj.mp hrune
      change List.take (decodeRune (b :: rest)).2 (b :: rest) = [space]
      rw [hd, hb]
      rfl
    · exact ih hp

/-- Cutting off spaces leaves something else, if there was something else. -/
theorem any_assigned_iff {n : Nat} {s : Bytes} (h : ∀ r ∈ (runes s).drop n, r = 32) :
    (assigned n s).any (· ≠ space) = true ↔ ∃ b ∈ s, b ≠ space := by
  have hsplit : s = assigned n s ++ ((segments s).drop n).flatMap Prod.snd := by
    rw [assigned, ← List.flatMap_append, List.take_append_drop, flatMap_segments]
  have hrest : ∀ b ∈ ((segments s).drop n).flatMap Prod.snd, b = space := by
    intro b hb
    obtain ⟨p, hp, hbp⟩ := List.mem_flatMap.mp hb
    have hrune : p.1 = 32 := h p.1 (by
      rw [runes, ← List.map_drop]
      exact List.mem_map_of_mem hp)
    rw [bytes_of_space (List.mem_of_mem_drop hp) hrune] at hbp
    exact List.mem_singleton.mp hbp
  simp only [List.any_eq_true, decide_eq_true_eq]
  constructor
  · rintro ⟨b, hb, hne⟩
    refine ⟨b, ?_, hne⟩
    rw [hsplit]
    exact List.mem_append_left _ hb
  · rintro ⟨b, hb, hne⟩
    rw [hsplit] at hb
    rcases List.mem_append.mp hb with hb | hb
    · exact ⟨b, hb, hne⟩
    · exact absurd (hrest b hb) hne

end Columns

section Guards

variable {α : Type}

theorem guarded_eq_error {checks : List (Bool × SqlError)} {x : α} {e : SqlError}
    (h : guarded checks x = .error e) : ∃ c ∈ checks, c.1 = false ∧ c.2 = e := by
  unfold guarded at h
  split at h
  · next b e' hfind =>
    obtain rfl : e' = e := Except.error.inj h
    have hfailed := List.find?_some hfind
    exact ⟨(b, e'), List.mem_of_find?_eq_some hfind, by simpa using hfailed, rfl⟩
  · cases h

theorem guarded_map {β : Type} (f : α → β) (checks : List (Bool × SqlError)) (x : α) :
    (guarded checks x).map f = guarded checks (f x) := by
  unfold guarded
  split <;> rfl

theorem guarded_skip (before after : List (Bool × SqlError)) (e : SqlError) (x : α) :
    guarded (before ++ (true, e) :: after) x = guarded (before ++ after) x := by
  simp [guarded, List.find?_append]

/-- With the checks of the row before those of its references, no error is about the
row exactly when the row passes. -/
theorem guarded_row_iff {row refs : List (Bool × SqlError)} {x : α}
    (hrow : ∀ c ∈ row, c.2.referential = false) (hrefs : ∀ c ∈ refs, c.2.referential = true) :
    (∀ e, guarded (row ++ refs) x = .error e → e.referential = true) ↔ ∀ c ∈ row, c.1 = true := by
  constructor
  · intro h
    cases hfind : row.find? (!·.1) with
    | none => simpa using hfind
    | some c =>
      have herr : guarded (row ++ refs) x = .error c.2 := by
        simp [guarded, List.find?_append, hfind]
      have hfalse := hrow c (List.mem_of_find?_eq_some hfind)
      rw [h c.2 herr] at hfalse
      cases hfalse
  · intro h e herr
    obtain ⟨c, hc, hfailed, rfl⟩ := guarded_eq_error herr
    rcases List.mem_append.mp hc with hc | hc
    · rw [h c hc] at hfailed
      cases hfailed
    · exact hrefs c hc

/-- The same for a statement that has this form over every content of the tables. -/
theorem exec_row_iff_of_guarded {exec : Tables → Except SqlError α} {row : List (Bool × SqlError)}
    (hrow : ∀ c ∈ row, c.2.referential = false)
    (h : ∀ t, ∃ refs x, exec t = guarded (row ++ refs) x ∧ ∀ c ∈ refs, c.2.referential = true) :
    (∀ t e, exec t = .error e → e.referential = true) ↔ ∀ c ∈ row, c.1 = true := by
  constructor
  · intro hexec
    obtain ⟨refs, x, heq, hrefs⟩ := h {}
    have hempty := hexec {}
    rw [heq] at hempty
    exact (guarded_row_iff hrow hrefs).mp hempty
  · intro hpass t
    obtain ⟨refs, x, heq, hrefs⟩ := h t
    rw [heq]
    exact (guarded_row_iff hrow hrefs).mpr hpass

end Guards

section Rows

variable (pg : Server)

theorem profileChecks_iff (v : VPNProfile) :
    (∀ c ∈ profileChecks pg v, c.1 = true) ↔ ProfileRow pg v := by
  simp only [profileChecks, List.forall_mem_append, text_iff, List.forall_mem_singleton]
  constructor
  · rintro ⟨⟨hname, hconfig⟩, hsecret⟩
    exact ⟨hname, hconfig, hsecret⟩
  · intro h
    exact ⟨⟨h.name, h.config⟩, h.secretRef⟩

theorem targetChecks_iff (v : TargetHost) :
    (∀ c ∈ targetChecks v, c.1 = true) ∧ (pg.inet v.privateIP).isSome ∧
      (pg.nullableUUID v.vpnProfileID).isSome ↔ TargetRow pg v := by
  have hset : protocols.contains (assigned 10 v.protocol) = true ↔ v.protocol ∈ protocols :=
    contains_assigned_iff (by decide) (by decide) v.protocol
  unfold protocols at hset
  simp only [targetChecks, List.forall_mem_append, text_iff, List.forall_mem_cons, int4_iff,
    decide_eq_true_eq, hset, List.not_mem_nil, false_implies, implies_true, and_true]
  constructor
  · rintro ⟨⟨⟨⟨⟨halias, hint, hport⟩, hprotocol⟩, hmem⟩, hhealth⟩, hip, hprofile⟩
    exact ⟨halias, hip, ⟨hint, hport⟩, ⟨hprotocol, hmem⟩, hprofile, hhealth⟩
  · intro h
    exact ⟨⟨⟨⟨⟨h.publicAlias, h.port⟩, h.protocol.1⟩, h.protocol.2⟩, h.healthCheck⟩,
      h.privateIP, h.vpnProfileID⟩

theorem ruleChecks_iff (v : ProxyRule) :
    (∀ c ∈ ruleInputs v ++ ruleChecks v, c.1 = true) ∧ (pg.nullableUUID v.targetHostID).isSome ↔
      RuleRow pg v := by
  have htext : ∀ n s, FitsVarchar n s ↔ storable s = true ∧ varchar n s = true := by
    intro n s
    rw [← text_iff []]
    simp [text]
  simp only [ruleInputs, ruleChecks, List.forall_mem_append, List.forall_mem_cons, int4_iff,
    List.not_mem_nil, false_implies, implies_true, and_true, Bool.or_eq_true, decide_eq_true_eq]
  constructor
  · rintro ⟨⟨⟨hint, hhost, hpath⟩, hhost', hpath', hmatch⟩, htarget⟩
    exact ⟨hint, (htext _ _).mpr ⟨hhost, hhost'⟩, (htext _ _).mpr ⟨hpath, hpath'⟩, hmatch, htarget⟩
  · intro h
    obtain ⟨hhost, hhost'⟩ := (htext _ _).mp h.matchHost
    obtain ⟨hpath, hpath'⟩ := (htext _ _).mp h.matchPath
    exact ⟨⟨⟨h.priority, hhost, hpath⟩, hhost', hpath', h.matchPresent⟩, h.targetHostID⟩

theorem userChecks_iff (v : ProxyUser) : (∀ c ∈ userChecks v, c.1 = true) ↔ UserRow v := by
  have hset : roles.contains (assigned 50 v.role) = true ↔ v.role ∈ roles :=
    contains_assigned_iff (by decide) (by decide) v.role
  unfold roles at hset
  simp only [userChecks, List.forall_mem_append, text_iff, List.forall_mem_cons, hset,
    List.not_mem_nil, false_implies, implies_true, and_true]
  constructor
  · rintro ⟨⟨⟨hname, hsecret⟩, hrole⟩, hmem, hany⟩
    exact ⟨hname, ⟨hsecret, (any_assigned_iff hsecret.length).mp hany⟩, hrole, hmem⟩
  · intro h
    exact ⟨⟨⟨h.username, h.secretRef.1⟩, h.role.1⟩, h.role.2,
      (any_assigned_iff h.secretRef.1.length).mpr h.secretRef.2⟩

theorem not_row_of_invalid {α : Type} {exec : Tables → Except SqlError α} (column : Bytes)
    (h : exec {} = .error (.invalidInput column)) :
    ¬ ∀ t e, exec t = .error e → e.referential = true := by
  intro hall
  cases hall {} _ h

theorem upsertProfile_row_iff (newID : Bytes) (v : VPNProfile) :
    (∀ t e, sqlUpsertProfile pg newID v t = .error e → e.referential = true) ↔ ProfileRow pg v := by
  rw [← profileChecks_iff]
  apply exec_row_iff_of_guarded
  · simp [profileChecks, text, SqlError.referential]
  · intro t
    simp only [sqlUpsertProfile]
    split
    · exact ⟨[], _, by rw [List.append_nil], by simp⟩
    · exact ⟨_, _, rfl, by simp [SqlError.referential]⟩

theorem upsertTarget_row_iff (newID : Bytes) (v : TargetHost) :
    (∀ t e, sqlUpsertTarget pg newID v t = .error e → e.referential = true) ↔ TargetRow pg v := by
  cases hip : pg.inet v.privateIP with
  | none =>
    refine iff_of_false (not_row_of_invalid (lit "private_ip") ?_) fun h => ?_
    · simp only [sqlUpsertTarget, hip]
    · simpa [hip] using h.privateIP
  | some ip =>
    cases hprofile : pg.nullableUUID v.vpnProfileID with
    | none =>
      refine iff_of_false (not_row_of_invalid (lit "vpn_profile_id") ?_) fun h => ?_
      · simp only [sqlUpsertTarget, hip, hprofile]
      · simpa [hprofile] using h.vpnProfileID
    | some profile =>
      have hrow : TargetRow pg v ↔ ∀ c ∈ targetChecks v, c.1 = true := by
        rw [← targetChecks_iff, hip, hprofile]
        simp
      rw [hrow]
      apply exec_row_iff_of_guarded
      · simp [targetChecks, text, SqlError.referential]
      · intro t
        simp only [sqlUpsertTarget, hip, hprofile]
        split
        · exact ⟨_, _, rfl, by simp [SqlError.referential]⟩
        · exact ⟨_, _, by rw [List.append_assoc], by simp [SqlError.referential]⟩

theorem ruleRow_iff {v : ProxyRule} {target : Bytes}
    (h : pg.nullableUUID v.targetHostID = some target) :
    RuleRow pg v ↔ ∀ c ∈ ruleInputs v ++ ruleChecks v, c.1 = true := by
  rw [← ruleChecks_iff, h]
  simp

theorem rule_checks_referential (v : ProxyRule) :
    ∀ c ∈ ruleInputs v ++ ruleChecks v, c.2.referential = false := by
  simp [ruleInputs, ruleChecks, SqlError.referential]

theorem insertRule_row_iff (newID : Bytes) (v : ProxyRule) :
    (∀ t e, sqlInsertRule pg newID v t = .error e → e.referential = true) ↔ RuleRow pg v := by
  cases htarget : pg.nullableUUID v.targetHostID with
  | none =>
    refine iff_of_false (not_row_of_invalid (lit "target_host_id") ?_) fun h => ?_
    · simp only [sqlInsertRule, htarget]
    · simpa [htarget] using h.targetHostID
  | some target =>
    rw [ruleRow_iff pg htarget]
    apply exec_row_iff_of_guarded (rule_checks_referential v)
    intro t
    simp only [sqlInsertRule, htarget]
    exact ⟨_, _, by rw [List.append_assoc _ (ruleTarget target t)],
      by simp [ruleTarget, SqlError.referential]⟩

/-- The row is looked for between the checks, so that only tables that hold it show
all of them. -/
theorem updateRule_row_iff (v : ProxyRule) :
    (∀ t e, sqlUpdateRule pg v t = .error e → e.referential = true) ↔
      (pg.uuid v.id).isSome ∧ RuleRow pg v := by
  cases hid : pg.uuid v.id with
  | none =>
    refine iff_of_false (not_row_of_invalid (lit "id") ?_) (by simp)
    simp only [sqlUpdateRule, hid]
  | some id =>
    cases htarget : pg.nullableUUID v.targetHostID with
    | none =>
      refine iff_of_false (not_row_of_invalid (lit "target_host_id") ?_) fun h => ?_
      · simp only [sqlUpdateRule, hid, htarget]
      · simpa [htarget] using h.2.targetHostID
    | some target =>
      have hrefs : ∀ t, ∀ c ∈ ruleTarget target t, c.2.referential = true := by
        simp [ruleTarget, SqlError.referential]
      simp only [Option.isSome_some, true_and, ruleRow_iff pg htarget]
      constructor
      · intro h
        have hheld := h { proxyRules := [v.stored id target] }
        simp only [sqlUpdateRule, hid, htarget] at hheld
        rw [show List.any [v.stored id target] (·.id = id) = true by simp [ProxyRule.stored],
          List.append_assoc (ruleInputs v), List.append_assoc, List.singleton_append, List.cons_append,
          guarded_skip, ← List.append_assoc] at hheld
        exact (guarded_row_iff (rule_checks_referential v) (hrefs _)).mp hheld
      · intro hpass t e herr
        simp only [sqlUpdateRule, hid, htarget] at herr
        obtain ⟨c, hc, hfailed, rfl⟩ := guarded_eq_error herr
        simp only [List.mem_append, List.mem_singleton] at hc
        rcases hc with ((hc | rfl) | hc) | hc
        · exact absurd (hpass c (List.mem_append_left _ hc)) (by simp [hfailed])
        · rfl
        · exact absurd (hpass c (List.mem_append_right _ hc)) (by simp [hfailed])
        · exact hrefs t c hc

theorem upsertTier_row_iff (v : TargetTunnelTier) :
    (∀ t e, (Statement.upsertTier v).exec pg t = .error e → e.referential = true) ↔
      TierRow pg v := by
  cases htarget : pg.uuid v.targetID with
  | none =>
    refine iff_of_false (not_row_of_invalid (lit "target_host_id") ?_) fun h => ?_
    · simp only [Statement.exec, sqlUpsertTier, htarget]
      rfl
    · simpa [htarget] using h.targetID
  | some target =>
    cases hprofile : pg.uuid v.vpnProfileID with
    | none =>
      refine iff_of_false (not_row_of_invalid (lit "vpn_profile_id") ?_) fun h => ?_
      · simp only [Statement.exec, sqlUpsertTier, htarget, hprofile]
        rfl
      · simpa [hprofile] using h.vpnProfileID
    | some profile =>
      let row : List (Bool × SqlError) := [(int4 v.tier, .outOfRange (lit "tier")),
        (0 ≤ v.tier, .violates (lit "target_tunnel_tiers_tier_chk"))]
      have hrow : TierRow pg v ↔ ∀ c ∈ row, c.1 = true := by
        simp only [row, List.forall_mem_cons, int4_iff, decide_eq_true_eq, List.not_mem_nil,
          false_implies, implies_true, and_true]
        constructor
        · intro h
          exact h.tier
        · intro h
          exact ⟨by simp [htarget], by simp [hprofile], h⟩
      rw [hrow]
      apply exec_row_iff_of_guarded
      · simp [row, SqlError.referential]
      · intro t
        simp only [Statement.exec, sqlUpsertTier, htarget, hprofile, guarded_map]
        exact ⟨[_, _, _], _, rfl, by simp [SqlError.referential]⟩

theorem upsertUser_row_iff (newID : Bytes) (v : ProxyUser) :
    (∀ t e, sqlUpsertUser newID v t = .error e → e.referential = true) ↔ UserRow v := by
  rw [← userChecks_iff]
  apply exec_row_iff_of_guarded
  · simp [userChecks, text, SqlError.referential]
  · intro t
    simp only [sqlUpsertUser]
    split
    · exact ⟨[], _, by rw [List.append_nil], by simp⟩
    · exact ⟨_, _, rfl, by simp [SqlError.referential]⟩

/-- The constraints are what the database tests: a statement that writes a row fails,
on whatever the tables hold, only over other rows exactly when its own row is in order. -/
theorem exec_row_iff {stmt : Statement} (h : stmt.writesRow = true) :
    (∀ t e, stmt.exec pg t = .error e → e.referential = true) ↔ stmt.Row pg := by
  cases stmt with
  | upsertProfile newID v => exact upsertProfile_row_iff pg newID v
  | upsertTarget newID v => exact upsertTarget_row_iff pg newID v
  | insertRule newID v => exact insertRule_row_iff pg newID v
  | updateRule v => exact updateRule_row_iff pg v
  | upsertTier v => exact upsertTier_row_iff pg v
  | upsertUser newID v => exact upsertUser_row_iff newID v
  | deleteProfile id => cases h
  | deleteTarget id => cases h
  | deleteRule id => cases h
  | deleteTier targetID tier => cases h

end Rows

/-- The config is an object, as the error text of `putProfile` asks. -/
def Statement.ObjectConfig : Statement → Prop
  | .upsertProfile _ v => ∃ members, v.config = .document (.object members)
  | _ => True

/-- What validation is for: the row is in order, so that the database cannot refuse it
for itself. -/
structure RowChecked (pg : Server) (stmt : Statement) : Prop where
  row : stmt.Row pg
  config : stmt.ObjectConfig
  database : ∀ t e, stmt.exec pg t = .error e → e.referential = true

theorem rowChecked_iff {pg : Server} {stmt : Statement} (h : stmt.writesRow = true) :
    RowChecked pg stmt ↔ stmt.Row pg ∧ stmt.ObjectConfig := by
  constructor
  · intro hchecked
    exact ⟨hchecked.row, hchecked.config⟩
  · rintro ⟨hrow, hconfig⟩
    exact ⟨hrow, hconfig, (exec_row_iff pg h).mpr hrow⟩

end HelixProxy.Store
