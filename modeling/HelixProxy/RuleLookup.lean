import HelixProxy.ControlApi
import HelixProxy.Library.OrderBy
import HelixProxy.RowConstraints
import Mathlib.Data.List.Sort

/-!
# Looking up the rule of a host

`ListRules`, `GetRuleByHost` and `UpsertRule` of `internal/store/postgres.go`: one
query selects before it orders, the other orders everything. When a rule was
created is found by its id, which no update changes.
-/

namespace HelixProxy.Api

open OrderBy Store
set_option autoImplicit false

/-- `ORDER BY priority DESC, created_at ASC`. -/
def Precedes (created : Bytes → Int) (a b : ProxyRule) : Prop :=
  b.priority < a.priority ∨ a.priority = b.priority ∧ created a.id ≤ created b.id

instance (created : Bytes → Int) (a b : ProxyRule) : Decidable (Precedes created a b) :=
  inferInstanceAs (Decidable (_ ∨ _))

/-- No two rules are equal in the order. -/
def DistinctRules (created : Bytes → Int) (rules : List ProxyRule) : Prop :=
  (rules.map fun r => (r.priority, created r.id)).Nodup

/-- `enabled = true AND match_host = $1`, which NULL never satisfies. -/
def selects (host : Bytes) (r : ProxyRule) : Bool :=
  r.enabled && decide (r.matchHost ≠ []) && decide (r.matchHost = host)

section Queries

variable {created : Bytes → Int}

def listRules (order : Sorting (Precedes created)) (t : Tables) : List ProxyRule :=
  order.run t.proxyRules

def sqlGetRuleByHost (order : Sorting (Precedes created)) (host : Bytes) (t : Tables) :
    Except SqlError ProxyRule :=
  if storable host then
    match (order.run (t.proxyRules.filter (selects host))).head? with
    | some r => .ok r
    | none => .error .noRows
  else .error (.invalidInput (lit "match_host"))

def getRuleByHost (pg : Server) (order : Sorting (Precedes created)) (host : Bytes) (t : Tables) :
    Except StoreError ProxyRule :=
  match sqlGetRuleByHost order host t with
  | .ok r => .ok r
  | .error .noRows => .error .notFound
  | .error e => .error (.failed (lit "store: get rule by host: " ++ pg.errorText e))

/-- `UpsertRule`: a statement that fails leaves the tables as they were. -/
def upsertRuleRow (pg : Server) (newID : Bytes) (d : RuleDTO) (t : Tables) :
    Tables × Except StoreError Bytes :=
  match queryRow { pg, newID } (lit "store: upsert rule") (upsertRule { pg, newID } d) t with
  | .ok (t', id) => (t', .ok id)
  | .error e => (t, .error e)

end Queries

section Lookup

variable {created : Bytes → Int}

theorem precedes_refl (a : ProxyRule) : Precedes created a a := .inr ⟨rfl, le_rfl⟩

theorem DistinctRules.eq_of_precedes {rules : List ProxyRule} (h : DistinctRules created rules) :
    ∀ a ∈ rules, ∀ b ∈ rules, Precedes created a b → Precedes created b a → a = b := by
  intro a ha b hb hab hba
  apply List.inj_on_of_nodup_map h ha hb
  unfold Precedes at hab hba
  apply Prod.ext
  · simp only
    omega
  · simp only
    omega

theorem selects_iff {host : Bytes} (hne : host ≠ []) (r : ProxyRule) :
    selects host r = true ↔ r.enabled = true ∧ r.matchHost = host := by
  simp only [selects, Bool.and_eq_true, decide_eq_true_eq]
  constructor
  · rintro ⟨⟨henabled, -⟩, hhost⟩
    exact ⟨henabled, hhost⟩
  · rintro ⟨henabled, hhost⟩
    exact ⟨⟨henabled, hhost ▸ hne⟩, hhost⟩

/-- What a lookup by host answers, over the rules alone. -/
theorem getRuleByHost_eq (pg : Server) (order : Sorting (Precedes created)) {host : Bytes}
    (h : storable host = true) (t : Tables) :
    getRuleByHost pg order host t =
      match (order.run (t.proxyRules.filter (selects host))).head? with
      | some r => .ok r
      | none => .error .notFound := by
  unfold getRuleByHost sqlGetRuleByHost
  rw [if_pos h]
  cases (order.run (t.proxyRules.filter (selects host))).head? with
  | none => rfl
  | some r => rfl

variable (pg : Server) (list lookup : Sorting (Precedes created)) (t : Tables)

/-- The lookup of a host is the first rule of the list that is enabled and has it. -/
def Agrees : Prop :=
  ∀ host, host ≠ [] → storable host = true →
    getRuleByHost pg lookup host t =
      match (listRules list t).find? fun r => r.enabled && decide (r.matchHost = host) with
      | some r => .ok r
      | none => .error .notFound

/-- The lookup of a host answers by the rules the tables hold now. -/
def Reflects : Prop :=
  ∀ host, host ≠ [] → storable host = true →
    match getRuleByHost pg lookup host t with
    | .ok r => r ∈ t.proxyRules ∧ r.enabled = true ∧ r.matchHost = host ∧
        ∀ r' ∈ t.proxyRules, r'.enabled = true → r'.matchHost = host → Precedes created r r'
    | .error e => e = .notFound ∧ ∀ r ∈ t.proxyRules, ¬(r.enabled = true ∧ r.matchHost = host)

theorem agrees_of_distinct (h : DistinctRules created t.proxyRules) : Agrees pg list lookup t := by
  intro host hne hstorable
  have hselects : selects host = fun r => r.enabled && decide (r.matchHost = host) := by
    funext r
    rw [Bool.eq_iff_iff, selects_iff hne, Bool.and_eq_true, decide_eq_true_eq]
  rw [getRuleByHost_eq pg lookup hstorable, ← hselects, listRules,
    list.head?_run_filter lookup (selects host) h.eq_of_precedes]

theorem lookup_reflects : Reflects pg lookup t := by
  intro host hne hstorable
  rw [getRuleByHost_eq pg lookup hstorable]
  cases hhead : (lookup.run (t.proxyRules.filter (selects host))).head? with
  | none =>
    have hempty := lookup.head?_eq_none_iff.mp hhead
    refine ⟨rfl, ?_⟩
    intro r hr hmatch
    exact List.filter_eq_nil_iff.mp hempty r hr ((selects_iff hne r).mpr hmatch)
  | some r =>
    obtain ⟨hmem, hleast⟩ := lookup.least precedes_refl hhead
    obtain ⟨hr, hselects⟩ := List.mem_filter.mp hmem
    obtain ⟨henabled, hhost⟩ := (selects_iff hne r).mp hselects
    refine ⟨hr, henabled, hhost, ?_⟩
    intro r' hr' henabled' hhost'
    exact hleast r' (List.mem_filter.mpr ⟨hr', (selects_iff hne r').mpr ⟨henabled', hhost'⟩⟩)

end Lookup

section Update

/-- The server can read every value of the rule. -/
structure Readable (pg : Server) (v : ProxyRule) : Prop where
  priority : int4 v.priority = true
  matchHost : storable v.matchHost = true
  matchPath : storable v.matchPath = true
  targetHostID : (pg.nullableUUID v.targetHostID).isSome

/-- The rule meets the constraints of its columns and names a target that exists. -/
structure Admissible (pg : Server) (v : ProxyRule) (t : Tables) : Prop where
  row : RuleRow pg v
  target : ∀ target, pg.nullableUUID v.targetHostID = some target →
    target = [] ∨ ∃ h ∈ t.targetHosts, h.id = target

/-- The rules with the one of this id replaced. -/
def replaceRule (id : Bytes) (v : ProxyRule) (t : Tables) : Tables :=
  { t with proxyRules := t.proxyRules.map fun r => if r.id = id then v else r }

def Known (id : Bytes) (t : Tables) : Prop := ∃ r ∈ t.proxyRules, r.id = id

theorem known_iff (id : Bytes) (t : Tables) :
    (t.proxyRules.any (·.id = id)) = true ↔ Known id t := by
  simp [Known]

/-- A row is missing exactly when everything read before it was fine. -/
theorem guarded_noRows_iff {α : Type} {inputs checks : List (Bool × SqlError)} {found : Bool} {x : α}
    (hinputs : ∀ c ∈ inputs, c.2 ≠ .noRows) (hchecks : ∀ c ∈ checks, c.2 ≠ .noRows) :
    guarded (inputs ++ (found, .noRows) :: checks) x = .error .noRows ↔
      (∀ c ∈ inputs, c.1 = true) ∧ found = false := by
  unfold guarded
  rw [List.find?_append]
  cases hfind : inputs.find? (!·.1) with
  | some c =>
    have hmem := List.mem_of_find?_eq_some hfind
    have hfailed : c.1 = false := by simpa using List.find?_some hfind
    refine iff_of_false ?_ ?_
    · intro herr
      exact hinputs c hmem (Except.error.inj herr)
    · rintro ⟨hpass, -⟩
      rw [hpass c hmem] at hfailed
      cases hfailed
  | none =>
    have hpass : ∀ c ∈ inputs, c.1 = true := by simpa using hfind
    cases found with
    | false => simpa using hpass
    | true =>
      refine iff_of_false ?_ (by simp)
      intro herr
      change guarded checks x = .error .noRows at herr
      obtain ⟨c, hc, -, hrows⟩ := guarded_eq_error herr
      exact hchecks c hc hrows

theorem guarded_of_forall {α : Type} {checks : List (Bool × SqlError)} (x : α)
    (h : ∀ c ∈ checks, c.1 = true) : guarded checks x = .ok x := by
  have hnone : checks.find? (!·.1) = none := by simpa using h
  rw [guarded, hnone]

section Statement

variable {pg : Server} {v : ProxyRule} {id : Bytes} (hid : pg.uuid v.id = some id)
include hid

theorem updateRule_ok {t t' : Tables} {id' : Bytes} (h : sqlUpdateRule pg v t = .ok (t', id')) :
    id' = id ∧ Known id t ∧ ∃ target, pg.nullableUUID v.targetHostID = some target ∧
      t' = replaceRule id (v.stored id target) t := by
  cases htarget : pg.nullableUUID v.targetHostID with
  | none => simp [sqlUpdateRule, hid, htarget] at h
  | some target =>
    simp only [sqlUpdateRule, hid, htarget] at h
    obtain ⟨hvalue, hpass⟩ := guarded_eq_ok h
    obtain ⟨rfl, rfl⟩ := Prod.mk.inj hvalue
    refine ⟨rfl, (known_iff id t).mp ?_, target, rfl, rfl⟩
    exact hpass (t.proxyRules.any (·.id = id), SqlError.noRows) (by simp)

theorem updateRule_noRows_iff (t : Tables) :
    sqlUpdateRule pg v t = .error .noRows ↔ Readable pg v ∧ ¬Known id t := by
  cases htarget : pg.nullableUUID v.targetHostID with
  | none =>
    refine iff_of_false ?_ ?_
    · simp [sqlUpdateRule, hid, htarget]
    · rintro ⟨hread, -⟩
      simpa [htarget] using hread.targetHostID
  | some target =>
    have hread : Readable pg v ↔ ∀ c ∈ ruleInputs v, c.1 = true := by
      simp only [ruleInputs, List.forall_mem_cons, List.not_mem_nil, false_implies, implies_true,
        and_true]
      constructor
      · intro h
        exact ⟨h.priority, h.matchHost, h.matchPath⟩
      · rintro ⟨hpriority, hhost, hpath⟩
        exact ⟨hpriority, hhost, hpath, by simp [htarget]⟩
    simp only [sqlUpdateRule, hid, htarget]
    rw [List.append_assoc, List.append_assoc, List.singleton_append, guarded_noRows_iff, hread,
      ← known_iff, Bool.not_eq_true]
    · simp [ruleInputs]
    · simp [ruleChecks, ruleTarget]

theorem updateRule_of_admissible {t : Tables} (hknown : Known id t) (h : Admissible pg v t) :
    ∃ out, sqlUpdateRule pg v t = .ok out := by
  obtain ⟨target, htarget⟩ := Option.isSome_iff_exists.mp h.row.targetHostID
  have hrow := (ruleRow_iff pg htarget).mp h.row
  rw [List.forall_mem_append] at hrow
  have hreference : ∀ c ∈ ruleTarget target t, c.1 = true := by
    simpa [ruleTarget] using h.target target htarget
  simp only [sqlUpdateRule, hid, htarget]
  refine ⟨_, guarded_of_forall _ ?_⟩
  simp only [List.forall_mem_append, List.forall_mem_singleton]
  exact ⟨⟨⟨hrow.1, (known_iff id t).mpr hknown⟩, hrow.2⟩, hreference⟩

end Statement

end Update

section Upsert

/-- The rule a request describes. -/
def RuleDTO.rule (d : RuleDTO) : ProxyRule :=
  ⟨d.id, d.priority, d.matchHost, d.matchPath, d.targetHostID, d.enabled⟩

theorem upsertRuleRow_eq (pg : Server) (newID : Bytes) {d : RuleDTO} (hd : d.id ≠ []) (t : Tables) :
    upsertRuleRow pg newID d t =
      match sqlUpdateRule pg d.rule t with
      | .ok (t', id) => (t', .ok id)
      | .error .noRows => (t, .error .notFound)
      | .error e => (t, .error (.failed (lit "store: upsert rule: " ++ pg.errorText e))) := by
  have hstatement : upsertRule { pg, newID } d = .updateRule d.rule := if_pos hd
  unfold upsertRuleRow
  rw [hstatement]
  simp only [queryRow, query, Statement.exec]
  cases sqlUpdateRule pg d.rule t with
  | ok out => rfl
  | error e =>
    cases e with
    | noRows => rfl
    | _ => rfl

variable {created : Bytes → Int}

/-- With no two rules equal in the order, a lookup by host agrees with the list of
rules. An update by id replaces the one rule, as its columns store it, and nothing
else; the lookup follows it. An id that no rule has is not found, and nothing
changes whenever an update fails. -/
theorem rule_lookup_agrees (pg : Server) (newID : Bytes) (list lookup : Sorting (Precedes created))
    {t : Tables} (h : DistinctRules created t.proxyRules) :
    Agrees pg list lookup t ∧
      ∀ (d : RuleDTO) (id : Bytes), d.id ≠ [] → pg.uuid d.id = some id →
        match upsertRuleRow pg newID d t with
        | (t', .ok id') =>
          id' = id ∧ Known id t ∧
            (∃ target, pg.nullableUUID d.targetHostID = some target ∧
              t' = replaceRule id (d.rule.stored id target) t) ∧
            Reflects pg lookup t' ∧
            (DistinctRules created t'.proxyRules → Agrees pg list lookup t')
        | (t', .error e) =>
          t' = t ∧ (e = .notFound ↔ Readable pg d.rule ∧ ¬Known id t) ∧
            ¬(Known id t ∧ Admissible pg d.rule t) := by
  refine ⟨agrees_of_distinct pg list lookup t h, ?_⟩
  intro d id hd hid
  have hrows := @updateRule_noRows_iff pg d.rule id hid t
  have hadmissible := @updateRule_of_admissible pg d.rule id hid t
  rw [upsertRuleRow_eq pg newID hd]
  cases hexec : sqlUpdateRule pg d.rule t with
  | ok out =>
    obtain ⟨t', id'⟩ := out
    obtain ⟨hsame, hknown, hreplaced⟩ := updateRule_ok hid hexec
    exact ⟨hsame, hknown, hreplaced, lookup_reflects pg lookup t', agrees_of_distinct pg list lookup t'⟩
  | error e =>
    rw [hexec] at hrows hadmissible
    have hrefused : ¬(Known id t ∧ Admissible pg d.rule t) := by
      rintro ⟨hknown, hrow⟩
      obtain ⟨out, hout⟩ := hadmissible hknown hrow
      cases hout
    cases e with
    | noRows => exact ⟨rfl, iff_of_true rfl (hrows.mp rfl), hrefused⟩
    | _ => 
      refine ⟨rfl, iff_of_false (by simp) ?_, hrefused⟩
      intro hmissing
      cases hrows.mpr hmissing

def ruleOrder (created : Bytes → Int) : Sorting (Precedes created) where
  run rules := rules.insertionSort (Precedes created)
  perm rules := List.perm_insertionSort _ rules
  sorted rules := by
    have : Std.Total (Precedes created) := ⟨fun a b => by unfold Precedes; omega⟩
    have : IsTrans ProxyRule (Precedes created) := ⟨fun a b c => by unfold Precedes; omega⟩
    exact List.pairwise_insertionSort _ _

/-- Takes texts of the length of a uuid for one. -/
def strictServer : Server :=
  ⟨fun s => if s.length = 36 then some s else none, some, some, fun _ => []⟩

def wikiRule (digit : UInt8) (priority : Int) : ProxyRule :=
  ⟨List.replicate 36 digit, priority, lit "wiki", [], [], true⟩

/-- Two rules of one host, with the priority of the second. -/
def wikiRules (priority : Int) : Tables := { proxyRules := [wikiRule 49 10, wikiRule 50 priority] }

/-- The update that puts the second rule first. -/
def wikiUpdate : RuleDTO :=
  { id := List.replicate 36 50, priority := 5, matchHost := lit "wiki", enabled := true }

theorem rule_lookup_wiki : DistinctRules (fun _ => 0) (wikiRules 20).proxyRules ∧
    Agrees strictServer (ruleOrder fun _ => 0) (ruleOrder fun _ => 0) (wikiRules 20) ∧
    upsertRuleRow strictServer [] wikiUpdate (wikiRules 20) = (wikiRules 5, .ok (wikiRule 50 5).id) ∧
    Reflects strictServer (ruleOrder fun _ => 0) (wikiRules 5) ∧
    Agrees strictServer (ruleOrder fun _ => 0) (ruleOrder fun _ => 0) (wikiRules 5) := by
  have hdistinct : DistinctRules (fun _ => 0) (wikiRules 20).proxyRules := by
    unfold DistinctRules wikiRules
    decide
  have hstill : DistinctRules (fun _ => 0) (wikiRules 5).proxyRules := by
    unfold DistinctRules wikiRules
    decide
  have hupdated : upsertRuleRow strictServer [] wikiUpdate (wikiRules 20) =
      (wikiRules 5, .ok (wikiRule 50 5).id) := rfl
  obtain ⟨hagrees, hupdate⟩ := rule_lookup_agrees strictServer []
    (ruleOrder fun _ => 0) (ruleOrder fun _ => 0) hdistinct
  have hserved := hupdate wikiUpdate (wikiRule 50 5).id (by decide) (by decide)
  rw [hupdated] at hserved
  obtain ⟨-, -, -, hreflects, hagain⟩ := hserved
  exact ⟨hdistinct, hagrees, hupdated, hreflects, hagain hstill⟩

/-- A host with a NUL and an id that is no uuid are errors of the server, not rules
that are not found. -/
theorem unreadable_not_missing :
    getRuleByHost strictServer (ruleOrder fun _ => 0) [0] {} =
        .error (.failed (lit "store: get rule by host: ")) ∧
      upsertRuleRow strictServer [] { id := [49], matchHost := [97] } {} =
        ({}, .error (.failed (lit "store: upsert rule: "))) := by
  refine ⟨?_, ?_⟩
  · have hnul : storable [0] = false := by decide
    simp [getRuleByHost, sqlGetRuleByHost, hnul, strictServer]
  · rw [upsertRuleRow_eq strictServer [] (by decide)]
    simp [sqlUpdateRule, strictServer, RuleDTO.rule]

end Upsert

end HelixProxy.Api
