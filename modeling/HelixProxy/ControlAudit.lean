import HelixProxy.ControlApi

/-!
# Mutations and their audit rows

Over any run of the nine mutating handlers, with failures at any of their four
points, each answer of success stands for one committed change and one audit
row, and each refusal for no change at all.
-/

namespace HelixProxy.Api

open Store Transaction
set_option autoImplicit false

inductive Call where
  | putProfile (body : Except Bytes ProfileDTO)
  | deleteProfile (id : Bytes)
  | putTarget (body : Except Bytes TargetDTO)
  | deleteTarget (id : Bytes)
  | putRule (body : Except Bytes RuleDTO)
  | deleteRule (id : Bytes)
  | putTier (body : Except Bytes TierDTO)
  | deleteTier (targetID tierText : Bytes)
  | putUser (body : Except Bytes UserDTO)

def Call.serve (env : Env) (t : Tables) : Call → Tables × Response
  | .putProfile body => Api.putProfile env body t
  | .deleteProfile id => Api.deleteProfile env id t
  | .putTarget body => Api.putTarget env body t
  | .deleteTarget id => Api.deleteTarget env id t
  | .putRule body => Api.putRule env body t
  | .deleteRule id => Api.deleteRule env id t
  | .putTier body => Api.putTier env body t
  | .deleteTier targetID tierText => Api.deleteTier env targetID tierText t
  | .putUser body => Api.putUser env body t

def Call.action : Call → Bytes
  | .putProfile _ => lit "profile.upsert"
  | .deleteProfile _ => lit "profile.delete"
  | .putTarget _ => lit "target.upsert"
  | .deleteTarget _ => lit "target.delete"
  | .putRule _ => lit "rule.upsert"
  | .deleteRule _ => lit "rule.delete"
  | .putTier _ => lit "tier.upsert"
  | .deleteTier _ _ => lit "tier.delete"
  | .putUser _ => lit "user.upsert"

/-- The change a request asks for, if its input can be read. -/
def Call.statement (env : Env) : Call → Option Statement
  | .putProfile (.ok d) => (readType d.type).map (upsertProfile env d)
  | .deleteProfile id => some (.deleteProfile id)
  | .putTarget (.ok d) => some (upsertTarget env d)
  | .deleteTarget id => some (.deleteTarget id)
  | .putRule (.ok d) => some (upsertRule env d)
  | .deleteRule id => some (.deleteRule id)
  | .putTier (.ok d) => some (.upsertTier ⟨d.targetID, d.vpnProfileID, d.tier⟩)
  | .deleteTier targetID tierText => (Strconv.atoi tierText).map (.deleteTier targetID)
  | .putUser (.ok d) => some (upsertUser env d)
  | _ => none

def Response.success (r : Response) : Bool := 200 ≤ r.code && r.code < 300

def Response.failure (r : Response) : Bool := 400 ≤ r.code && r.code < 600

/-- The entity change and one audit row of the handler and the caller, as the column keeps
its name, together. -/
def Committed (env : Env) (call : Call) (before after : Tables) : Prop :=
  ∃ stmt changed id detail, call.statement env = some stmt ∧
    stmt.exec env.pg before = .ok (changed, id) ∧ changed.auditLog = before.auditLog ∧
    after = { changed with
      auditLog := before.auditLog ++ [⟨assigned 255 (actorFromRequest env), call.action, detail⟩] }

/-- Success is a commit; failure leaves every table as it was. -/
def Served (env : Env) (call : Call) (before : Tables) (out : Tables × Response) : Prop :=
  (out.2.success = true ∧ Committed env call before out.1) ∨
    (out.2.failure = true ∧ out.1 = before)

theorem query_ok {env : Env} {label : Bytes} {stmt : Statement} {t : Tables}
    {out : Tables × Bytes} (h : query env label stmt t = .ok out) :
    stmt.exec env.pg t = .ok out := by
  unfold query at h
  split at h
  · cases h
  · split at h
    · next hx => rw [hx, Except.ok.inj h]
    · cases h

theorem queryRow_ok {env : Env} {label : Bytes} {stmt : Statement} {t : Tables}
    {out : Tables × Bytes} (h : queryRow env label stmt t = .ok out) :
    stmt.exec env.pg t = .ok out := by
  unfold queryRow at h
  split at h
  · cases h
  · exact query_ok h

theorem appendAudit_ok {env : Env} {e : AuditLogEntry} {t t' : Tables}
    (h : appendAudit env e t = .ok t') : t' = { t with auditLog := t.auditLog ++ [e.stored] } := by
  unfold appendAudit at h
  split at h
  · cases h
  · split at h
    · next hx => rw [← Except.ok.inj h, (guarded_eq_ok hx).1]
    · cases h

/-- A transaction with its audit append commits both writes or neither. -/
theorem mutateWithAudit_cases (env : Env)
    (mutate : Tables → Except StoreError (Tables × Bytes × AuditLogEntry)) (t : Tables) :
    (∃ changed id entry, mutate t = .ok (changed, id, entry) ∧
      mutateWithAudit env mutate t =
        ({ changed with auditLog := changed.auditLog ++ [entry.stored] }, .ok id)) ∨
      ∃ e, mutateWithAudit env mutate t = (t, .error e) := by
  unfold mutateWithAudit
  rcases transact_cases _ _ _ t with ⟨t', id, hbody, htx⟩ | ⟨e, htx⟩
  · left
    rw [htx]
    cases hm : mutate t with
    | error e => simp [hm] at hbody
    | ok out =>
      obtain ⟨changed, id', entry⟩ := out
      cases ha : appendAudit env entry changed with
      | error e => simp [hm, ha] at hbody
      | ok t'' =>
        simp only [hm, ha, Except.ok.injEq, Prod.mk.injEq] at hbody
        obtain ⟨rfl, rfl⟩ := hbody
        exact ⟨changed, id', entry, rfl, by rw [appendAudit_ok ha]⟩
  · exact .inr ⟨e, htx⟩

theorem finish_cases (env : Env) (call : Tables → Except StoreError (Tables × Bytes))
    (action : Bytes) (detail : Bytes → List (Bytes × DetailValue))
    (onError : StoreError → Response) (onOK : Bytes → Response) (t : Tables) :
    (∃ changed id, call t = .ok (changed, id) ∧
      finish env call action detail onError onOK t =
        ({ changed with
            auditLog := changed.auditLog ++ [(auditEntry env action (detail id)).stored] },
          onOK id)) ∨
      ∃ e, finish env call action detail onError onOK t = (t, onError e) := by
  unfold finish
  rcases mutateWithAudit_cases env _ t with ⟨changed, id, entry, hm, htx⟩ | ⟨e, htx⟩
  · left
    rw [htx]
    cases hc : call t with
    | error e => simp [hc] at hm
    | ok out =>
      simp only [hc, Except.ok.injEq, Prod.mk.injEq] at hm
      obtain ⟨rfl, rfl, rfl⟩ := hm
      exact ⟨out.1, out.2, rfl, rfl⟩
  · right
    rw [htx]
    exact ⟨e, rfl⟩

section Handlers

variable {env : Env} {call : Call} {t : Tables}

theorem served_refusal {r : Response} (h : r.failure = true) : Served env call t (t, r) :=
  .inr ⟨h, rfl⟩

theorem badRequest_failure (msg : Bytes) : (badRequest msg).failure = true := by
  simp [badRequest, writeErr, Response.failure]

theorem Call.action_stored (call : Call) : assigned 100 call.action = call.action := by
  cases call <;> rfl

theorem served_finish {stmt : Statement} {store : Tables → Except StoreError (Tables × Bytes)}
    {action : Bytes} (haction : call.action = action) (hstmt : call.statement env = some stmt)
    (hstore : ∀ out, store t = .ok out → stmt.exec env.pg t = .ok out)
    (detail : Bytes → List (Bytes × DetailValue)) {onError : StoreError → Response}
    {onOK : Bytes → Response} (herr : ∀ e, (onError e).failure = true)
    (hok : ∀ id, (onOK id).success = true) :
    Served env call t (finish env store action detail onError onOK t) := by
  subst haction
  rcases finish_cases env store call.action detail onError onOK t with
    ⟨changed, id, hcall, hfin⟩ | ⟨e, hfin⟩
  · have hexec := hstore _ hcall
    have hlog := Statement.exec_auditLog hexec
    rw [hfin, hlog, auditEntry, AuditLogEntry.stored, call.action_stored]
    exact .inl ⟨hok id, stmt, changed, id, detail id, hstmt, hexec, hlog, rfl⟩
  · rw [hfin]
    exact .inr ⟨herr e, rfl⟩

theorem internalError_failure (e : StoreError) : (internalError e).failure = true := by
  simp [internalError, writeErr, Response.failure]

theorem ruleError_failure (e : StoreError) : (ruleError e).failure = true := by
  cases e with
  | notFound => simp [ruleError, writeErr, Response.failure]
  | failed text => exact internalError_failure _

theorem serve_served (env : Env) (t : Tables) (call : Call) :
    Served env call t (call.serve env t) := by
  cases call with
  | putProfile body =>
    simp only [Call.serve, putProfile]
    split
    · exact served_refusal (badRequest_failure _)
    · split
      · exact served_refusal (badRequest_failure _)
      · split
        · exact served_refusal (badRequest_failure _)
        · next type htype =>
          split
          · exact served_refusal (badRequest_failure _)
          · exact served_finish rfl (by simp [Call.statement, htype]) (fun _ => query_ok) _
              internalError_failure fun _ => rfl
  | deleteProfile id =>
    exact served_finish rfl rfl (fun _ => query_ok) _ internalError_failure fun _ => rfl
  | putTarget body =>
    simp only [Call.serve, putTarget]
    repeat' split
    iterate 4 exact served_refusal (badRequest_failure _)
    exact served_finish rfl rfl (fun _ => query_ok) _ internalError_failure fun _ => rfl
  | deleteTarget id =>
    exact served_finish rfl rfl (fun _ => query_ok) _ internalError_failure fun _ => rfl
  | putRule body =>
    simp only [Call.serve, putRule]
    repeat' split
    iterate 2 exact served_refusal (badRequest_failure _)
    exact served_finish rfl rfl (fun _ => queryRow_ok) _ ruleError_failure fun _ => rfl
  | deleteRule id =>
    exact served_finish rfl rfl (fun _ => query_ok) _ internalError_failure fun _ => rfl
  | putTier body =>
    simp only [Call.serve, putTier]
    repeat' split
    iterate 3 exact served_refusal (badRequest_failure _)
    exact served_finish rfl rfl (fun _ => query_ok) _ internalError_failure fun _ => rfl
  | deleteTier targetID tierText =>
    simp only [Call.serve, deleteTier]
    split
    · exact served_refusal (badRequest_failure _)
    · next tier htier =>
      exact served_finish rfl (by simp [Call.statement, htier]) (fun _ => query_ok) _
        internalError_failure fun _ => rfl
  | putUser body =>
    simp only [Call.serve, putUser]
    repeat' split
    iterate 2 exact served_refusal (badRequest_failure _)
    exact served_finish rfl rfl (fun _ => query_ok) _ internalError_failure fun _ => rfl

end Handlers

structure Request where
  env : Env
  call : Call

def serve (t : Tables) (r : Request) : Tables × Response := r.call.serve r.env t

def RowFor (r : Request) (row : AuditLogEntry) : Prop :=
  row.actor = assigned 255 (actorFromRequest r.env) ∧ row.action = r.call.action

theorem serve_journaled : Journaled serve Tables.auditLog Response.success RowFor where
  accepted t r hs := by
    rcases serve_served r.env t r.call with ⟨-, hc⟩ | ⟨hf, -⟩
    · obtain ⟨stmt, changed, id, detail, -, -, -, hafter⟩ := hc
      exact ⟨_, ⟨rfl, rfl⟩, by rw [serve, hafter]⟩
    · have hs : (r.call.serve r.env t).2.success = true := hs
      simp only [Response.success, Response.failure, Bool.and_eq_true, decide_eq_true_eq] at hs hf
      omega
  refused t r hs := by
    rcases serve_served r.env t r.call with ⟨hok, -⟩ | ⟨-, hsame⟩
    · exact absurd hok (by rw [show (r.call.serve r.env t).2.success = false from hs]; simp)
    · exact hsame

/-- Over every run of the handlers: each request is a commit of its change with
one audit row, or changes nothing; and the audit log grows by exactly one row
of the handler and the caller, as its column keeps the name, for each answer of success. -/
theorem mutations_audited (t : Tables) (requests : List Request) :
    (∀ x ∈ exchanges serve t requests,
      Served x.request.env x.request.call x.before (x.after, x.answer)) ∧
    ∃ rows, (final serve t requests).auditLog = t.auditLog ++ rows ∧
      List.Forall₂ RowFor
        (((exchanges serve t requests).filter fun x => x.answer.success).map Exchange.request)
        rows ∧
      rows.length = (exchanges serve t requests).countP fun x => x.answer.success := by
  constructor
  · intro x hx
    rw [← mem_exchanges serve hx]
    exact serve_served x.request.env x.before x.request.call
  · obtain ⟨rows, hlog, hrows⟩ := serve_journaled.run t requests
    refine ⟨rows, hlog, hrows, ?_⟩
    rw [← hrows.length_eq, List.length_map, List.countP_eq_length_filter]

/-- A caller with 255 letters and a space for a name. -/
def longNamed : Request where
  env := { pg := ⟨some, some, some, fun _ => []⟩, peerCN := some (List.replicate 255 97 ++ [32]) }
  call := .deleteProfile (lit "p1")

set_option maxRecDepth 8192 in
/-- The request is served, and its row has the caller's name without the space. -/
theorem actor_cut :
    (serve {} longNamed).2 = noContent ∧
      (serve {} longNamed).1.auditLog.map AuditLogEntry.actor = [List.replicate 255 97] ∧
      actorFromRequest longNamed.env ≠ List.replicate 255 97 := by
  refine ⟨rfl, rfl, ?_⟩
  decide

end HelixProxy.Api
