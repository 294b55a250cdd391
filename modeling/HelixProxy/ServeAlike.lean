import HelixProxy.ControlAudit

/-!
# Handlers on stores that look alike

The handlers reach the store through one statement each, and the audit log through
one append. So what relates two stores, whatever their audit logs, and survives the
statement of a request survives the request, which is answered the same on both.
-/

namespace HelixProxy.Api

open Store Transaction
set_option autoImplicit false

/-- The relation leaves the audit logs out. -/
def IgnoresAudit (R : Tables → Tables → Prop) : Prop :=
  ∀ {t u : Tables} (l m : List AuditLogEntry), R t u →
    R { t with auditLog := l } { u with auditLog := m }

variable {R : Tables → Tables → Prop} {env : Env} {call : Call} {t u : Tables}

theorem query_alike (label : Bytes) {stmt : Statement}
    (h : Alike R (stmt.exec env.pg t) (stmt.exec env.pg u)) :
    Alike R (query env label stmt t) (query env label stmt u) := by
  unfold query
  split
  · exact .error _
  · generalize stmt.exec env.pg t = x at h ⊢
    generalize stmt.exec env.pg u = y at h ⊢
    cases h with
    | error e => exact .error _
    | ok id hsame => exact .ok id hsame

theorem queryRow_alike (label : Bytes) {stmt : Statement}
    (h : Alike R (stmt.exec env.pg t) (stmt.exec env.pg u)) :
    Alike R (queryRow env label stmt t) (queryRow env label stmt u) := by
  have hquery : Alike R (query env label stmt t) (query env label stmt u) := query_alike label h
  unfold queryRow
  generalize stmt.exec env.pg t = x at h ⊢
  generalize stmt.exec env.pg u = y at h ⊢
  cases h with
  | error e =>
    split
    · exact .error _
    · exact hquery
  | ok id hsame =>
    cases env.entityFault with
    | none => exact hquery
    | some text => exact hquery

theorem appendAudit_eq (env : Env) (entry : AuditLogEntry) :
    (∃ e, ∀ t, appendAudit env entry t = .error e) ∨
      ∀ t, appendAudit env entry t = .ok { t with auditLog := t.auditLog ++ [entry.stored] } := by
  unfold appendAudit
  cases env.auditFault with
  | some text => exact .inl ⟨_, fun _ => rfl⟩
  | none =>
    unfold sqlAppendAudit guarded
    generalize List.find? _ _ = refused
    cases refused with
    | some c => exact .inl ⟨_, fun _ => rfl⟩
    | none => exact .inr fun _ => rfl

theorem mutateWithAudit_alike (hR : IgnoresAudit R) (h : R t u)
    {mutate : Tables → Except StoreError (Tables × Bytes × AuditLogEntry)}
    (hmutate : Alike R (mutate t) (mutate u)) :
    R (mutateWithAudit env mutate t).1 (mutateWithAudit env mutate u).1 ∧
      (mutateWithAudit env mutate t).2 = (mutateWithAudit env mutate u).2 := by
  refine transact_alike h _ _ ?_
  generalize mutate t = x at hmutate ⊢
  generalize mutate u = y at hmutate ⊢
  cases hmutate with
  | error e => exact .error e
  | ok out hsame =>
    obtain ⟨id, entry⟩ := out
    rcases appendAudit_eq env entry with ⟨e, hfail⟩ | hdone
    · simp only [hfail]
      exact .error _
    · simp only [hdone]
      exact .ok id (hR _ _ hsame)

/-- The entity change of a handler with the row it appends. -/
def audited (env : Env) (store : Tables → Except StoreError (Tables × Bytes)) (action : Bytes)
    (detail : Bytes → List (Bytes × DetailValue)) (tx : Tables) :
    Except StoreError (Tables × Bytes × AuditLogEntry) :=
  match store tx with
  | .error e => .error e
  | .ok (tx', id) => .ok (tx', id, auditEntry env action (detail id))

def answered (onError : StoreError → Response) (onOK : Bytes → Response) :
    Tables × Except StoreError Bytes → Tables × Response
  | (t, .ok id) => (t, onOK id)
  | (t, .error e) => (t, onError e)

theorem finish_eq (env : Env) (store : Tables → Except StoreError (Tables × Bytes))
    (action : Bytes) (detail : Bytes → List (Bytes × DetailValue))
    (onError : StoreError → Response) (onOK : Bytes → Response) (t : Tables) :
    finish env store action detail onError onOK t =
      answered onError onOK (mutateWithAudit env (audited env store action detail) t) := rfl

theorem finish_alike (hR : IgnoresAudit R) (h : R t u)
    {store : Tables → Except StoreError (Tables × Bytes)} (hstore : Alike R (store t) (store u))
    (action : Bytes) (detail : Bytes → List (Bytes × DetailValue))
    (onError : StoreError → Response) (onOK : Bytes → Response) :
    R (finish env store action detail onError onOK t).1
        (finish env store action detail onError onOK u).1 ∧
      (finish env store action detail onError onOK t).2 =
        (finish env store action detail onError onOK u).2 := by
  have haudited : Alike R (audited env store action detail t) (audited env store action detail u) := by
    unfold audited
    generalize store t = x at hstore ⊢
    generalize store u = y at hstore ⊢
    cases hstore with
    | error e => exact .error e
    | ok id hsame => exact .ok _ hsame
  have hboth := @mutateWithAudit_alike R env t u hR h _ haudited
  rw [finish_eq, finish_eq]
  generalize mutateWithAudit env (audited env store action detail) t = x at hboth ⊢
  generalize mutateWithAudit env (audited env store action detail) u = y at hboth ⊢
  obtain ⟨t', result⟩ := x
  obtain ⟨u', result'⟩ := y
  obtain ⟨hrel, rfl⟩ := hboth
  cases result with
  | ok id => exact ⟨hrel, rfl⟩
  | error e => exact ⟨hrel, rfl⟩

theorem Call.serve_alike (hR : IgnoresAudit R) (h : R t u)
    (hexec : ∀ stmt, call.statement env = some stmt →
      Alike R (stmt.exec env.pg t) (stmt.exec env.pg u)) :
    R (call.serve env t).1 (call.serve env u).1 ∧ (call.serve env t).2 = (call.serve env u).2 := by
  cases call with
  | putProfile body =>
    simp only [Call.serve, Api.putProfile]
    split
    · exact ⟨h, rfl⟩
    · split
      · exact ⟨h, rfl⟩
      · split
        · exact ⟨h, rfl⟩
        · next type htype =>
          split
          · exact ⟨h, rfl⟩
          · exact finish_alike hR h (query_alike _ (hexec _ (by simp [Call.statement, htype]))) _ _ _ _
  | putTarget body =>
    simp only [Call.serve, Api.putTarget]
    repeat' split
    iterate 4 exact ⟨h, rfl⟩
    exact finish_alike hR h (query_alike _ (hexec _ rfl)) _ _ _ _
  | putRule body =>
    simp only [Call.serve, Api.putRule]
    repeat' split
    iterate 2 exact ⟨h, rfl⟩
    exact finish_alike hR h (queryRow_alike _ (hexec _ rfl)) _ _ _ _
  | putTier body =>
    simp only [Call.serve, Api.putTier]
    repeat' split
    iterate 3 exact ⟨h, rfl⟩
    exact finish_alike hR h (query_alike _ (hexec _ rfl)) _ _ _ _
  | putUser body =>
    simp only [Call.serve, Api.putUser]
    repeat' split
    iterate 2 exact ⟨h, rfl⟩
    exact finish_alike hR h (query_alike _ (hexec _ rfl)) _ _ _ _
  | deleteTier targetID tierText =>
    simp only [Call.serve, Api.deleteTier]
    split
    · exact ⟨h, rfl⟩
    · next tier htier =>
      exact finish_alike hR h (query_alike _ (hexec _ (by simp [Call.statement, htier]))) _ _ _ _
  | deleteProfile id => exact finish_alike hR h (query_alike _ (hexec _ rfl)) _ _ _ _
  | deleteTarget id => exact finish_alike hR h (query_alike _ (hexec _ rfl)) _ _ _ _
  | deleteRule id => exact finish_alike hR h (query_alike _ (hexec _ rfl)) _ _ _ _

end HelixProxy.Api
