import HelixProxy.HttpApi

/-!
# Runs of the HTTP server

A run of requests moves the tables by the calls among them, and PUT and DELETE
requests alone make calls. So the audit log can be read off the traffic: one row for
each PUT or DELETE that was answered with success, in that order. The plain listener
makes no calls at all.
-/

namespace HelixProxy.Api

open Store ServeMux Transaction
set_option autoImplicit false

/-- A request, with what surrounds the server while it is answered. -/
structure Visit where
  env : Env
  http : HttpRequest

/-- The answer is kept with the method it was given to. -/
def visit (mux : List (Pattern × Handler)) (b : Backend) (t : Tables) (v : Visit) :
    Tables × Bytes × Reply :=
  ((serveHTTP mux b v.env v.http t).1, v.http.method, (serveHTTP mux b v.env v.http t).2)

/-- The call that a request comes to. -/
def Visit.asked (mux : List (Pattern × Handler)) (b : Backend) (v : Visit) : Option Request :=
  match dispatch mux v.http.method v.http.path with
  | .handler p h found => (h.call b.codec (pathValue p found) v.http.body).map (⟨v.env, ·⟩)
  | _ => none

/-- A status of 200 to 299; the stream and the page of metrics have 200. -/
def Reply.success : Reply → Bool
  | .page code _ => 200 ≤ code && code < 300
  | .redirect _ => false
  | .events => true
  | .metrics => true

def changing (method : Bytes) : Bool := method = lit "PUT" || method = lit "DELETE"

def accepted (answer : Bytes × Reply) : Bool := changing answer.1 && answer.2.success

/-- The handlers that make a call. -/
def mutators : List Handler :=
  [.putProfile, .deleteProfile, .putTarget, .deleteTarget, .putRule, .deleteRule, .putTier,
    .deleteTier, .putUser]

theorem Handler.call_isSome_iff (codec : Codec) (value : Bytes → Bytes) (body : Bytes)
    (h : Handler) : (h.call codec value body).isSome = true ↔ h ∈ mutators := by
  cases h <;> simp [Handler.call, mutators]

theorem routes_changing : ∀ e ∈ routes, changing e.1.method = decide (e.2 ∈ mutators) := by
  decide

theorem metricsRoutes_reading : ∀ e ∈ metricsRoutes, e.2 = .metrics := by decide

theorem Response.reply_success (r : Response) : r.reply.success = r.success := rfl

section Asked

variable {mux : List (Pattern × Handler)} {b : Backend} {v : Visit} {r : Request} {t : Tables}

theorem Visit.asked_eq_some (h : v.asked mux b = some r) : ∃ p handler found,
    dispatch mux v.http.method v.http.path = .handler p handler found ∧ r.env = v.env ∧
      handler.call b.codec (pathValue p found) v.http.body = some r.call := by
  unfold Visit.asked at h
  split at h
  · next p handler found hd =>
    obtain ⟨call, hcall, rfl⟩ := Option.map_eq_some_iff.mp h
    exact ⟨p, handler, found, hd, rfl, hcall⟩
  · cases h

theorem serveHTTP_asked (h : v.asked mux b = some r) :
    serveHTTP mux b v.env v.http t = ((serve t r).1, (serve t r).2.reply) := by
  obtain ⟨p, handler, found, hd, henv, hcall⟩ := Visit.asked_eq_some h
  simp only [serveHTTP, hd, Handler.serve, hcall, serve, henv]

theorem serveHTTP_unasked (h : v.asked mux b = none) : (serveHTTP mux b v.env v.http t).1 = t := by
  unfold serveHTTP
  cases hd : dispatch mux v.http.method v.http.path with
  | handler p handler found =>
    simp only [Visit.asked, hd, Option.map_eq_none_iff] at h
    simp only [Handler.serve, h]
  | redirect path => rfl
  | methodNotAllowed => rfl
  | notFound => rfl
  | badRequest => rfl

/-- A handler of the control listener makes calls if the method it was found for does. -/
theorem mem_mutators_iff {p : Pattern} {handler : Handler} {method path : Bytes}
    {found : List Bytes} (hd : dispatch routes method path = .handler p handler found) :
    handler ∈ mutators ↔ changing method = true := by
  obtain ⟨-, -, hmem, hmethod, -⟩ := dispatch_sound hd
  have hroute : changing p.method = true ↔ handler ∈ mutators := by
    rw [routes_changing _ hmem, decide_eq_true_iff]
  rw [← hroute]
  rcases hmethod with hmethod | ⟨hhead, hget⟩
  · rw [hmethod]
  · rw [hhead, hget]
    decide

theorem changing_of_asked (h : v.asked routes b = some r) : changing v.http.method = true := by
  obtain ⟨p, handler, found, hd, -, hcall⟩ := Visit.asked_eq_some h
  apply (mem_mutators_iff hd).mp
  exact (Handler.call_isSome_iff _ _ _ _).mp (Option.isSome_of_eq_some hcall)

theorem handler_of_success (h : (serveHTTP mux b v.env v.http t).2.success = true) :
    ∃ p handler found,
      dispatch mux v.http.method v.http.path = .handler p handler found := by
  unfold serveHTTP at h
  cases hd : dispatch mux v.http.method v.http.path with
  | handler p handler found => exact ⟨p, handler, found, rfl⟩
  | redirect path =>
    rw [hd] at h
    cases h
  | methodNotAllowed =>
    rw [hd] at h
    cases h
  | notFound =>
    rw [hd] at h
    cases h
  | badRequest =>
    rw [hd] at h
    cases h

theorem asked_of_accepted (h : accepted (visit routes b t v).2 = true) :
    ∃ r, v.asked routes b = some r := by
  obtain ⟨hchanging, hsuccess⟩ := Bool.and_eq_true_iff.mp h
  obtain ⟨p, handler, found, hd⟩ := handler_of_success hsuccess
  obtain ⟨call, hcall⟩ := Option.isSome_iff_exists.mp
    ((Handler.call_isSome_iff b.codec (pathValue p found) v.http.body handler).mpr
      ((mem_mutators_iff hd).mpr hchanging))
  exact ⟨⟨v.env, call⟩, by simp only [Visit.asked, hd, hcall, Option.map_some]⟩

end Asked

/-- The row that a request leaves: its caller, and the action of its handler. -/
def RowOf (b : Backend) (v : Visit) (row : AuditLogEntry) : Prop :=
  ∃ r, v.asked routes b = some r ∧ RowFor r row

theorem visit_journaled (b : Backend) :
    Journaled (visit routes b) Tables.auditLog accepted (RowOf b) where
  accepted t v h := by
    obtain ⟨r, hr⟩ := asked_of_accepted h
    have hserved := @serveHTTP_asked _ _ _ _ t hr
    have hsuccess : (serve t r).2.success = true := by
      have hreply := (Bool.and_eq_true_iff.mp h).2
      rwa [visit, hserved, Response.reply_success] at hreply
    obtain ⟨row, hrow, hlog⟩ := serve_journaled.accepted t r hsuccess
    exact ⟨row, ⟨r, hr, hrow⟩, by rw [visit, hserved, hlog]⟩
  refused t v h := by
    cases hr : v.asked routes b with
    | none => exact serveHTTP_unasked hr
    | some r =>
      have hserved := @serveHTTP_asked _ _ _ _ t hr
      have hfailed : (serve t r).2.success = false := by
        rwa [accepted, visit, changing_of_asked hr, Bool.true_and, hserved,
          Response.reply_success] at h
      rw [visit, hserved]
      exact serve_journaled.refused t r hfailed

/-- What the plain listener can answer with. -/
def PlainAnswer (reply : Reply) : Prop :=
  reply = .metrics ∨ (∃ path, reply = .redirect path) ∨
    ∃ code body, reply = .page code body ∧ 400 ≤ code

theorem plain_listener (b : Backend) (v : Visit) (t : Tables) :
    (serveHTTP metricsRoutes b v.env v.http t).1 = t ∧
      PlainAnswer (serveHTTP metricsRoutes b v.env v.http t).2 := by
  unfold serveHTTP
  cases hd : dispatch metricsRoutes v.http.method v.http.path with
  | handler p handler found =>
    obtain ⟨-, -, hmem, -, -⟩ := dispatch_sound hd
    obtain rfl : handler = .metrics := metricsRoutes_reading _ hmem
    exact ⟨rfl, .inl rfl⟩
  | redirect path => exact ⟨rfl, .inr (.inl ⟨path, rfl⟩)⟩
  | methodNotAllowed => exact ⟨rfl, .inr (.inr ⟨405, _, rfl, by decide⟩)⟩
  | notFound => exact ⟨rfl, .inr (.inr ⟨404, _, rfl, by decide⟩)⟩
  | badRequest => exact ⟨rfl, .inr (.inr ⟨400, _, rfl, by decide⟩)⟩

/-- Over every run of requests to the control listener, the audit log grows by one row
of caller and action for each PUT or DELETE that is answered with success; any other
request leaves every table as it was; and the tables are those of a run of the calls
alone. On the plain listener no request changes a table or is answered with more than
the metrics, a redirect or an error. -/
theorem traffic_audited (b : Backend) (t : Tables) (visits : List Visit) :
    (∃ rows, (final (visit routes b) t visits).auditLog = t.auditLog ++ rows ∧
      List.Forall₂ (RowOf b) (((exchanges (visit routes b) t visits).filter fun x =>
        accepted x.answer).map Exchange.request) rows) ∧
    (∀ x ∈ exchanges (visit routes b) t visits, accepted x.answer = false → x.after = x.before) ∧
    final (visit routes b) t visits =
      final serve t (visits.filterMap (Visit.asked routes b)) ∧
    ∀ (v : Visit) s, (serveHTTP metricsRoutes b v.env v.http s).1 = s ∧
      PlainAnswer (serveHTTP metricsRoutes b v.env v.http s).2 := by
  refine ⟨(visit_journaled b).run t visits, fun x hx hrefused => ?_, ?_, plain_listener b⟩
  · have hstep := mem_exchanges _ hx
    have hkept := (visit_journaled b).refused x.before x.request (by rw [hstep]; exact hrefused)
    rw [hstep] at hkept
    exact hkept
  · apply final_filterMap
    · intro s v r hr
      exact congrArg Prod.fst (serveHTTP_asked hr)
    · intro s v hv
      exact serveHTTP_unasked hv

end HelixProxy.Api
