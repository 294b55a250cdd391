import HelixProxy.BusText
import HelixProxy.CodecIndependence
import HelixProxy.EndToEnd
import HelixProxy.HealthdBaseline

/-!
# The control plane over bytes

The codec of `internal/redis` as it is: a JSON text for every snapshot and every
route that JSON has room for. While the clocks stay in the years of four digits
and the names are well-formed texts, Redis holds texts only, and the helpers
answer as they do over whatever codec.
-/

namespace HelixProxy.Bus

open Vpn JsonText TimeText Utf8
set_option autoImplicit false

instance (snap : HealthSnapshot) : Decidable (Writable snap) :=
  decidable_of_iff (WellFormed snap.profile ∧ WellFormed snap.state.text ∧
      State.ofText snap.state.text = snap.state ∧ WellFormed snap.egressIP ∧
      FourDigits snap.lastHandshake ∧ FourDigits snap.checkedAt ∧ FourDigits snap.liveProbeAt)
    ⟨fun ⟨h1, h2, h3, h4, h5, h6, h7⟩ => ⟨h1, h2, h3, h4, h5, h6, h7⟩,
      fun ⟨h1, h2, h3, h4, h5, h6, h7⟩ => ⟨h1, h2, h3, h4, h5, h6, h7⟩⟩

instance (r : Route) : Decidable r.Writable :=
  decidable_of_iff (WellFormed r.target ∧ WellFormed r.tunnel ∧
      (Strconv.minInt64 ≤ r.tier ∧ r.tier ≤ Strconv.maxInt64) ∧ WellFormed r.breakerState)
    ⟨fun ⟨h1, h2, h3, h4⟩ => ⟨h1, h2, h3, h4⟩, fun ⟨h1, h2, h3, h4⟩ => ⟨h1, h2, h3, h4⟩⟩

/-- A text, or a document that has none. -/
inductive Wire where
  | text (b : Bytes)
  | textless (doc : Document)
  deriving DecidableEq

/-- `encoding/json`, where it has a text that reads back as what was written. -/
def wire (slow : Bytes → Option Int) : Codec Wire where
  marshalStatus snap :=
    if Writable snap then .text (writeObject (statusMembers snap)) else .textless (.status snap)
  unmarshalStatus
    | .text b => unmarshalStatus slow b
    | .textless doc => documents.unmarshalStatus doc
  marshalRoute r := if r.Writable then .text (marshalRoute r) else .textless (.route r)
  unmarshalRoute
    | .text b => unmarshalRoute b
    | .textless doc => documents.unmarshalRoute doc
  status_round_trip snap := by
    by_cases h : Writable snap
    · rw [if_pos h]
      exact unmarshal_marshal_status slow h
    · rw [if_neg h]
      rfl
  route_round_trip r := by
    by_cases h : r.Writable
    · rw [if_pos h]
      exact unmarshal_marshal_route h
    · rw [if_neg h]
      rfl

end HelixProxy.Bus

namespace HelixProxy.ControlPlane

open Vpn Bus Healthd AclHelper TimeText Utf8
set_option autoImplicit false

/-- The readings of a sample and the routes of a run are such as JSON has room for. -/
def Action.Writable : Action → Prop
  | .sample _ egress wg _ =>
    (∀ e, egress = some e → WellFormed e) ∧ ∀ r, wg = some r → FourDigits r.latest
  | .compile _ run => ∀ r ∈ toSeed run, r.Writable
  | _ => True

/-- What a loop holds can be written down: the sample it began in these years, or the
snapshot it has decided. -/
def Phase.InText (now : Int) : Phase → Prop
  | .idle => True
  | .sampling t => earliest ≤ t ∧ t ≤ now
  | .decided _ cur => Bus.Writable cur

theorem Phase.InText.later {phase : Phase} {now now' : Int} (h : phase.InText now)
    (hnow : now ≤ now') : phase.InText now' := by
  cases phase with
  | idle => exact h
  | sampling t => exact ⟨h.1, h.2.trans hnow⟩
  | decided p cur => exact h

/-- Everything has been written as a text so far, and what is to be written has one. -/
structure InText (s : State Wire) : Prop where
  clock : earliest ≤ s.now
  loops : ∀ i, (s.loops i).phase.InText s.now
  seeders : ∀ j c, s.compilers j = some c → ∀ r ∈ c.pending, r.Writable
  texts : ∀ key e, s.redis key = some e → ∃ b, e.value = .text b

theorem writable_poll {c : Config} (hc : WellFormed c.profile) (l : Loop) {p : Poll}
    (hstarted : FourDigits p.startedAt) (hfailed : FourDigits p.failedAt)
    (hegress : ∀ e, p.egress = some e → WellFormed e)
    (hwg : ∀ r, p.wg = some r → FourDigits r.latest) : Bus.Writable (poll c l p) := by
  have hzero : FourDigits 0 := by decide
  cases he : p.egress with
  | none =>
    have hempty : WellFormed [] := by decide
    have hdown : WellFormed State.down.text := by decide
    rw [poll_of_failed_egress c l he]
    exact ⟨hc, hdown, rfl, hempty, hzero, hfailed, hzero⟩
  | some egress =>
    have hverdict : ∀ st, st = State.up ∨ st = State.down →
        WellFormed st.text ∧ State.ofText st.text = st := by
      rintro st (rfl | rfl) <;> decide
    obtain ⟨htext, hnamed⟩ := hverdict (verdictFrom c l.prev.tx p egress)
      (decideHealth_up_or_down _ _ _ _)
    rw [poll_of_egress c l he]
    refine ⟨?_, htext, hnamed, ?_, ?_, ?_, ?_⟩
    · rwa [sampled_profile]
    · rw [sampled_egressIP]
      exact hegress egress he
    · rw [sampled_lastHandshake]
      cases hw : p.wg with
      | none => exact hzero
      | some r => exact hwg r hw
    · rwa [sampled_checkedAt]
    · rw [sampled_liveProbeAt]
      split
      · exact hstarted
      · exact hzero

section Clock

variable {Raw : Type} (json : Codec Raw) (d : Deployment)

theorem now_le_step (s : State Raw) (a : Action) : s.now ≤ (step json d s a).now := by
  cases a with
  | wait elapsed => exact Int.le_add_of_nonneg_right (Int.natCast_nonneg elapsed)
  | expire key => exact le_rfl
  | startLoop i => exact le_rfl
  | beginTick i =>
    simp only [step]
    split <;> exact le_rfl
  | sample i egress wg probe =>
    simp only [step]
    split <;> exact le_rfl
  | setStatus i ok =>
    simp only [step]
    split
    · split <;> exact le_rfl
    · exact le_rfl
  | compile j run => exact le_rfl
  | setRoute j ok =>
    simp only [step]
    split
    · split <;> exact le_rfl
    · exact le_rfl
  | getRoute k line reachable =>
    simp only [step]
    split <;> exact le_rfl
  | getStatus k reachable =>
    simp only [step]
    split <;> exact le_rfl

theorem now_le_steps (actions : List Action) (s : State Raw) :
    s.now ≤ (actions.foldl (step json d) s).now := by
  induction actions generalizing s with
  | nil => exact le_rfl
  | cons a rest ih => exact (now_le_step json d s a).trans (ih _)

end Clock

section Steps

variable {slow : Bytes → Option Int} {s : State Wire} (h : InText s)
include h

theorem InText.setLoop {i : Nat} {l : ProfileLoop} (hl : l.phase.InText s.now) :
    InText (s.setLoop i l) := by
  refine { h with loops := fun i' => ?_ }
  change (Function.update s.loops i l i').phase.InText s.now
  by_cases hi : i' = i
  · subst hi
    rwa [Function.update_self]
  · rw [Function.update_of_ne hi]
    exact h.loops i'

theorem InText.setSeeder {j : Nat} {c : Option Seeder}
    (hc : ∀ c', c = some c' → ∀ r ∈ c'.pending, r.Writable) : InText (s.setSeeder j c) := by
  refine { h with seeders := fun j' c' hc' => ?_ }
  change Function.update s.compilers j c j' = some c' at hc'
  by_cases hj : j' = j
  · subst hj
    rw [Function.update_self] at hc'
    exact hc c' hc'
  · rw [Function.update_of_ne hj] at hc'
    exact h.seeders j' c' hc'

theorem InText.store {w : Write Wire} (e : Entry) (hw : ∃ b, w.entry.value = .text b) :
    InText (s.store w e) := by
  refine { h with texts := fun key entry hentry => ?_ }
  change Function.update s.redis w.key (some w.entry) key = some entry at hentry
  by_cases hkey : key = w.key
  · subst hkey
    rw [Function.update_self] at hentry
    cases hentry
    exact hw
  · rw [Function.update_of_ne hkey] at hentry
    exact h.texts key entry hentry

theorem InText.expire (key : Bytes) :
    InText { s with redis := Expiring.evict s.redis s.now key } := by
  refine { h with texts := fun key' entry hentry => ?_ }
  change Expiring.evict s.redis s.now key key' = some entry at hentry
  by_cases hkey : key' = key
  · subst hkey
    rw [Expiring.evict_self, Option.filter_eq_some_iff] at hentry
    exact h.texts key' entry hentry.1
  · rw [Expiring.evict_of_ne _ _ hkey] at hentry
    exact h.texts key' entry hentry

theorem InText.step {d : Deployment} (hnames : ∀ i, WellFormed (d.healthd i).profile) {a : Action}
    (ha : a.Writable) (hnow : s.now < latest) : InText (step (wire slow) d s a) := by
  cases a with
  | wait elapsed =>
    have hlater : s.now ≤ s.now + elapsed := by omega
    exact { h with
      clock := h.clock.trans hlater
      loops := fun i => (h.loops i).later hlater }
  | expire key => exact h.expire key
  | startLoop i => exact h.setLoop trivial
  | beginTick i =>
    simp only [ControlPlane.step]
    split
    · exact h.setLoop ⟨h.clock, le_rfl⟩
    · exact h
  | sample i egress wg probe =>
    simp only [ControlPlane.step]
    split
    · next startedAt hphase =>
      have hstarted := h.loops i
      rw [hphase] at hstarted
      exact h.setLoop (writable_poll (hnames i) _
        ((fourDigits_iff _).mpr ⟨hstarted.1, lt_of_le_of_lt hstarted.2 hnow⟩)
        ((fourDigits_iff _).mpr ⟨h.clock, hnow⟩) ha.1 ha.2)
    · exact h
  | setStatus i ok =>
    simp only [ControlPlane.step]
    split
    · next p cur hphase =>
      have hcur := h.loops i
      rw [hphase] at hcur
      have hloop := @InText.setLoop s h i ((s.loops i).finish p cur) trivial
      cases ok with
      | false => exact hloop
      | true => exact hloop.store _ ⟨_, if_pos hcur⟩
    · exact h
  | compile j run =>
    refine h.setSeeder fun c hc => ?_
    cases hc
    exact ha
  | setRoute j ok =>
    simp only [ControlPlane.step]
    split
    · next run r rest hseeder =>
      have hpending := h.seeders j _ hseeder
      cases ok with
      | false =>
        refine h.setSeeder fun c hc => ?_
        cases hc
      | true =>
        have hrest : InText (s.setSeeder j (some ⟨run, rest⟩)) := by
          refine h.setSeeder fun c hc => ?_
          cases hc
          exact fun r' hr' => hpending r' (List.mem_cons_of_mem r hr')
        exact hrest.store _ ⟨_, if_pos (hpending r List.mem_cons_self)⟩
    · exact h
  | getRoute k line reachable =>
    simp only [ControlPlane.step]
    split
    · exact { h with }
    · exact h
  | getStatus k reachable =>
    simp only [ControlPlane.step]
    split
    · exact h
    · exact { h with }

theorem InText.steps {d : Deployment} (hnames : ∀ i, WellFormed (d.healthd i).profile)
    {actions : List Action} (hactions : ∀ a ∈ actions, a.Writable)
    (hend : (actions.foldl (ControlPlane.step (wire slow) d) s).now < latest) :
    InText (actions.foldl (ControlPlane.step (wire slow) d) s) := by
  induction actions generalizing s with
  | nil => exact h
  | cons a rest ih =>
    obtain ⟨ha, hrest⟩ := List.forall_mem_cons.mp hactions
    have hnow : s.now < latest := lt_of_le_of_lt (now_le_steps (wire slow) d (a :: rest) s) hend
    exact ih (h.step hnames ha hnow) hrest hend

end Steps

/-- What Redis holds in bytes: the text of a snapshot or of a route under its key, which
reads back as what was written. -/
inductive Stored (slow : Bytes → Option Int) : Bytes → Document → Bytes → Prop
  | status (snap : HealthSnapshot) (b : Bytes) (written : marshalStatus snap = some b)
      (read : unmarshalStatus slow b = some snap) :
      Stored slow (statusKey snap.profile) (.status snap) b
  | route (r : Route) (read : unmarshalRoute (marshalRoute r) = some r) :
      Stored slow (routeKey r.target) (.route r) (marshalRoute r)

theorem stored_of_text {slow : Bytes → Option Int} {key : Bytes} {v : Wire} {doc : Document}
    {b : Bytes} (h : SameValue (wire slow) documents key v doc) (hv : v = .text b) :
    Stored slow key doc b := by
  cases h with
  | status snap =>
    by_cases hw : Bus.Writable snap
    · have htext : (wire slow).marshalStatus snap = .text (JsonText.writeObject (statusMembers snap)) :=
        if_pos hw
      rw [htext] at hv
      cases hv
      exact .status snap _ (marshalStatus_of_writable hw) (unmarshal_marshal_status slow hw)
    · have htextless : (wire slow).marshalStatus snap = .textless (.status snap) := if_neg hw
      rw [htextless] at hv
      cases hv
  | route r =>
    by_cases hw : r.Writable
    · have htext : (wire slow).marshalRoute r = .text (marshalRoute r) := if_pos hw
      rw [htext] at hv
      cases hv
      exact .route r (unmarshal_marshal_route hw)
    · have htextless : (wire slow).marshalRoute r = .textless (.route r) := if_neg hw
      rw [htextless] at hv
      cases hv

/-- Over bytes the system does what it does over the snapshots and routes themselves. While
the clock is in the years JSON can write and the texts it is given are well-formed, Redis
holds the JSON text of each snapshot and route and nothing else, and the helpers reply the same. -/
theorem bytes_refine_documents (slow : Bytes → Option Int) (d : Deployment)
    (hnames : ∀ i, WellFormed (d.healthd i).profile) (start : Int) (hstart : earliest ≤ start)
    (actions : List Action) (hactions : ∀ a ∈ actions, a.Writable)
    (hend : (run documents d start actions).now < latest) :
    (∀ key, (run documents d start actions).redis key = none ∧
        (run (wire slow) d start actions).redis key = none ∨
      ∃ doc b deadline, (run documents d start actions).redis key = some ⟨doc, deadline⟩ ∧
        (run (wire slow) d start actions).redis key = some ⟨.text b, deadline⟩ ∧
        Stored slow key doc b) ∧
      (run (wire slow) d start actions).answers = (run documents d start actions).answers := by
  have halike := alike_run (wire slow) documents d start actions
  have hinit : InText { now := start } :=
    { clock := hstart
      loops := fun _ => trivial
      seeders := fun _ _ hc => by cases hc
      texts := fun _ _ he => by cases he }
  have htext : InText (run (wire slow) d start actions) :=
    hinit.steps hnames hactions (halike.now ▸ hend)
  refine ⟨fun key => ?_, halike.answers⟩
  rcases halike.redis key with ⟨hbytes, hdoc⟩ | ⟨e, e', hbytes, hdoc, hdeadline, hsame⟩
  · exact .inl ⟨hdoc, hbytes⟩
  · obtain ⟨b, hb⟩ := htext.texts key e hbytes
    refine .inr ⟨e'.value, b, e'.deadline, hdoc, ?_, stored_of_text hsame hb⟩
    rw [hbytes, ← hb, ← hdeadline]

/-- The request of `crmRequest`, over bytes. -/
theorem bytes_refine_documents_crm :
    (run (wire fun _ => none) euDeployment second crmRequest).answers.map Answer.text =
      [lit "7 OK tag=eu\n"] := by
  have hdocs : (run documents euDeployment second crmRequest).answers.map Answer.text =
      [lit "7 OK tag=eu\n"] := by decide
  have hname : WellFormed (lit "eu") := by decide
  have hroutes : ∀ r ∈ toSeed (Compiler.crmRun true), r.Writable := by decide
  have hegress : ∀ e, some (lit "203.0.113.7") = some e → WellFormed e := by
    intro e he
    cases he
    decide
  have hnever : ∀ r, (none : Option WgReading) = some r → FourDigits r.latest := by
    intro r hr
    cases hr
  have hactions : ∀ a ∈ crmRequest, a.Writable := by
    simp only [crmRequest, List.forall_mem_cons, Action.Writable]
    exact ⟨trivial, hroutes, trivial, trivial, trivial, ⟨hegress, hnever⟩, trivial, trivial,
      trivial, trivial, List.forall_mem_nil _⟩
  rw [(bytes_refine_documents (fun _ => none) euDeployment (fun _ => hname) second (by decide)
    crmRequest hactions (by decide)).2]
  exact hdocs

end HelixProxy.ControlPlane
