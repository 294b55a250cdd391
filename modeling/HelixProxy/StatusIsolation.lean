import HelixProxy.EndToEnd
import HelixProxy.Library.Purge

/-!
# One profile's status is its own

All loops, compilers and helpers share one Redis and interleave freely. What is
read as the status of a profile is nevertheless what its own loops would have
left there alone: no other process overwrites it, delays it or removes it.
-/

namespace HelixProxy.ControlPlane

open Vpn Bus Healthd
set_option autoImplicit false

variable {Raw : Type}

/-- The loops of the profile, the clock they share with Redis, and the eviction
of the profile's key. -/
def Action.concerns (d : Deployment) (profile : Bytes) : Action → Bool
  | .wait _ => true
  | .expire key => key = statusKey profile
  | .startLoop i => (d.healthd i).profile = profile
  | .beginTick i => (d.healthd i).profile = profile
  | .sample i _ _ _ => (d.healthd i).profile = profile
  | .setStatus i _ => (d.healthd i).profile = profile
  | .compile .. => false
  | .setRoute .. => false
  | .getRoute .. => false
  | .getStatus .. => false

/-- The two states agree on all that the profile's loops and readers can see. -/
structure SameProfile (d : Deployment) (profile : Bytes) (s t : State Raw) : Prop where
  now : s.now = t.now
  loops : ∀ i, (d.healthd i).profile = profile → s.loops i = t.loops i
  status : s.redis (statusKey profile) = t.redis (statusKey profile)

section Steps

variable {json : Codec Raw} {d : Deployment} {profile : Bytes} {s t : State Raw}

theorem SameProfile.setLoop (h : SameProfile d profile s t) (i : Nat) (l : ProfileLoop) :
    SameProfile d profile (s.setLoop i l) (t.setLoop i l) := by
  refine ⟨h.now, fun j hj => ?_, h.status⟩
  by_cases hji : j = i
  · subst hji
    simp [State.setLoop]
  · simpa [State.setLoop, hji] using h.loops j hj

theorem SameProfile.setLoop_other (h : SameProfile d profile s t) {i : Nat}
    (hi : (d.healthd i).profile ≠ profile) (l : ProfileLoop) :
    SameProfile d profile (s.setLoop i l) t := by
  refine ⟨h.now, fun j hj => ?_, h.status⟩
  have hji : j ≠ i := fun he => hi (he ▸ hj)
  simpa [State.setLoop, hji] using h.loops j hj

theorem SameProfile.store (h : SameProfile d profile s t) (w : Write Raw) (e e' : Entry) :
    SameProfile d profile (s.store w e) (t.store w e') := by
  refine ⟨h.now, h.loops, ?_⟩
  by_cases hk : statusKey profile = w.key
  · simp [State.store, Expiring.put, hk]
  · simpa [State.store, Expiring.put, Function.update_of_ne hk] using h.status

theorem SameProfile.store_other (h : SameProfile d profile s t) {w : Write Raw}
    (hw : statusKey profile ≠ w.key) (e : Entry) : SameProfile d profile (s.store w e) t := by
  refine ⟨h.now, h.loops, ?_⟩
  simpa [State.store, Expiring.put, Function.update_of_ne hw] using h.status

theorem SameProfile.seen (h : SameProfile d profile s t) {a : Action}
    (ha : a.concerns d profile = true) :
    SameProfile d profile (step json d s a) (step json d t a) := by
  cases a with
  | wait elapsed => exact ⟨by simp [step, h.now], h.loops, h.status⟩
  | expire key =>
    obtain rfl : key = statusKey profile := of_decide_eq_true ha
    refine ⟨h.now, h.loops, ?_⟩
    simp only [step, Expiring.evict_self, h.status, h.now]
  | startLoop i => exact h.setLoop i {}
  | beginTick i =>
    have hi := h.loops i (of_decide_eq_true ha)
    simp only [step, hi, h.now]
    split
    · exact h.setLoop i _
    · exact h
  | sample i egress wg probe =>
    have hi := h.loops i (of_decide_eq_true ha)
    simp only [step, hi, h.now]
    split
    · exact h.setLoop i _
    · exact h
  | setStatus i ok =>
    have hi := h.loops i (of_decide_eq_true ha)
    simp only [step, hi, h.now]
    split
    · cases ok with
      | true => exact (h.setLoop i _).store _ _ _
      | false => exact h.setLoop i _
    · exact h
  | compile => cases ha
  | setRoute => cases ha
  | getRoute => cases ha
  | getStatus => cases ha

theorem SameProfile.unseen (h : SameProfile d profile s t) (hs : Inv json d s) {a : Action}
    (ha : a.concerns d profile = false) : SameProfile d profile (step json d s a) t := by
  cases a with
  | wait => cases ha
  | expire key =>
    have hkey : statusKey profile ≠ key := fun he => of_decide_eq_false ha he.symm
    exact ⟨h.now, h.loops, (Expiring.evict_of_ne _ _ hkey).trans h.status⟩
  | startLoop i => exact h.setLoop_other (of_decide_eq_false ha) {}
  | beginTick i =>
    simp only [step]
    split
    · exact h.setLoop_other (of_decide_eq_false ha) _
    · exact h
  | sample i egress wg probe =>
    simp only [step]
    split
    · exact h.setLoop_other (of_decide_eq_false ha) _
    · exact h
  | setStatus i ok =>
    have hi : (d.healthd i).profile ≠ profile := of_decide_eq_false ha
    simp only [step]
    split
    · next p cur hp =>
      -- the snapshot carries the name of the loop that decided it
      have hcur : statusKey profile ≠ statusKey cur.profile := by
        have hsound := (hs.loops i).2
        simp only [hp] at hsound
        rw [hsound.1, poll, pollOnce_profile, ne_eq, statusKey_inj]
        exact hi.symm
      cases ok with
      | true => exact (h.setLoop_other hi _).store_other hcur _
      | false => exact h.setLoop_other hi _
    · exact h
  | compile j run => exact ⟨h.now, h.loops, h.status⟩
  | setRoute j ok =>
    simp only [step]
    split
    · next run r rest hj =>
      have hseeded : SameProfile d profile (s.setSeeder j (some ⟨run, rest⟩)) t :=
        ⟨h.now, h.loops, h.status⟩
      cases ok with
      | true => exact hseeded.store_other (statusKey_ne_routeKey profile r.target) _
      | false => exact ⟨h.now, h.loops, h.status⟩
    · exact h
  | getRoute k line reachable =>
    simp only [step]
    split
    · exact ⟨h.now, h.loops, h.status⟩
    · exact h
  | getStatus k reachable =>
    simp only [step]
    split
    · exact h
    · exact ⟨h.now, h.loops, h.status⟩

theorem SameProfile.getStatus_eq (h : SameProfile d profile s t) (json : Codec Raw) (maxAge : Int)
    (reachable : Bool) :
    Bus.getStatus json s.redis s.now maxAge reachable profile =
      Bus.getStatus json t.redis t.now maxAge reachable profile := by
  simp only [Bus.getStatus, Expiring.get, h.status, h.now]

theorem profile_unwinds (json : Codec Raw) (d : Deployment) (profile : Bytes) :
    Purge.Unwinds (step json d) (Action.concerns d profile)
      (fun s t => Inv json d s ∧ SameProfile d profile s t) where
  consistent a ha h := ⟨inv_step h.1 a, h.2.seen ha⟩
  respects a ha h := ⟨inv_step h.1 a, h.2.unseen h.1 ha⟩

end Steps

/-- In every run, any reader of a profile's status reads what a run of that
profile's loops alone would have left for it. -/
theorem status_isolated (json : Codec Raw) (d : Deployment) (profile : Bytes) (start : Int)
    (actions : List Action) (maxAge : Int) (reachable : Bool) :
    let alone := run json d start (actions.filter (Action.concerns d profile))
    (∀ i, (d.healthd i).profile = profile → (run json d start actions).loops i = alone.loops i) ∧
    Bus.getStatus json (run json d start actions).redis (run json d start actions).now maxAge
        reachable profile =
      Bus.getStatus json alone.redis alone.now maxAge reachable profile := by
  have hstart : SameProfile d profile ({ now := start } : State Raw) { now := start } :=
    ⟨rfl, fun _ _ => rfl, rfl⟩
  obtain ⟨-, hsame⟩ := (profile_unwinds json d profile).run ⟨inv_run start [], hstart⟩ actions
  exact ⟨hsame.loops, hsame.getStatus_eq json maxAge reachable⟩

end HelixProxy.ControlPlane
