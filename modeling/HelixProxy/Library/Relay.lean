import Mathlib.Data.List.Basic

/-!
# A relay of decoded messages

A source takes payloads off a subscription, drops those that do not decode and
offers each event on a channel without a buffer. A sink takes one event at a time
and writes its frame. Both stop when the client is gone; the source also stops
when the subscription has been dropped and nothing is left of it, and the sink when
the source has closed the channel.
-/

namespace HelixProxy.Relay

set_option autoImplicit false

variable {π ε ω : Type}

inductive Source (ε : Type) where
  | receiving
  | offering (e : ε)
  | closed

inductive Sink (ε : Type) where
  | waiting
  | writing (e : ε)
  | returned

/-- The event that the source has decoded and not handed over. -/
def Source.pending : Source ε → List ε
  | .offering e => [e]
  | _ => []

/-- The event that the sink has taken and not written. -/
def Sink.pending : Sink ε → List ε
  | .writing e => [e]
  | _ => []

structure State (π ε ω : Type) where
  queue : List π := []
  dropped : Bool := false
  cancelled : Bool := false
  source : Source ε := .receiving
  sink : Sink ε := .waiting
  out : List ω := []

/-- Nothing is on its way. -/
structure State.Idle (s : State π ε ω) : Prop where
  queue : s.queue = []
  source : s.source.pending = []
  sink : s.sink.pending = []

def received : Option ε → Source ε
  | some e => .offering e
  | none => .receiving

section Runs

variable (decode : π → Option ε) (frame : ε → List ω)

/-- What the two sides do, in any order. -/
inductive Step : State π ε ω → State π ε ω → Prop
  | receive {s : State π ε ω} {p : π} {queue : List π} : s.source = .receiving →
      s.queue = p :: queue → Step s { s with queue, source := received (decode p) }
  | handOver {s : State π ε ω} {e : ε} : s.source = .offering e → s.sink = .waiting →
      Step s { s with source := .receiving, sink := .writing e }
  | write {s : State π ε ω} {e : ε} : s.sink = .writing e →
      Step s { s with sink := .waiting, out := s.out ++ frame e }
  | close {s : State π ε ω} : s.source = .receiving → s.queue = [] → s.dropped = true →
      Step s { s with source := .closed }
  | finish {s : State π ε ω} : s.source = .closed → s.sink = .waiting →
      Step s { s with sink := .returned }
  | abandon {s : State π ε ω} : s.cancelled = true → Step s { s with source := .closed }
  | leave {s : State π ε ω} : s.cancelled = true → Step s { s with sink := .returned }

/-- The states in which certain payloads have arrived, whatever else has happened. -/
inductive Reached : List π → State π ε ω → Prop
  | start : Reached [] {}
  | step {ps : List π} {s s' : State π ε ω} : Reached ps s → Step decode frame s s' → Reached ps s'
  | arrive {ps : List π} {s : State π ε ω} (p : π) : Reached ps s → s.dropped = false →
      Reached (ps ++ [p]) { s with queue := s.queue ++ [p] }
  | drop {ps : List π} {s : State π ε ω} : Reached ps s → Reached ps { s with dropped := true }
  | cancel {ps : List π} {s : State π ε ω} : Reached ps s → Reached ps { s with cancelled := true }

/-- So many steps, with nothing from outside. -/
inductive Steps : Nat → State π ε ω → State π ε ω → Prop
  | refl (s : State π ε ω) : Steps 0 s s
  | tail {n : Nat} {s s' s'' : State π ε ω} : Steps n s s' → Step decode frame s' s'' →
      Steps (n + 1) s s''

/-- What has been written and what is on its way are together the events of the payloads,
each once and in their order. -/
def Conserved (ps : List π) (s : State π ε ω) : Prop :=
  ∃ sent : List ε, s.out = sent.flatMap frame ∧
    sent ++ (s.sink.pending ++ (s.source.pending ++ s.queue.filterMap decode)) =
      ps.filterMap decode

/-- Nobody has stopped but for the end of the subscription. -/
structure Live (s : State π ε ω) : Prop where
  source : s.source = .closed → s.queue = [] ∧ s.dropped = true
  sink : s.sink = .returned → s.source = .closed

end Runs

variable {decode : π → Option ε} {frame : ε → List ω} {ps : List π} {s s' : State π ε ω}

theorem pending_received (o : Option ε) : (received o).pending = o.toList := by
  cases o <;> rfl

theorem Step.cancelled (h : Step decode frame s s') : s'.cancelled = s.cancelled := by
  cases h <;> rfl

theorem Step.conserved (h : Step decode frame s s') (hs : s.cancelled = false)
    (hc : Conserved decode frame ps s) : Conserved decode frame ps s' := by
  obtain ⟨sent, hout, hsent⟩ := hc
  cases h with
  | @receive p queue hsource hqueue =>
    refine ⟨sent, hout, ?_⟩
    rw [← hsent, hsource, hqueue, pending_received]
    cases hp : decode p with
    | none => simp [Source.pending, hp]
    | some e => simp [Source.pending, hp]
  | handOver hsource hsink =>
    refine ⟨sent, hout, ?_⟩
    rw [← hsent, hsource, hsink]
    simp [Source.pending, Sink.pending]
  | @write e hsink =>
    refine ⟨sent ++ [e], by simp [hout], ?_⟩
    rw [← hsent, hsink]
    simp [Sink.pending]
  | close hsource hqueue _ =>
    refine ⟨sent, hout, ?_⟩
    rw [← hsent, hsource]
    rfl
  | finish _ hsink =>
    refine ⟨sent, hout, ?_⟩
    rw [← hsent, hsink]
    rfl
  | abandon hcancelled => cases hs.symm.trans hcancelled
  | leave hcancelled => cases hs.symm.trans hcancelled

theorem Step.live (h : Step decode frame s s') (hs : s.cancelled = false) (hl : Live s) :
    Live s' := by
  cases h with
  | @receive p queue hsource hqueue =>
    have hopen : received (decode p) ≠ .closed := by cases decode p <;> nofun
    refine ⟨fun hclosed => absurd hclosed hopen, fun hreturned => ?_⟩
    have hclosed := hl.sink hreturned
    cases hsource.symm.trans hclosed
  | handOver _ _ => exact ⟨nofun, nofun⟩
  | write _ => exact ⟨hl.source, nofun⟩
  | close _ hqueue hdropped => exact ⟨fun _ => ⟨hqueue, hdropped⟩, fun _ => rfl⟩
  | finish hsource _ => exact ⟨hl.source, fun _ => hsource⟩
  | abandon hcancelled => cases hs.symm.trans hcancelled
  | leave hcancelled => cases hs.symm.trans hcancelled

theorem Reached.conserved (h : Reached decode frame ps s) (hs : s.cancelled = false) :
    Conserved decode frame ps s := by
  induction h with
  | start => exact ⟨[], rfl, rfl⟩
  | step _ hstep ih =>
    have hbefore := hstep.cancelled.symm.trans hs
    exact hstep.conserved hbefore (ih hbefore)
  | arrive p _ _ ih =>
    obtain ⟨sent, hout, hsent⟩ := ih hs
    refine ⟨sent, hout, ?_⟩
    rw [List.filterMap_append, List.filterMap_append, ← hsent]
    simp only [List.append_assoc]
  | drop _ ih => exact ih hs
  | cancel _ _ => cases hs

theorem Reached.live (h : Reached decode frame ps s) (hs : s.cancelled = false) : Live s := by
  induction h with
  | start => exact ⟨nofun, nofun⟩
  | step _ hstep ih =>
    have hbefore := hstep.cancelled.symm.trans hs
    exact hstep.live hbefore (ih hbefore)
  | arrive p _ hdropped ih =>
    have hlive := ih hs
    refine ⟨fun hclosed => ?_, hlive.sink⟩
    obtain ⟨_, htrue⟩ := hlive.source hclosed
    cases hdropped.symm.trans htrue
  | drop _ ih =>
    have hlive := ih hs
    exact ⟨fun hclosed => ⟨(hlive.source hclosed).1, rfl⟩, hlive.sink⟩
  | cancel _ _ => cases hs

/-- While anything is on its way, one of the two sides can go on. -/
theorem Live.progress (h : Live s) : s.Idle ∨ ∃ s', Step decode frame s s' := by
  cases hsink : s.sink with
  | writing e => exact .inr ⟨_, .write hsink⟩
  | returned =>
    have hclosed := h.sink hsink
    obtain ⟨hqueue, -⟩ := h.source hclosed
    exact .inl ⟨hqueue, by rw [hclosed]; rfl, by rw [hsink]; rfl⟩
  | waiting =>
    cases hsource : s.source with
    | offering e => exact .inr ⟨_, .handOver hsource hsink⟩
    | closed =>
      obtain ⟨hqueue, -⟩ := h.source hsource
      exact .inl ⟨hqueue, by rw [hsource]; rfl, by rw [hsink]; rfl⟩
    | receiving =>
      cases hqueue : s.queue with
      | nil => exact .inl ⟨hqueue, by rw [hsource]; rfl, by rw [hsink]; rfl⟩
      | cons p queue => exact .inr ⟨_, .receive hsource hqueue⟩

def Source.work : Source ε → Nat
  | .receiving => 1
  | .offering _ => 3
  | .closed => 0

def Sink.work : Sink ε → Nat
  | .waiting => 1
  | .writing _ => 2
  | .returned => 0

/-- A bound on the steps that are left. -/
def State.work (s : State π ε ω) : Nat := 3 * s.queue.length + s.source.work + s.sink.work

theorem Step.work_lt (h : Step decode frame s s') (hs : s.cancelled = false) : s'.work < s.work := by
  cases h with
  | @receive p queue hsource hqueue =>
    have hreceived : (received (decode p)).work ≤ 3 := by
      cases decode p <;> simp [received, Source.work]
    have hreceiving : s.source.work = 1 := by rw [hsource]; rfl
    simp only [State.work, hqueue, List.length_cons]
    omega
  | handOver hsource hsink => simp only [State.work, hsource, hsink, Source.work, Sink.work]; omega
  | write hsink => simp only [State.work, hsink, Sink.work]; omega
  | close hsource _ _ => simp only [State.work, hsource, Source.work]; omega
  | finish _ hsink => simp only [State.work, hsink, Sink.work]; omega
  | abandon hcancelled => cases hs.symm.trans hcancelled
  | leave hcancelled => cases hs.symm.trans hcancelled

theorem Steps.cancelled {n : Nat} (h : Steps decode frame n s s') : s'.cancelled = s.cancelled := by
  induction h with
  | refl => rfl
  | tail _ hstep ih => exact hstep.cancelled.trans ih

theorem Steps.work_le {n : Nat} (h : Steps decode frame n s s') (hs : s.cancelled = false) :
    n + s'.work ≤ s.work := by
  induction h with
  | refl => omega
  | tail hsteps hstep ih =>
    have hlt := hstep.work_lt (hsteps.cancelled.trans hs)
    have hle := ih hs
    omega

theorem Steps.reached {n : Nat} (h : Steps decode frame n s s') (hs : Reached decode frame ps s) :
    Reached decode frame ps s' := by
  induction h with
  | refl => exact hs
  | tail _ hstep ih => exact (ih hs).step hstep

end HelixProxy.Relay
