import HelixProxy.Bus
import HelixProxy.Healthd

/-!
# Publishing the verdict of a tick

A tick runs sampling, `SetStatus` and `PublishEvent` under one context whose
deadline is the poll interval. A Redis call fails once that context has
expired, so a sample that uses up the interval leaves its verdict unpublished.
-/

namespace HelixProxy.Healthd

open Vpn Bus
set_option autoImplicit false

/-- One tick with its clock: `beganAt` is when the tick made its context,
`returnedAt` when the sampler returned, `cancelledAt` when the root context ends. -/
structure TimedPoll where
  poll : Poll
  beganAt : Int
  returnedAt : Int
  cancelledAt : Option Int := none
  redisAccepts : Bool := true

def TimedPoll.ContextLive (c : Config) (t : TimedPoll) (now : Int) : Prop :=
  now < t.beganAt + c.interval ∧ ∀ x, t.cancelledAt = some x → now < x

instance (c : Config) (t : TimedPoll) (now : Int) : Decidable (t.ContextLive c now) :=
  match h : t.cancelledAt with
  | none => decidable_of_iff (now < t.beganAt + c.interval)
      ⟨fun hd => ⟨hd, fun _ hx => by simp [h] at hx⟩, fun hd => hd.1⟩
  | some x => decidable_of_iff (now < t.beganAt + c.interval ∧ now < x)
      ⟨fun hd => ⟨hd.1, fun _ hy => Option.some.inj (h.symm.trans hy) ▸ hd.2⟩,
        fun hd => ⟨hd.1, hd.2 x h⟩⟩

variable {Raw : Type}

structure Publisher (Raw : Type) where
  loop : Loop := {}
  redis : Redis Raw := Expiring.empty

structure Outcome (Raw : Type) where
  decided : HealthSnapshot
  statusStored : Bool
  event : Option (Event × Bool)
  next : Publisher Raw

/-- The body of `tick` in `runProfile`. -/
def publishTick (json : Codec Raw) (c : Config) (s : Publisher Raw) (t : TimedPoll) :
    Outcome Raw :=
  let cur := pollOnce c s.loop.prev (sample c.profile t.poll) t.returnedAt
  let callOK := t.redisAccepts && decide (t.ContextLive c t.returnedAt)
  { decided := cur
    statusStored := callOK
    event := if cur.state ≠ s.loop.lastReported then some (⟨c.profile, cur.state⟩, callOK) else none
    next :=
      { loop := s.loop.record cur
        redis := if callOK then
            Expiring.put s.redis (statusWrite json t.returnedAt cur c.ttlSeconds)
          else s.redis } }

end HelixProxy.Healthd
