import HelixProxy.EventStream
import HelixProxy.JsonWrite
import HelixProxy.TimeText

/-!
# What the state bus keeps in Redis, in bytes

`HealthSnapshot` and `Route` through `encoding/json`. A snapshot with well-formed
texts and times of four-digit years is read back from its text as it was, and so
is a route.
-/

namespace HelixProxy.JsonText

open Reading Strconv Utf8 TimeText
set_option autoImplicit false

variable {δ : Type} {fields : List (StructField δ)} {unknown : δ → Option δ} {d : δ}

/-- A `uint64`. -/
def StructField.uint64 (name : Bytes) (put : UInt64 → δ → δ) : StructField δ where
  name := name
  set
    | .null => some id
    | .number literal =>
      if literal ≠ [] ∧ literal.all isDigit ∧ decimal literal < 2 ^ 64 then
        some (put (UInt64.ofNat (decimal literal)))
      else none
    | _ => none

/-- A `time.Time`: `UnmarshalJSON` takes the text between the quotes as it stands, escapes
and all. `slow` is what `time.Parse` makes of texts that `parseRFC3339` leaves to it. -/
def StructField.time (slow : Bytes → Option Int) (name : Bytes) (put : Int → δ → δ) :
    StructField δ where
  name := name
  set
    | .null => some id
    | .string body => ((parseRFC3339 body).or (slow body)).map put
    | _ => none

/-- `MarshalJSON` puts the quotes around the text itself. -/
def Member.time (key : Bytes) (t : Int) : Member :=
  ⟨key, .string (format t), 34 :: (format t ++ [34])⟩

theorem Member.faithful_time {depth : Nat} {key : Bytes} (hkey : WellFormed key) (t : Int) :
    (Member.time key t).Faithful depth where
  key := hkey
  text := by
    rw [Member.time, texts]
    have hbody := isBody_append (format_plain t) .nil
    rw [List.append_nil] at hbody
    exact ⟨hbody, rfl⟩

theorem decodes_uint64 {key : Bytes} {put : UInt64 → δ → δ}
    (hf : lookup fields key = some (.uint64 key put)) (n : UInt64) :
    Decodes fields unknown [.int key n.toNat] d (put n d) := by
  apply decodes_one hf
  have hdigits := digits_itoa n.toNat
  have hall : (itoa n.toNat).all isDigit = true := List.all_eq_true.mpr hdigits.2
  have hfits : (itoa n.toNat) ≠ [] ∧ (itoa n.toNat).all isDigit = true ∧
      decimal (itoa n.toNat) < 2 ^ 64 := by
    refine ⟨hdigits.1, hall, ?_⟩
    rw [decimal_itoa]
    exact n.toNat_lt
  refine (if_pos hfits).trans ?_
  rw [decimal_itoa, UInt64.ofNat_toNat]

theorem decodes_time {slow : Bytes → Option Int} {key : Bytes} {put : Int → δ → δ}
    (hf : lookup fields key = some (.time slow key put)) {t : Int} (ht : FourDigits t) :
    Decodes fields unknown [.time key t] d (put t d) := by
  apply decodes_one hf
  have hparse : (parseRFC3339 (format t)).or (slow (format t)) = some t := by
    rw [parse_format ht]
    rfl
  exact congrArg (Option.map put) hparse

end HelixProxy.JsonText

namespace HelixProxy.Bus

open Vpn JsonText Utf8 TimeText
set_option autoImplicit false

/-! Snapshots -/

def statusMembers (snap : HealthSnapshot) : List Member :=
  [.string (lit "profile") snap.profile] ++ ([.string (lit "state") snap.state.text] ++
    ([.time (lit "last_handshake") snap.lastHandshake] ++
    ([.int (lit "rx") snap.rx.toNat] ++ ([.int (lit "tx") snap.tx.toNat] ++
    ([.string (lit "egress_ip") snap.egressIP] ++
    ([.time (lit "checked_at") snap.checkedAt] ++
    [.time (lit "live_probe_at") snap.liveProbeAt]))))))

/-- `json.Marshal` of a snapshot fails on a time of another year. -/
def marshalStatus (snap : HealthSnapshot) : Option Bytes :=
  if FourDigits snap.lastHandshake ∧ FourDigits snap.checkedAt ∧ FourDigits snap.liveProbeAt then
    some (writeObject (statusMembers snap))
  else none

def statusFields (slow : Bytes → Option Int) : List (StructField HealthSnapshot) :=
  [.text (lit "profile") fun s d => { d with profile := s },
    .text (lit "state") fun s d => { d with state := .ofText s },
    .time slow (lit "last_handshake") fun t d => { d with lastHandshake := t },
    .uint64 (lit "rx") fun n d => { d with rx := n },
    .uint64 (lit "tx") fun n d => { d with tx := n },
    .text (lit "egress_ip") fun s d => { d with egressIP := s },
    .time slow (lit "checked_at") fun t d => { d with checkedAt := t },
    .time slow (lit "live_probe_at") fun t d => { d with liveProbeAt := t }]

def unmarshalStatus (slow : Bytes → Option Int) (raw : Bytes) : Option HealthSnapshot :=
  unmarshal (statusFields slow) {} raw

/-- Snapshots that JSON has room for. -/
structure Writable (snap : HealthSnapshot) : Prop where
  profile : WellFormed snap.profile
  state : WellFormed snap.state.text
  named : State.ofText snap.state.text = snap.state
  egressIP : WellFormed snap.egressIP
  lastHandshake : FourDigits snap.lastHandshake
  checkedAt : FourDigits snap.checkedAt
  liveProbeAt : FourDigits snap.liveProbeAt

theorem marshalStatus_of_writable {snap : HealthSnapshot} (h : Writable snap) :
    marshalStatus snap = some (writeObject (statusMembers snap)) :=
  if_pos ⟨h.lastHandshake, h.checkedAt, h.liveProbeAt⟩

theorem unmarshal_marshal_status (slow : Bytes → Option Int) {snap : HealthSnapshot}
    (h : Writable snap) : unmarshalStatus slow (writeObject (statusMembers snap)) = some snap := by
  have hdecoded : Decodes (statusFields slow) some (statusMembers snap) {}
      { snap with state := .ofText snap.state.text } :=
    Decodes.congr ((decodes_string rfl h.profile).append ((decodes_string rfl h.state).append
      ((decodes_time rfl h.lastHandshake).append ((decodes_uint64 rfl _).append
        ((decodes_uint64 rfl _).append ((decodes_string rfl h.egressIP).append
          ((decodes_time rfl h.checkedAt).append (decodes_time rfl h.liveProbeAt)))))))) rfl
  rw [h.named] at hdecoded
  refine unmarshal_writeObject ?_ hdecoded
  simp only [statusMembers, List.forall_mem_append, List.forall_mem_singleton]
  exact ⟨Member.faithful_string (by decide) h.profile, Member.faithful_string (by decide) h.state,
    Member.faithful_time (by decide) _, Member.faithful_int (by decide) _,
    Member.faithful_int (by decide) _, Member.faithful_string (by decide) h.egressIP,
    Member.faithful_time (by decide) _, Member.faithful_time (by decide) _⟩

/-! Routes -/

def routeMembers (r : Route) : List Member :=
  [.string (lit "target") r.target] ++ ([.string (lit "tunnel") r.tunnel] ++
    ([.int (lit "tier") r.tier] ++ [.string (lit "breaker_state") r.breakerState]))

def marshalRoute (r : Route) : Bytes := writeObject (routeMembers r)

def routeFields : List (StructField Route) :=
  [.text (lit "target") fun s d => { d with target := s },
    .text (lit "tunnel") fun s d => { d with tunnel := s },
    .int (lit "tier") fun n d => { d with tier := n },
    .text (lit "breaker_state") fun s d => { d with breakerState := s }]

def unmarshalRoute (raw : Bytes) : Option Route := unmarshal routeFields ⟨[], [], 0, []⟩ raw

structure Route.Writable (r : Route) : Prop where
  target : WellFormed r.target
  tunnel : WellFormed r.tunnel
  tier : Strconv.minInt64 ≤ r.tier ∧ r.tier ≤ Strconv.maxInt64
  breakerState : WellFormed r.breakerState

theorem unmarshal_marshal_route {r : Route} (h : r.Writable) :
    unmarshalRoute (marshalRoute r) = some r := by
  refine unmarshal_writeObject ?_ ?_
  · simp only [routeMembers, List.forall_mem_append, List.forall_mem_singleton]
    exact ⟨Member.faithful_string (by decide) h.target, Member.faithful_string (by decide) h.tunnel,
      Member.faithful_int (by decide) _, Member.faithful_string (by decide) h.breakerState⟩
  · exact Decodes.congr ((decodes_string rfl h.target).append ((decodes_string rfl h.tunnel).append
      ((decodes_int rfl h.tier).append (decodes_string rfl h.breakerState)))) rfl

end HelixProxy.Bus
