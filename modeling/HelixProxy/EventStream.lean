import HelixProxy.Bus
import HelixProxy.JsonQuote
import HelixProxy.JsonStruct
import HelixProxy.Library.Relay
import HelixProxy.Library.ServerSentEvents

/-!
# The live event stream

`SubscribeEvents` of `internal/redis/client.go` and the `events` handler of
`internal/api/handlers.go`: a goroutine decodes the payloads of `vpn:events` and
hands the events over one by one, the handler encodes each again and writes it as
a frame of a Server-Sent-Events stream.
-/

namespace HelixProxy.Vpn

set_option autoImplicit false

def State.text : State → Bytes
  | .up => lit "up"
  | .down => lit "down"
  | .unknown => lit "unknown"
  | .other text => text

def State.ofText (s : Bytes) : State :=
  if s = lit "up" then .up
  else if s = lit "down" then .down
  else if s = lit "unknown" then .unknown
  else .other s

theorem State.text_ofText (s : Bytes) : (State.ofText s).text = s := by
  unfold State.ofText
  split_ifs with hup hdown hunknown
  · exact hup.symm
  · exact hdown.symm
  · exact hunknown.symm
  · rfl

end HelixProxy.Vpn

namespace HelixProxy.Bus

open Vpn JsonText Reading Utf8
set_option autoImplicit false

def eventFields : List (StructField Event) :=
  [.text (lit "profile_id") fun s e => { e with profileID := s },
    .text (lit "state") fun s e => { e with state := .ofText s }]

/-- `json.Unmarshal` of a payload into an `Event`. -/
def unmarshalEvent (payload : Bytes) : Option Event :=
  unmarshal eventFields ⟨[], .other []⟩ payload

/-- `json.Marshal` of an `Event`. -/
def marshalEvent (e : Event) : Bytes :=
  lit "\x7b\"profile_id\":" ++ (appendString e.profileID ++
    (lit ",\"state\":" ++ (appendString e.state.text ++ lit "\x7d")))

/-- What the handler writes for an event. -/
def writeEvent (e : Event) : Bytes := lit "data: " ++ (marshalEvent e ++ lit "\n\n")

/-- What decoding gives: well-formed texts, and a state that is known by its name. -/
structure Event.Clean (e : Event) : Prop where
  profileID : WellFormed e.profileID
  state : WellFormed e.state.text
  named : State.ofText e.state.text = e.state

theorem clean_zero : Event.Clean ⟨[], .other []⟩ :=
  ⟨fun _ hp => (by cases hp), fun _ hp => (by cases hp), by decide⟩

theorem clean_of_set (f : StructField Event) (hf : f ∈ eventFields) (v : Value)
    (store : Event → Event) (h : f.set v = some store) (e : Event) (he : e.Clean) :
    (store e).Clean := by
  simp only [eventFields, List.mem_cons, List.not_mem_nil, or_false] at hf
  rcases hf with rfl | rfl
  · rcases StructField.text_set h with rfl | ⟨body, rfl⟩
    · exact he
    · exact { he with profileID := wellFormed_unquote body }
  · rcases StructField.text_set h with rfl | ⟨body, rfl⟩
    · exact he
    · refine ⟨he.profileID, ?_, ?_⟩
      · rw [State.text_ofText]
        exact wellFormed_unquote body
      · rw [State.text_ofText]

theorem clean_of_unmarshal {payload : Bytes} {e : Event} (h : unmarshalEvent payload = some e) :
    e.Clean := by
  unfold unmarshalEvent unmarshal at h
  split at h
  · cases h
  · split at h
    · exact decodeStruct_induction clean_of_set clean_zero h
    · cases h

theorem member_mem {key name s : Bytes} (hkey : key ∈ stringTexts name) (hs : WellFormed s)
    (depth : Nat) :
    key ++ (58 :: appendString s) ∈
      padded JsonText.isSpace (memberTexts (texts depth) (name, .string (escaped s))) := by
  have hvalue : appendString s ∈ texts depth (.string (escaped s)) := by
    rw [texts]
    exact ⟨isBody_escaped hs, rfl⟩
  have hspace := nil_mem_run JsonText.isSpace
  apply mem_padded_self
  exact ⟨key, hkey, _, ⟨[], hspace, _, ⟨[58], rfl, _, ⟨[], hspace, _, hvalue, rfl⟩, rfl⟩, rfl⟩, rfl⟩

theorem marshalEvent_mem {e : Event} (he : e.Clean) (depth : Nat) :
    marshalEvent e ∈ texts (depth + 1)
      (.object [(lit "profile_id", .string (escaped e.profileID)),
        (lit "state", .string (escaped e.state.text))]) := by
  have hprofile : lit "\"profile_id\"" ∈ stringTexts (lit "profile_id") :=
    appendString_mem (s := lit "profile_id") (by decide)
  have hstate : lit "\"state\"" ∈ stringTexts (lit "state") :=
    appendString_mem (s := lit "state") (by decide)
  have hfirst := member_mem hprofile he.profileID depth
  have hlast := member_mem hstate he.state depth
  refine ⟨[123], rfl, _, (mem_elementTexts_cons (by simp)).mpr
    ⟨_, hfirst, _, mem_elementTexts_one.mpr ⟨_, hlast, rfl⟩, rfl⟩, ?_⟩
  simp only [List.append_assoc, List.cons_append]
  rfl

/-- An event that was decoded once is decoded again from what the handler writes. -/
theorem unmarshal_marshal {e : Event} (he : e.Clean) : unmarshalEvent (marshalEvent e) = some e := by
  have hread : readDocument ([] ++ (marshalEvent e ++ [])) = some (_, []) :=
    readValue_dropWhile (nil_mem_run _) (marshalEvent_mem he 9999) (by simp)
  have hdecode : decodeStruct eventFields some ⟨[], .other []⟩
      (.object [(lit "profile_id", .string (escaped e.profileID)),
        (lit "state", .string (escaped e.state.text))]) =
        some ⟨unquote (escaped e.profileID), .ofText (unquote (escaped e.state.text))⟩ := rfl
  rw [List.nil_append, List.append_nil] at hread
  simp only [unmarshalEvent, unmarshal, hread, List.all_nil, if_true, hdecode,
    unquote_escaped he.profileID, unquote_escaped he.state, he.named]

theorem not_break {b : UInt8} (h : 32 ≤ b) : Sse.isBreak b = false := by
  rw [Bool.eq_false_iff]
  intro hbreak
  rcases Bool.or_eq_true_iff.mp hbreak with heq | heq
  · rw [eq_of_beq heq] at h
    exact absurd h (by decide)
  · rw [eq_of_beq heq] at h
    exact absurd h (by decide)

/-- The encoded event is one line. -/
theorem marshalEvent_line {e : Event} (he : e.Clean) : ∀ b ∈ marshalEvent e, Sse.isBreak b = false := by
  suffices hprintable : ∀ b ∈ marshalEvent e, 32 ≤ b from fun b hb => not_break (hprintable b hb)
  simp only [marshalEvent, List.forall_mem_append]
  exact ⟨by decide, appendString_printable he.profileID, by decide, appendString_printable he.state,
    by decide⟩

abbrev Stream := Relay.State Bytes Event UInt8

/-- The states of a stream on which certain payloads have arrived. -/
def Streamed (payloads : List Bytes) (s : Stream) : Prop :=
  Relay.Reached unmarshalEvent writeEvent payloads s

/-- What a client makes of the stream: the events it parses, each decoded from its data. -/
def clientEvents (out : Bytes) : List (Option Event) :=
  (Sse.messages out).map fun m => unmarshalEvent m.data

theorem clientEvents_frames {sent : List Event} (h : ∀ e ∈ sent, e.Clean) :
    clientEvents (sent.flatMap writeEvent) = sent.map some := by
  have hframes : sent.flatMap writeEvent = (sent.map marshalEvent).flatMap Sse.frame := by
    rw [List.flatMap_map]
    rfl
  have hlines : ∀ data ∈ sent.map marshalEvent, ∀ b ∈ data, Sse.isBreak b = false := by
    intro data hdata
    obtain ⟨e, he, rfl⟩ := List.mem_map.mp hdata
    exact marshalEvent_line (h e he)
  rw [clientEvents, hframes, Sse.messages_frames _ hlines, List.map_map, List.map_map]
  apply List.map_congr_left
  intro e he
  exact unmarshal_marshal (h e he)

/-- Events of payloads are clean. -/
theorem clean_of_mem {payloads : List Bytes} {e : Event} (he : e ∈ payloads.filterMap unmarshalEvent) :
    e.Clean := by
  obtain ⟨payload, -, hdecode⟩ := List.mem_filterMap.mp he
  exact clean_of_unmarshal hdecode

/-- While the client stays connected, what it makes of the stream is at any time the first
of the events that the payloads decode to, each once and in their order, and all of them when
nothing is on its way any more. That comes to pass after a bounded number of steps, since
something can be done until then; and the stream does not end while the subscription
lasts. -/
theorem event_stream_relayed {payloads : List Bytes} {s : Stream} (h : Streamed payloads s)
    (hconnected : s.cancelled = false) :
    (∃ rest, clientEvents s.out ++ rest = (payloads.filterMap unmarshalEvent).map some) ∧
      (s.Idle → clientEvents s.out = (payloads.filterMap unmarshalEvent).map some) ∧
      (s.dropped = false → s.source ≠ .closed ∧ s.sink ≠ .returned) ∧
      ∀ n s', Relay.Steps unmarshalEvent writeEvent n s s' →
        n ≤ s.work ∧ (s'.Idle ∨ ∃ s'', Relay.Step unmarshalEvent writeEvent s' s'') := by
  obtain ⟨sent, hout, hsent⟩ := Relay.Reached.conserved h hconnected
  have hclean : ∀ e ∈ sent, e.Clean := by
    intro e he
    apply @clean_of_mem payloads
    rw [← hsent]
    exact List.mem_append_left _ he
  have hclient : clientEvents s.out = sent.map some := by rw [hout, clientEvents_frames hclean]
  have hlive := Relay.Reached.live h hconnected
  refine ⟨?_, fun hidle => ?_, fun hopen => ?_, fun n s' hsteps => ?_⟩
  · rw [hclient, ← hsent, List.map_append]
    exact ⟨_, rfl⟩
  · rw [hclient, ← hsent, hidle.queue, hidle.source, hidle.sink]
    simp
  · have hsource : s.source ≠ .closed := by
      intro hclosed
      obtain ⟨-, hdropped⟩ := hlive.source hclosed
      cases hopen.symm.trans hdropped
    exact ⟨hsource, fun hreturned => hsource (hlive.sink hreturned)⟩
  · have hwork := hsteps.work_le hconnected
    have hlive' := (hsteps.reached h).live (hsteps.cancelled.trans hconnected)
    exact ⟨by omega, hlive'.progress⟩

/-- A profile id with a line break in it. -/
def brokenLine : Bytes := lit "\x7b\"profile_id\":\"eu\\nwest\",\"state\":\"up\"\x7d"

/-- After that payload, and one that is no JSON. -/
def brokenLineStream : Stream := { out := writeEvent ⟨lit "eu\nwest", .up⟩ }

theorem brokenLine_streamed : Streamed [brokenLine, lit "oops"] brokenLineStream := by
  have hstart : Streamed [] {} := Relay.Reached.start
  have harrived := (Relay.Reached.arrive brokenLine hstart rfl).arrive (lit "oops") rfl
  have hoffered := harrived.step (.receive rfl rfl)
  have hwritten := (hoffered.step (.handOver rfl rfl)).step (.write rfl)
  have hskipped := hwritten.step (.receive rfl rfl)
  exact hskipped

theorem event_stream_brokenLine :
    Streamed [brokenLine, lit "oops"] brokenLineStream ∧
      clientEvents brokenLineStream.out = [some ⟨lit "eu\nwest", .up⟩] :=
  ⟨brokenLine_streamed, (event_stream_relayed brokenLine_streamed rfl).2.1 ⟨rfl, rfl, rfl⟩⟩

end HelixProxy.Bus
