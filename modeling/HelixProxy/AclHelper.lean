import HelixProxy.Bus
import HelixProxy.Library.Lines

/-!
# The external-acl helper

`internal/aclhelper` and the loop of `cmd/acl-helper`: one request line in, one
reply line out. Strings are bytes throughout, so any input stream is covered.
-/

namespace HelixProxy.AclHelper

open Vpn
set_option autoImplicit false

def unhex (b : UInt8) : Option UInt8 :=
  if 48 ≤ b ∧ b ≤ 57 then some (b - 48)
  else if 97 ≤ b ∧ b ≤ 102 then some (b - 87)
  else if 65 ≤ b ∧ b ≤ 70 then some (b - 55)
  else none

/-- `url.PathUnescape`: a `%` must be followed by two hex digits. -/
def pathUnescape : Bytes → Option Bytes
  | [] => some []
  | 37 :: a :: b :: rest =>
    match unhex a, unhex b with
    | some x, some y => (pathUnescape rest).map ((x * 16 + y) :: ·)
    | _, _ => none
  | 37 :: _ => none
  | b :: rest => (pathUnescape rest).map (b :: ·)

def isChannelID (tok : Bytes) : Bool :=
  !tok.isEmpty && (Utf8.runes tok).all fun r => 48 ≤ r && r ≤ 57

/-- An empty `channel` is serial framing; an empty `host` is not usable. -/
structure Request where
  channel : Bytes := []
  host : Bytes := []
  deriving DecidableEq, Repr

def decodeHost (rawHost : Bytes) : Bytes :=
  match pathUnescape rawHost with
  | none => []
  | some host => Strings.trimSpace host

def parseLine (line : Bytes) : Request :=
  match Strings.fields (Strings.trimRight line (lit "\r\n")) with
  | [] => {}
  | [tok] => { host := decodeHost tok }
  | tok :: next :: _ =>
    if isChannelID tok then { channel := tok, host := decodeHost next }
    else { host := decodeHost tok }

structure Decider where
  getRoute : Bytes → Except Bus.RouteError Bus.Route
  getStatus : Bytes → HealthSnapshot × Bool

/-- The helper over the real client; the two calls happen at their own times. -/
def Decider.ofRedis {Raw : Type} (json : Bus.Codec Raw) (maxAge : Int)
    (atRoute : Bus.Redis Raw × Int × Bool) (atStatus : Bus.Redis Raw × Int × Bool) : Decider where
  getRoute := Bus.getRoute json atRoute.1 atRoute.2.1 atRoute.2.2
  getStatus := Bus.getStatus json atStatus.1 atStatus.2.1 maxAge atStatus.2.2

def Decider.decide (d : Decider) (host : Bytes) : Bool × Bytes :=
  if host = [] then (false, [])
  else match d.getRoute host with
    | .error _ => (false, [])
    | .ok route =>
      if route.tunnel = [] then (false, [])
      else match d.getStatus route.tunnel with
        | (_, true) => (false, [])
        | (snap, false) => if snap.state ≠ .up then (false, []) else (true, route.tunnel)

/-- `decideWithTimeout`; a lookup that times out is an error of the bus. -/
def Decider.decideWithTimeout (d : Decider) (host : Bytes) : Bool × Bytes :=
  if host = [] then (false, []) else d.decide host

def echo (channel : Bytes) : Bytes := if channel ≠ [] then channel ++ [space] else []

def formatReply (channel : Bytes) (ok : Bool) (tag : Bytes) : Bytes :=
  echo channel ++
    (if ok && !tag.isEmpty then lit "OK tag=" ++ tag
      else if ok then lit "OK" else lit "ERR") ++ [nl]

def reply (d : Decider) (line : Bytes) : Bytes :=
  let req := parseLine line
  let verdict := d.decideWithTimeout req.host
  formatReply req.channel verdict.1 verdict.2

/-- `ReadString('\n')`: the line with its delimiter, the rest, and whether the
input ended first. -/
def readString (input : Bytes) : Bytes × Bytes × Bool :=
  let line := input.takeWhile (· ≠ nl)
  match input.dropWhile (· ≠ nl) with
  | [] => (line, [], true)
  | d :: rest => (line ++ [d], rest, false)

/-- `loop`; `dec i` is the bus as the request with index `i` finds it. -/
def loopFrom (dec : Nat → Decider) : Nat → Nat → Bytes → Bytes
  | 0, _, _ => []
  | fuel + 1, i, input =>
    let (line, rest, eof) := readString input
    let out := if line.length > 0 then reply (dec i) line else []
    let j := if line.length > 0 then i + 1 else i
    if eof then out else out ++ loopFrom dec fuel j rest

/-- Each round takes at least one byte, so the length of the input is fuel enough. -/
def loop (dec : Nat → Decider) (input : Bytes) : Bytes := loopFrom dec (input.length + 1) 0 input

/-- The request lines of an input: its newline-terminated segments and a final
unterminated non-empty one. -/
def requestLines : Bytes → List Bytes
  | [] => []
  | b :: rest =>
    if b = nl then [b] :: requestLines rest
    else match requestLines rest with
      | [] => [[b]]
      | l :: ls => (b :: l) :: ls

def Decider.Routed (d : Decider) (host tunnel : Bytes) : Prop :=
  host ≠ [] ∧ tunnel ≠ [] ∧ ∃ route, d.getRoute host = .ok route ∧ route.tunnel = tunnel ∧
    ∃ snap, d.getStatus tunnel = (snap, false) ∧ snap.state = .up

/-- The one affirmative path of `Decide`. -/
theorem decide_eq_ok_iff (d : Decider) (host tag : Bytes) :
    d.decide host = (true, tag) ↔ d.Routed host tag := by
  unfold Decider.Routed
  unfold Decider.decide
  by_cases hh : host = []
  · simp [hh]
  cases hr : d.getRoute host with
  | error e => simp [hh]
  | ok route =>
    by_cases ht : route.tunnel = []
    · simp only [hh, if_false, ht, if_true, Prod.mk.injEq, Bool.false_eq_true, false_and, false_iff]
      rintro ⟨-, hne, r, hr', rfl, -⟩
      exact hne (Except.ok.inj hr' ▸ ht)
    · rcases hs : d.getStatus route.tunnel with ⟨snap, err⟩
      cases err with
      | true =>
        simp only [hh, if_false, ht, hs, Prod.mk.injEq, Bool.false_eq_true, false_and, false_iff]
        rintro ⟨-, -, r, hr', rfl, snap', hs', -⟩
        obtain rfl := Except.ok.inj hr'
        simp [hs] at hs'
      | false =>
        by_cases hup : snap.state = .up
        · simp only [hh, if_false, ht, hs, hup, ne_eq, not_true_eq_false, Prod.mk.injEq, true_and,
            not_false_eq_true]
          constructor
          · rintro rfl
            exact ⟨ht, route, rfl, rfl, snap, hs, hup⟩
          · rintro ⟨-, r, hr', rfl, -⟩
            rw [Except.ok.inj hr']
        · simp only [hh, if_false, ht, hs, ne_eq, hup, not_false_eq_true, if_true, Prod.mk.injEq,
            Bool.false_eq_true, false_and, false_iff]
          rintro ⟨-, -, r, hr', rfl, snap', hs', hup'⟩
          obtain rfl := Except.ok.inj hr'
          rw [hs] at hs'
          exact hup ((Prod.mk.inj hs').1 ▸ hup')

/-- The helper's answer for a host whose route names a profile. -/
theorem decide_ok_iff {Raw : Type} {json : Bus.Codec Raw} {r : Bus.Redis Raw} {now maxAge : Int}
    {host : Bytes} {route : Bus.Route} (hhost : host ≠ [])
    (hroute : Bus.getRoute json r now true host = .ok route) :
    ((Decider.ofRedis json maxAge (r, now, true) (r, now, true)).decide host).1 = true ↔
      route.tunnel ≠ [] ∧ (Bus.getStatus json r now maxAge true route.tunnel).1.state = .up := by
  have hstatus : Bus.getStatus json r now maxAge true route.tunnel =
      ((Bus.getStatus json r now maxAge true route.tunnel).1, false) := by simp [Bus.getStatus]
  constructor
  · intro hok
    have hrouted := (decide_eq_ok_iff _ host _).mp (Prod.ext hok rfl)
    obtain ⟨-, hne, route', hroute', htunnel, snap, hsnap, hup⟩ := hrouted
    obtain rfl : route' = route := Except.ok.inj (hroute'.symm.trans hroute)
    rw [← htunnel] at hne hsnap
    refine ⟨hne, ?_⟩
    have hsnap' : Bus.getStatus json r now maxAge true route'.tunnel = (snap, false) := hsnap
    rw [hsnap']
    exact hup
  · rintro ⟨hne, hup⟩
    have hrouted : (Decider.ofRedis json maxAge (r, now, true) (r, now, true)).Routed host
        route.tunnel := ⟨hhost, hne, route, hroute, rfl, _, hstatus, hup⟩
    rw [(decide_eq_ok_iff _ host _).mpr hrouted]

theorem decideWithTimeout_eq (d : Decider) (host : Bytes) :
    d.decideWithTimeout host = d.decide host := by
  by_cases hh : host = [] <;> simp [Decider.decideWithTimeout, Decider.decide, hh]

theorem decide_eq_err (d : Decider) (host : Bytes) (h : ∀ tag, ¬ d.Routed host tag) :
    d.decide host = (false, []) := by
  have hcases : d.decide host = (false, []) ∨ ∃ tag, d.decide host = (true, tag) := by
    unfold Decider.decide
    repeat' split
    all_goals simp
  rcases hcases with herr | ⟨tag, hok⟩
  · exact herr
  · exact absurd ((decide_eq_ok_iff d host tag).mp hok) (h tag)

theorem formatReply_ok {channel tag tag' : Bytes} {ok : Bool}
    (h : formatReply channel ok tag' = formatReply channel true tag) : ok = true ∧ tag' = tag := by
  have htag : lit "OK tag=" = [79, 75, 32, 116, 97, 103, 61] := by decide
  have hok : lit "OK" = [79, 75] := by decide
  have herr : lit "ERR" = [69, 82, 82] := by decide
  simp only [formatReply, List.append_assoc, List.append_cancel_left_eq, htag, hok, herr] at h
  cases ok with
  | false => cases tag <;> simp at h
  | true => cases tag <;> cases tag' <;> simp_all [nl]

end HelixProxy.AclHelper
