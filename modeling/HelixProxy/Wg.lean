import HelixProxy.Bus
import HelixProxy.Healthd
import Mathlib.Algebra.Group.Nat.Defs

/-!
# Reading the wg counters

`internal/vpn/wg.go`: the parsers of `wg show <if> transfer` and `wg show <if>
latest-handshakes`, and the sample made of their outputs. A parse error or a
command that fails is `none`.
-/

namespace HelixProxy.Vpn

open Bus (wrapInt64)
open Healthd (WgReading)
set_option autoImplicit false

structure PeerTransfer where
  publicKey : Bytes
  rx : UInt64
  tx : UInt64
  deriving DecidableEq, Repr

structure PeerHandshake where
  publicKey : Bytes
  time : Int
  deriving DecidableEq, Repr

/-- `strconv.ParseUint(s, 10, 64)`. -/
def parseUint (s : Bytes) : Option UInt64 :=
  if s.isEmpty || !s.all Strconv.isDigit then none
  else if Strconv.decimal s < 2 ^ 64 then some (UInt64.ofNat (Strconv.decimal s)) else none

/-- `strconv.ParseInt(s, 10, 64)` accepts what `Atoi` accepts. -/
def parseInt (s : Bytes) : Option Int := Strconv.atoi s

def tab : UInt8 := 9

/-- The lines of an output that are parsed; blank ones are skipped. -/
def wgLines (out : Bytes) : List Bytes :=
  ((Strings.split out nl).map fun line => Strings.trimRight line (lit "\r")).filter
    fun line => Strings.trimSpace line ≠ []

/-- One value per line; the first line that does not parse is an error. -/
def parseEach {α : Type} (parse : Bytes → Option α) : List Bytes → Option (List α)
  | [] => some []
  | line :: rest => (parse line).bind fun x => (parseEach parse rest).map (x :: ·)

def parseTransferLine (line : Bytes) : Option PeerTransfer :=
  match Strings.split line tab with
  | [key, rx, tx] =>
    (parseUint (Strings.trimSpace rx)).bind fun rx =>
      (parseUint (Strings.trimSpace tx)).map fun tx => ⟨Strings.trimSpace key, rx, tx⟩
  | _ => none

def parseTransfer (out : Bytes) : Option (List PeerTransfer) := parseEach parseTransferLine (wgLines out)

def sumTransfer (peers : List PeerTransfer) : UInt64 × UInt64 :=
  peers.foldl (fun sum p => (sum.1 + p.rx, sum.2 + p.tx)) (0, 0)

/-- Seconds from Go's zero time to the Unix epoch. -/
def unixToInternal : Int := 62135596800

/-- `time.Unix(epoch, 0)`; the seconds are an int64. -/
def unixTime (epoch : Int) : Int := wrapInt64 (epoch + unixToInternal) * second

/-- An epoch of 0 says that there was no handshake yet. -/
def handshakeTime (epoch : Int) : Int := if epoch > 0 then unixTime epoch else 0

def parseHandshakeLine (line : Bytes) : Option PeerHandshake :=
  match Strings.split line tab with
  | [key, epoch] =>
    (parseInt (Strings.trimSpace epoch)).map fun epoch =>
      ⟨Strings.trimSpace key, handshakeTime epoch⟩
  | _ => none

def parseLatestHandshakes (out : Bytes) : Option (List PeerHandshake) :=
  parseEach parseHandshakeLine (wgLines out)

def latestHandshake (peers : List PeerHandshake) : Int :=
  peers.foldl (fun latest p => if p.time > latest then p.time else latest) 0

/-- `WGReader.Sample`, from the outputs of its two commands. -/
def wgSample (transferOut handshakesOut : Option Bytes) : Option WgReading :=
  (transferOut.bind parseTransfer).bind fun peers =>
    (handshakesOut.bind parseLatestHandshakes).map fun hs =>
      ⟨(sumTransfer peers).1, (sumTransfer peers).2, latestHandshake hs⟩

theorem mem_parseEach {α : Type} {parse : Bytes → Option α} {lines : List Bytes} {xs : List α}
    (h : parseEach parse lines = some xs) {x : α} (hx : x ∈ xs) :
    ∃ line ∈ lines, parse line = some x := by
  induction lines generalizing xs with
  | nil =>
    cases h
    cases hx
  | cons line rest ih =>
    simp only [parseEach, Option.bind_eq_some_iff, Option.map_eq_some_iff] at h
    obtain ⟨y, hy, ys, hys, rfl⟩ := h
    rcases List.mem_cons.mp hx with rfl | hx
    · exact ⟨line, List.mem_cons_self, hy⟩
    · obtain ⟨line', hline', hparse⟩ := ih hys hx
      exact ⟨line', List.mem_cons_of_mem line hline', hparse⟩

end HelixProxy.Vpn
