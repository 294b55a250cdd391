import HelixProxy.Artifacts
import HelixProxy.ControlApi
import HelixProxy.Library.Glob

/-!
# Proxy auto-config files

`internal/pac` and the `/proxy.pac` handler, and how a browser reads the function
that it and the compiler render: the first rule whose pattern matches the host
gives the answer. A pattern is what the rendered literal denotes in JavaScript.
-/

namespace HelixProxy.Js

set_option autoImplicit false

def utf16 (r : Nat) : List Nat :=
  if r < 0x10000 then [r] else [0xD800 + (r - 0x10000) / 0x400, 0xDC00 + (r - 0x10000) % 0x400]

/-- The code units of a text. -/
def units (s : Bytes) : List Nat := (Utf8.runes s).flatMap utf16

def hexValue (r : Nat) : Nat :=
  if 97 ≤ r then r - 87 else if 65 ≤ r then r - 55 else r - 48

/-- The character after a backslash; one without a meaning stands for itself. -/
def singleEscape (r : Nat) : Nat :=
  match r with
  | 98 => 8
  | 102 => 12
  | 110 => 10
  | 114 => 13
  | 116 => 9
  | 118 => 11
  | r => r

/-- What follows a backslash: the units it denotes and the characters it takes. -/
def escapeValue : List Nat → List Nat × Nat
  | 120 :: a :: b :: _ => ([hexValue a * 16 + hexValue b], 3)
  | 117 :: a :: b :: c :: d :: _ =>
    ([((hexValue a * 16 + hexValue b) * 16 + hexValue c) * 16 + hexValue d], 5)
  | r :: _ => (utf16 (singleEscape r), 1)
  | [] => ([], 0)

/-- The body of a string literal; `skip` counts the characters of the current
escape still to pass over. -/
def escapesFrom : Nat → List Nat → List Nat
  | _, [] => []
  | skip + 1, _ :: rest => escapesFrom skip rest
  | 0, r :: rest =>
    if r = 92 then (escapeValue rest).1 ++ escapesFrom (escapeValue rest).2 rest
    else utf16 r ++ escapesFrom 0 rest

/-- The value of a string literal, given with its quotes. -/
def literal (text : Bytes) : List Nat := escapesFrom 0 (Utf8.runes text).tail.dropLast

/-- `shExpMatch` with `*` and `?` as wildcards. -/
def shExpMatch (host pattern : List Nat) : Bool := Glob.Matches 42 63 pattern host

theorem escapesFrom_plain {rs : List Nat} (h : ∀ r ∈ rs, r ≠ 92) :
    escapesFrom 0 rs = rs.flatMap utf16 := by
  induction rs with
  | nil => rfl
  | cons r rest ih =>
    rw [escapesFrom, if_neg (h r List.mem_cons_self), List.flatMap_cons,
      ih fun x hx => h x (List.mem_cons_of_mem r hx)]

end HelixProxy.Js

namespace HelixProxy.Pac

open Routing Store
set_option autoImplicit false
set_option maxRecDepth 4096

structure Entry where
  hostGlob : Bytes
  proxy : Bytes
  deriving DecidableEq, Repr

def defaultProxy : Bytes := lit "PROXY proxy-squid:34128"

/-- `sort.Slice` by `HostGlob`: which of the sorted orders it leaves entries with
equal globs in is not promised. -/
structure SliceSort where
  run : List Entry → List Entry
  perm : ∀ es, (run es).Perm es
  sorted : ∀ es, (run es).Pairwise fun a b => a.hostGlob ≤ b.hostGlob

def stableSort : SliceSort where
  run es := es.insertionSort fun a b => a.hostGlob ≤ b.hostGlob
  perm es := List.perm_insertionSort _ es
  sorted es := by
    have : Std.Total fun a b : Entry => a.hostGlob ≤ b.hostGlob :=
      ⟨fun a b => List.le_total a.hostGlob b.hostGlob⟩
    have : IsTrans Entry fun a b => a.hostGlob ≤ b.hostGlob := ⟨fun _ _ _ h h' => List.le_trans h h'⟩
    exact List.pairwise_insertionSort _ _

def servedHeader : List Bytes :=
  [lit "// Helix Proxy — proxy auto-config (GENERATED — DO NOT EDIT BY HAND).",
   lit "// VPN-routed target aliases go through the proxy; everything else is DIRECT",
   lit "// (split-tunnel, spec §11 ⑤). Served by the control-API /proxy.pac endpoint."]

/-- Entries without a glob are skipped, those without a proxy get the default. -/
def normalised (entries : List Entry) : List Entry :=
  (entries.filter (·.hostGlob ≠ [])).map fun e =>
    if e.proxy = [] then { e with proxy := defaultProxy } else e

def generatedRules (sort : SliceSort) (entries : List Entry) : List (Bytes × Bytes) :=
  (sort.run (normalised entries)).map fun e => (e.hostGlob, e.proxy)

def generate (printable : Nat → Bool) (sort : SliceSort) (entries : List Entry) : Bytes :=
  Lines.terminated nl (servedHeader ++ pacFunction printable (generatedRules sort entries))

/-- The rules of the compiled artefact. -/
def compiledRules (pacProxy : Bytes) (aliases : List Bytes) : List (Bytes × Bytes) :=
  (aliases.insertionSort (· ≤ ·)).map fun a => (a, proxyOrDefault pacProxy)

theorem renderPAC_eq (printable : Nat → Bool) (pacProxy : Bytes) (aliases : List Bytes) :
    renderPAC printable pacProxy aliases =
      Lines.terminated nl (pacHeader ++ pacFunction printable (compiledRules pacProxy aliases)) := rfl

/-- `FindProxyForURL` of a file with these rules. -/
def findProxyForURL (printable : Nat → Bool) (rules : List (Bytes × Bytes)) (host : Bytes) :
    List Nat :=
  match rules.find? fun r =>
      Js.shExpMatch (Js.units host) (Js.literal (Strconv.quote printable r.1)) with
  | some r => Js.literal (Strconv.quote printable r.2)
  | none => Js.units (lit "DIRECT")

end HelixProxy.Pac

namespace HelixProxy.Api

open Pac Store
set_option autoImplicit false

structure PacBody where
  contentType : Bytes := lit "text/javascript; charset=utf-8"
  cacheControl : Bytes := lit "no-cache"
  body : Bytes
  deriving DecidableEq, Repr

def pacEntries (targets : List TargetHost) : List Entry :=
  (targets.filter TargetHost.enabled).map fun t => ⟨t.publicAlias, defaultProxy⟩

def proxyPAC (printable : Nat → Bool) (sort : SliceSort)
    (listTargets : Except StoreError (List TargetHost)) : Except Response PacBody :=
  match listTargets with
  | .error e => .error (internalError e)
  | .ok targets => .ok { body := generate printable sort (pacEntries targets) }

end HelixProxy.Api
