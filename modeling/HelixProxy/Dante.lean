import HelixProxy.GoText
import HelixProxy.Library.Tokens
import Mathlib.Data.BitVec

/-!
# Dante configurations

As much of `sockd.conf` as decides where a SOCKS CONNECT goes: the `client` and
`socks` rules, of which the first that matches decides, and the routes, of which
the first whose destination covers the address is used. A request no rule
matches is blocked.
-/

namespace HelixProxy.Dante

set_option autoImplicit false

def white (b : UInt8) : Bool := b == 32 || (9 ≤ b && b ≤ 13)

def brace (b : UInt8) : Bool := b == 123 || b == 125

def openBrace : Bytes := [123]
def closeBrace : Bytes := [125]

def flush (word : Bytes) : List Bytes := if word = [] then [] else [word]

/-- The words of a line up to a `#`; a brace is a word of its own. -/
def lexFrom (word : Bytes) : Bytes → List Bytes
  | [] => flush word
  | b :: rest =>
    if b = 35 then flush word
    else if white b then flush word ++ lexFrom [] rest
    else if brace b then flush word ++ [b] :: lexFrom [] rest
    else lexFrom (word ++ [b]) rest

def lexLine (line : Bytes) : List Bytes := lexFrom [] line

def lex (text : Bytes) : List Bytes := (Strings.split text nl).flatMap lexLine

abbrev IPv4 := BitVec 32

def readOctet (s : Bytes) : Option Nat :=
  if s ≠ [] ∧ s.length ≤ 3 ∧ s.all Strconv.isDigit ∧ Strconv.decimal s ≤ 255 then
    some (Strconv.decimal s)
  else none

def readIPv4 (s : Bytes) : Option IPv4 :=
  match Strings.split s 46 with
  | [a, b, c, d] =>
    match readOctet a, readOctet b, readOctet c, readOctet d with
    | some a, some b, some c, some d => some (BitVec.ofNat 32 (((a * 256 + b) * 256 + c) * 256 + d))
    | _, _, _, _ => none
  | _ => none

structure Net where
  addr : IPv4
  bits : Nat
  deriving DecidableEq, Repr

def Net.covers (n : Net) (a : IPv4) : Bool := a >>> (32 - n.bits) == n.addr >>> (32 - n.bits)

/-- An address without a mask stands for itself alone. -/
def readNet (s : Bytes) : Option Net :=
  match Strings.split s 47 with
  | [a] => (readIPv4 a).map (⟨·, 32⟩)
  | [a, m] =>
    if m ≠ [] ∧ m.all Strconv.isDigit ∧ Strconv.decimal m ≤ 32 then
      (readIPv4 a).map (⟨·, Strconv.decimal m⟩)
    else none
  | _ => none

def readPort (s : Bytes) : Option Int :=
  if s ≠ [] ∧ s.all Strconv.isDigit ∧ Strconv.decimal s ≤ 65535 then some (Strconv.decimal s)
  else none

/-- `connect` is whether the rule is about CONNECT requests. -/
structure Rule where
  pass : Bool
  src : Net
  dst : Net
  connect : Bool
  deriving DecidableEq, Repr

structure Route where
  src : Net
  dst : Net
  host : Bytes
  port : Int
  deriving DecidableEq, Repr

inductive Block where
  | client (r : Rule)
  | socks (r : Rule)
  | route (r : Route)
  deriving DecidableEq, Repr

/-- A rule without `command:` is about every command. -/
def commandsConnect (options : List Bytes) : Bool :=
  match options.dropWhile (· ≠ lit "command:") with
  | [] => true
  | _ :: rest => (rest.takeWhile (·.getLast? ≠ some 58)).contains (lit "connect")

def readRule (pass : Bool) : List Bytes → Option Rule
  | f :: a :: t :: b :: options =>
    if f = lit "from:" ∧ t = lit "to:" then
      match readNet a, readNet b with
      | some src, some dst => some ⟨pass, src, dst, commandsConnect options⟩
      | _, _ => none
    else none
  | _ => none

def readRoute : List Bytes → Option Route
  | f :: a :: t :: b :: v :: host :: p :: e :: n :: _ =>
    if f = lit "from:" ∧ t = lit "to:" ∧ v = lit "via:" ∧ p = lit "port" ∧ e = lit "=" then
      match readNet a, readNet b, readPort n with
      | some src, some dst, some port => some ⟨src, dst, host, port⟩
      | _, _, _ => none
    else none
  | _ => none

def readVerdict (s : Bytes) : Option Bool :=
  if s = lit "pass" then some true else if s = lit "block" then some false else none

/-- A block by the words before its opening brace, the settings between the
previous block and this one included, and those inside. -/
def readBody (before body : List Bytes) : Option Block :=
  match before.reverse with
  | last :: rest =>
    if last = lit "route" then (readRoute body).map .route
    else match readVerdict last, rest with
      | some pass, kind :: _ =>
        if kind = lit "client" then (readRule pass body).map .client
        else if kind = lit "socks" then (readRule pass body).map .socks
        else none
      | _, _ => none
  | [] => none

/-- The words up to a closing brace. -/
def readBlock (chunk : List Bytes) : Option Block :=
  match chunk.dropWhile (· ≠ openBrace) with
  | [] => none
  | _ :: body =>
    if openBrace ∈ body then none else readBody (chunk.takeWhile (· ≠ openBrace)) body

def readBlocks : List (List Bytes) → Option (List Block)
  | [] => some []
  | [last] => if openBrace ∈ last then none else some []
  | chunk :: rest =>
    match readBlock chunk, readBlocks rest with
    | some b, some bs => some (b :: bs)
    | _, _ => none

/-- The blocks of a configuration; `none` is one Dante refuses. -/
def readConf (text : Bytes) : Option (List Block) := readBlocks ((lex text).splitOn closeBrace)

def Block.clientRule : Block → Option Rule
  | .client r => some r
  | _ => none

def Block.socksRule : Block → Option Rule
  | .socks r => some r
  | _ => none

def Block.routeRule : Block → Option Route
  | .route r => some r
  | _ => none

def verdict (rules : List Rule) (src dst : IPv4) : Bool :=
  match rules.find? fun r => r.connect && r.src.covers src && r.dst.covers dst with
  | some r => r.pass
  | none => false

inductive Egress where
  | blocked
  | direct
  | via (host : Bytes) (port : Int)
  deriving DecidableEq, Repr

/-- Where a CONNECT to `dst` goes that `client` sends to the server at `server`. -/
def egress (conf : List Block) (client server dst : IPv4) : Egress :=
  if verdict (conf.filterMap Block.clientRule) client server &&
      verdict (conf.filterMap Block.socksRule) client dst then
    match (conf.filterMap Block.routeRule).find? fun r => r.src.covers client && r.dst.covers dst with
    | some r => .via r.host r.port
    | none => .direct
  else .blocked

/-- A text the lexer reads as one word. -/
structure Plain (w : Bytes) : Prop where
  ne : w ≠ []
  chars : ∀ b ∈ w, b ≠ 35 ∧ white b = false ∧ brace b = false

instance (w : Bytes) : Decidable (Plain w) :=
  decidable_of_iff (w ≠ [] ∧ ∀ b ∈ w, b ≠ 35 ∧ white b = false ∧ brace b = false)
    ⟨fun h => ⟨h.1, h.2⟩, fun h => ⟨h.1, h.2⟩⟩

theorem flush_of_ne {w : Bytes} (h : w ≠ []) : flush w = [w] := by simp [flush, h]

theorem plain_of_mem_flush {acc w : Bytes}
    (hacc : ∀ b ∈ acc, b ≠ 35 ∧ white b = false ∧ brace b = false) (hw : w ∈ flush acc) :
    Plain w := by
  unfold flush at hw
  split at hw
  · cases hw
  · next hne =>
    obtain rfl := List.mem_singleton.mp hw
    exact ⟨hne, hacc⟩

theorem lexFrom_plain {w : Bytes} (h : ∀ b ∈ w, b ≠ 35 ∧ white b = false ∧ brace b = false)
    (acc : Bytes) : lexFrom acc w = flush (acc ++ w) := by
  induction w generalizing acc with
  | nil => simp [lexFrom]
  | cons b rest ih =>
    obtain ⟨hhash, hwhite, hbrace⟩ := h b List.mem_cons_self
    have hrest := ih (fun x hx => h x (List.mem_cons_of_mem b hx)) (acc ++ [b])
    simpa [lexFrom, hhash, hwhite, hbrace] using hrest

theorem Plain.lexLine_eq {w : Bytes} (h : Plain w) : lexLine w = [w] := by
  rw [lexLine, lexFrom_plain h.chars, List.nil_append, flush_of_ne h.ne]

theorem lexFrom_append {xs : Bytes} (hx : (35 : UInt8) ∉ xs) {b : UInt8} (hb : white b = true)
    (acc ys : Bytes) : lexFrom acc (xs ++ b :: ys) = lexFrom acc xs ++ lexLine ys := by
  have hhash : b ≠ 35 := by
    rintro rfl
    exact absurd hb (by decide)
  induction xs generalizing acc with
  | nil => simp [lexFrom, lexLine, hhash, hb]
  | cons x xs ih =>
    have hx' : (35 : UInt8) ∉ xs := fun hm => hx (List.mem_cons_of_mem x hm)
    have hne : x ≠ 35 := fun heq => hx (heq ▸ List.mem_cons_self)
    simp only [List.cons_append, lexFrom, if_neg hne]
    split
    · rw [ih hx', List.append_assoc]
    · split
      · rw [ih hx', List.append_assoc]
        rfl
      · exact ih hx' _

/-- White space after a text without comments ends its words. -/
theorem lexLine_append {xs : Bytes} (hx : (35 : UInt8) ∉ xs) {b : UInt8} (hb : white b = true)
    (ys : Bytes) : lexLine (xs ++ b :: ys) = lexLine xs ++ lexLine ys := lexFrom_append hx hb [] ys

theorem mem_lexFrom {acc line w : Bytes}
    (hacc : ∀ b ∈ acc, b ≠ 35 ∧ white b = false ∧ brace b = false) (hw : w ∈ lexFrom acc line) :
    Plain w ∨ w = openBrace ∨ w = closeBrace := by
  have hnil : ∀ b ∈ ([] : Bytes), b ≠ 35 ∧ white b = false ∧ brace b = false := by simp
  induction line generalizing acc with
  | nil => exact .inl (plain_of_mem_flush hacc hw)
  | cons b rest ih =>
    simp only [lexFrom] at hw
    split at hw
    · exact .inl (plain_of_mem_flush hacc hw)
    · next hhash =>
      split at hw
      · rcases List.mem_append.mp hw with hw | hw
        · exact .inl (plain_of_mem_flush hacc hw)
        · exact ih hnil hw
      · next hwhite =>
        split at hw
        · next hbrace =>
          rcases List.mem_append.mp hw with hw | hw
          · exact .inl (plain_of_mem_flush hacc hw)
          · rcases List.mem_cons.mp hw with rfl | hw
            · right
              simpa [brace, openBrace, closeBrace] using hbrace
            · exact ih hnil hw
        · next hbrace =>
          refine ih (fun x hx => ?_) hw
          rcases List.mem_append.mp hx with hx | hx
          · exact hacc x hx
          · obtain rfl := List.mem_singleton.mp hx
            exact ⟨hhash, by simpa using hwhite, by simpa using hbrace⟩

/-- A word that is no brace is free of white space, comments and braces. -/
theorem plain_of_mem_lex {text w : Bytes} (hw : w ∈ lex text) :
    Plain w ∨ w = openBrace ∨ w = closeBrace := by
  obtain ⟨line, -, hw⟩ := List.mem_flatMap.mp hw
  exact mem_lexFrom (by simp) hw

theorem readRoute_host {body : List Bytes} {r : Route} (h : readRoute body = some r) :
    r.host ∈ body ∧ 0 ≤ r.port ∧ r.port ≤ 65535 := by
  unfold readRoute at h
  split at h
  · next host _ _ n _ =>
    split at h
    · split at h
      · next hport =>
        obtain rfl := Option.some.inj h
        refine ⟨by simp, ?_⟩
        unfold readPort at hport
        split at hport
        · next hn =>
          obtain rfl := Option.some.inj hport
          dsimp only
          omega
        · cases hport
      · cases h
    · cases h
  · cases h

/-- Every route of a configuration names one plain word as its host. -/
theorem readBlock_route {chunk : List Bytes} {r : Route} (h : readBlock chunk = some (.route r)) :
    r.host ∈ chunk ∧ r.host ≠ openBrace ∧ 0 ≤ r.port ∧ r.port ≤ 65535 := by
  unfold readBlock at h
  split at h
  · cases h
  · next first body hbody =>
    split at h
    · cases h
    · next hopen =>
      have hroute : readRoute body = some r := by
        unfold readBody at h
        repeat' split at h
        all_goals simp_all
      obtain ⟨hmem, hport⟩ := readRoute_host hroute
      refine ⟨?_, fun heq => hopen (heq ▸ hmem), hport⟩
      have hsuffix : first :: body <:+ chunk := hbody ▸ List.dropWhile_suffix _
      exact hsuffix.mem (List.mem_cons_of_mem first hmem)

theorem mem_readBlocks {chunks : List (List Bytes)} {bs : List Block}
    (h : readBlocks chunks = some bs) {b : Block} (hb : b ∈ bs) :
    ∃ chunk ∈ chunks, readBlock chunk = some b := by
  fun_induction readBlocks chunks generalizing bs with
  | case1 => simp_all
  | case2 => simp_all
  | case3 => simp_all
  | case4 chunk rest _ first bs' hrest hfirst ih =>
    obtain rfl := Option.some.inj h
    rcases List.mem_cons.mp hb with rfl | hb
    · exact ⟨chunk, List.mem_cons_self, hfirst⟩
    · obtain ⟨c, hc, hread⟩ := ih hrest hb
      exact ⟨c, List.mem_cons_of_mem chunk hc, hread⟩
  | case5 => simp_all

theorem readConf_route {text : Bytes} {conf : List Block} (h : readConf text = some conf) {r : Route}
    (hr : .route r ∈ conf) : Plain r.host ∧ 0 ≤ r.port ∧ r.port ≤ 65535 := by
  obtain ⟨chunk, hchunk, hblock⟩ := mem_readBlocks h hr
  obtain ⟨hmem, hopen, hport⟩ := readBlock_route hblock
  obtain ⟨hlex, hclose⟩ := Tokens.of_mem_splitOnP _ hchunk r.host hmem
  refine ⟨(plain_of_mem_lex hlex).resolve_right ?_, hport⟩
  rintro (heq | heq)
  · exact hopen heq
  · simp [heq] at hclose

end HelixProxy.Dante
