import HelixProxy.GoText
import HelixProxy.Library.FirstMatch
import HelixProxy.Library.Lines
import HelixProxy.Library.Tokens

/-!
# Squid configuration texts

What Squid makes of a configuration: its directive lines, their words, and the
first-match access lists for requests (`http_access`, `never_direct`) and for
parent proxies (`cache_peer_access`).
-/

namespace HelixProxy.Squid

open FirstMatch
set_option autoImplicit false

def white (b : UInt8) : Bool := b == 32 || (9 ≤ b && b ≤ 13)

/-- A line that is neither blank nor a comment. -/
def isDirective (line : Bytes) : Bool :=
  match line.dropWhile white with
  | [] => false
  | b :: _ => b != 35

def directives (text : Bytes) : List Bytes := (Strings.split text nl).filter isDirective

/-- A line that ends in a backslash is continued by the next one. -/
def joinContinued : List Bytes → List Bytes
  | [] => []
  | line :: rest =>
    if line.getLast? = some 92 then
      match joinContinued rest with
      | [] => [line.dropLast]
      | next :: more => (line.dropLast ++ next) :: more
    else line :: joinContinued rest

def words (line : Bytes) : List Bytes := Tokens.tokens white line

def parse (text : Bytes) : List (List Bytes) := (joinContinued (directives text)).map words

/-- What the access lists can ask about a request. `inRange` tells whether the
client address lies in a range written as a word, `helperOK` whether the
external helper answered OK. -/
structure Request where
  port : Nat
  method : Bytes
  localhost : Bool
  manager : Bool
  inRange : Bytes → Bool
  helperOK : Bool

def portMatches (value : Bytes) (port : Nat) : Bool :=
  match (value.splitOn 45).map Strconv.atoi with
  | [some p] => p = port
  | [some lo, some hi] => lo ≤ port && (port : Int) ≤ hi
  | _ => false

def externalDeclared (conf : List (List Bytes)) (name : Bytes) : Bool :=
  conf.any fun line => match line with
    | kw :: n :: _ => kw = lit "external_acl_type" && n = name
    | _ => false

def valueMatches (conf : List (List Bytes)) (r : Request) (type value : Bytes) : Bool :=
  if type = lit "src" then r.inRange value
  else if type = lit "port" then portMatches value r.port
  else if type = lit "method" then value = r.method
  else if type = lit "external" then externalDeclared conf value && r.helperOK
  else false

def aclValues (conf : List (List Bytes)) (name : Bytes) : List (Bytes × Bytes) :=
  conf.flatMap fun line => match line with
    | kw :: n :: type :: values =>
      if kw = lit "acl" ∧ n = name then values.map (type, ·) else []
    | _ => []

/-- The values of an ACL are alternatives; three ACLs are built in. -/
def aclMatches (conf : List (List Bytes)) (r : Request) (name : Bytes) : Bool :=
  if name = lit "all" then true
  else if name = lit "localhost" then r.localhost
  else if name = lit "manager" then r.manager
  else (aclValues conf name).any fun tv => valueMatches conf r tv.1 tv.2

def termMatches (conf : List (List Bytes)) (r : Request) : Bytes → Bool
  | 33 :: name => !aclMatches conf r name
  | name => aclMatches conf r name

structure Rule where
  action : Action
  acls : List Bytes
  deriving DecidableEq, Repr

def Rule.holds (conf : List (List Bytes)) (r : Request) (rule : Rule) : Bool :=
  rule.acls.all (termMatches conf r)

def readRule : List Bytes → Option Rule
  | [] => none
  | action :: acls =>
    if action = lit "allow" then some ⟨.allow, acls⟩
    else if action = lit "deny" then some ⟨.deny, acls⟩
    else none

def rules (keyword : Bytes) (conf : List (List Bytes)) : List Rule :=
  conf.filterMap fun line => match line with
    | kw :: rest => if kw = keyword then readRule rest else none
    | [] => none

def decision (conf : List (List Bytes)) (r : Request) (absent : Action) (list : List Rule) :
    Action := evaluate (Rule.holds conf r) Rule.action absent list

/-- Without an `http_access` line every request is denied. -/
def httpAccess (text : Bytes) (r : Request) : Action :=
  decision (parse text) r .deny (rules (lit "http_access") (parse text))

def neverDirect (text : Bytes) (r : Request) : Action :=
  decision (parse text) r .deny (rules (lit "never_direct") (parse text))

structure Peer where
  name : Bytes
  host : Bytes
  port : Bytes
  deriving DecidableEq, Repr

/-- The value of the last `name=` option; a peer without one is called by its host. -/
def peerName (host : Bytes) (options : List Bytes) : Bytes :=
  (options.reverse.findSome? fun o =>
    if (lit "name=").isPrefixOf o then some (o.drop 5) else none).getD host

def readPeer : List Bytes → Option Peer
  | kw :: host :: _ :: port :: _ :: options =>
    if kw = lit "cache_peer" then some ⟨peerName host options, host, port⟩ else none
  | _ => none

def peerRules (conf : List (List Bytes)) (name : Bytes) : List Rule :=
  conf.filterMap fun line => match line with
    | kw :: n :: rest => if kw = lit "cache_peer_access" && n = name then readRule rest else none
    | _ => none

/-- The peers that may carry a request; a peer without access lines may. -/
def eligiblePeers (text : Bytes) (r : Request) : List Peer :=
  ((parse text).filterMap readPeer).filter fun p =>
    decision (parse text) r .allow (peerRules (parse text) p.name) = .allow

theorem termMatches_plain (conf : List (List Bytes)) (r : Request) {name : Bytes}
    (h : name.head? ≠ some 33) : termMatches conf r name = aclMatches conf r name := by
  unfold termMatches
  split
  · simp at h
  · rfl

theorem aclMatches_of_values {conf : List (List Bytes)} (r : Request) {name : Bytes}
    {values : List (Bytes × Bytes)} (hname : name ∉ [lit "all", lit "localhost", lit "manager"])
    (hv : aclValues conf name = values) :
    aclMatches conf r name = true ↔ ∃ tv ∈ values, valueMatches conf r tv.1 tv.2 = true := by
  simp only [List.mem_cons, List.not_mem_nil, or_false, not_or] at hname
  simp [aclMatches, hname, hv]

theorem isDirective_append {s : Bytes} (rest : Bytes) (h : s.dropWhile white ≠ []) :
    isDirective (s ++ rest) = isDirective s := by
  obtain ⟨b, bs, hb⟩ := List.exists_cons_of_ne_nil h
  have happ : (s ++ rest).dropWhile white = b :: (bs ++ rest) := by
    rw [List.dropWhile_append, hb]
    rfl
  rw [isDirective, isDirective, happ, hb]

theorem joinContinued_eq {ls : List Bytes} (h : ∀ l ∈ ls, l.getLast? ≠ some 92) :
    joinContinued ls = ls := by
  induction ls with
  | nil => rfl
  | cons l ls ih =>
    have hl := h l List.mem_cons_self
    rw [joinContinued, if_neg hl, ih fun x hx => h x (List.mem_cons_of_mem l hx)]

theorem directives_terminated {ls : List Bytes} (h : ∀ l ∈ ls, nl ∉ l) :
    directives (Lines.terminated nl ls) = ls.filter isDirective := by
  have hs := Lines.splitOn_terminated nl h []
  rw [List.append_nil] at hs
  simp [directives, Strings.split, hs, isDirective]

theorem parse_terminated {ls : List Bytes} (h : ∀ l ∈ ls, nl ∉ l)
    (hc : ∀ l ∈ ls.filter isDirective, l.getLast? ≠ some 92) :
    parse (Lines.terminated nl ls) = (ls.filter isDirective).map words := by
  rw [parse, directives_terminated h, joinContinued_eq hc]

theorem rules_append (keyword : Bytes) (as bs : List (List Bytes)) :
    rules keyword (as ++ bs) = rules keyword as ++ rules keyword bs := by simp [rules]

theorem aclValues_append (as bs : List (List Bytes)) (name : Bytes) :
    aclValues (as ++ bs) name = aclValues as name ++ aclValues bs name := by simp [aclValues]

theorem rules_eq_nil {keyword : Bytes} {conf : List (List Bytes)}
    (h : ∀ line ∈ conf, line.head? ≠ some keyword) : rules keyword conf = [] := by
  rw [rules, List.filterMap_eq_nil_iff]
  rintro (_ | ⟨kw, rest⟩) hline
  · rfl
  · have hne : kw ≠ keyword := fun he => h _ hline (he ▸ rfl)
    simp [hne]

theorem aclValues_eq_nil {conf : List (List Bytes)} (name : Bytes)
    (h : ∀ line ∈ conf, line.head? ≠ some (lit "acl")) : aclValues conf name = [] := by
  rw [aclValues, List.flatMap_eq_nil_iff]
  rintro (_ | ⟨kw, _ | ⟨n, _ | ⟨type, values⟩⟩⟩) hline
  · rfl
  · rfl
  · rfl
  · have hne : kw ≠ lit "acl" := fun he => h _ hline (he ▸ rfl)
    simp [hne]

theorem peerRules_append (as bs : List (List Bytes)) (name : Bytes) :
    peerRules (as ++ bs) name = peerRules as name ++ peerRules bs name := by simp [peerRules]

theorem peerRules_eq_nil {conf : List (List Bytes)} (name : Bytes)
    (h : ∀ line ∈ conf, line.head? ≠ some (lit "cache_peer_access")) : peerRules conf name = [] := by
  rw [peerRules, List.filterMap_eq_nil_iff]
  rintro (_ | ⟨kw, _ | ⟨n, rest⟩⟩) hline
  · rfl
  · rfl
  · have hne : kw ≠ lit "cache_peer_access" := fun he => h _ hline (he ▸ rfl)
    simp [hne]

theorem words_cons {w : Bytes} (hne : w ≠ []) (hw : ∀ b ∈ w, white b = false) (rest : Bytes) :
    words (w ++ space :: rest) = w :: words rest :=
  Tokens.tokens_cons_word white hne hw (by decide) rest

theorem words_append (s rest : Bytes) : words (s ++ space :: rest) = words s ++ words rest :=
  Tokens.tokens_append_cons white s rest (by decide)

theorem peerName_append (host : Bytes) (options : List Bytes) (name : Bytes) :
    peerName host (options ++ [lit "name=" ++ name]) = name := by
  have hopt : (lit "name=").isPrefixOf (lit "name=" ++ name) = true := by simp
  have hdrop : (lit "name=" ++ name).drop 5 = name := by
    rw [show 5 = (lit "name=").length from by decide, List.drop_left]
  simp only [peerName, List.reverse_append, List.reverse_singleton, List.singleton_append,
    List.findSome?_cons, hopt, hdrop, if_true, Option.getD_some]

end HelixProxy.Squid
