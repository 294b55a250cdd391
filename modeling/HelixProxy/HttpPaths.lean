import HelixProxy.Hexadecimal
import HelixProxy.Library.Routes
import HelixProxy.Library.Tokens

/-!
# The paths of requests

How `net/url` reads the path of a request and `http.ServeMux` looks up its handler.
The patterns here have a method, literal segments and wildcards of one segment each.
A mux finds a handler only by its clean path, and its wildcards stand for any texts
but the empty one and a lone slash, however they are escaped.
-/

namespace HelixProxy.Url

open Strconv Js
set_option autoImplicit false

def unescape : Bytes → Option Bytes
  | [] => some []
  | 0x25 :: a :: b :: rest =>
    if isHex a.toNat && isHex b.toNat then
      (unescape rest).map (UInt8.ofNat (hexNumber [a, b]) :: ·)
    else none
  | c :: rest => if c = 0x25 then none else (unescape rest).map (c :: ·)

/-- `url.PathUnescape` as the mux applies it to a segment: a text it cannot read stays. -/
def pathUnescape (t : Bytes) : Bytes := (unescape t).getD t

/-- Letters, digits and the marks of RFC 3986. -/
def isUnreserved (c : UInt8) : Bool :=
  (97 ≤ c && c ≤ 122) || (65 ≤ c && c ≤ 90) || isDigit c || (lit "-_.~").contains c

/-- `shouldEscape` of a path. -/
def shouldEscape (c : UInt8) : Bool := !(isUnreserved c || (lit "$&+,/:;=@").contains c)

def upperHex (n : Nat) : UInt8 := if n < 10 then UInt8.ofNat (48 + n) else UInt8.ofNat (55 + n)

def escape (s : Bytes) : Bytes :=
  s.flatMap fun c =>
    if shouldEscape c then [0x25, upperHex (c.toNat / 16), upperHex (c.toNat % 16)] else [c]

def validEncoded (s : Bytes) : Bool :=
  s.all fun c => (lit "!$&'()*+,;=:@[]%").contains c || !shouldEscape c

/-- `EscapedPath` of a URL whose path was sent as `p`. -/
def escapedPath (p : Bytes) : Option Bytes :=
  (unescape p).map fun path => if validEncoded p then p else escape path

def slash : UInt8 := 0x2F

/-- One element of a path in `path.Clean`, the latest one kept first. -/
def cleanStep (kept : List Bytes) (t : Bytes) : List Bytes :=
  if t = [] ∨ t = lit "." then kept
  else if t = lit ".." then kept.tail
  else t :: kept

def elements (p : Bytes) : List Bytes := p.tail.splitOn slash

def kept (p : Bytes) : List Bytes := ((elements p).foldl cleanStep []).reverse

/-- `path.Clean` of a path that starts with a slash. -/
def clean (p : Bytes) : Bytes := slash :: [slash].intercalate (kept p)

def rooted (p : Bytes) : Bytes := if p.head? = some slash then p else slash :: p

/-- `cleanPath` of `net/http`. -/
def cleanPath (p : Bytes) : Bytes :=
  if p.getLast? = some slash ∧ clean (rooted p) ≠ [slash] then clean (rooted p) ++ [slash]
  else clean (rooted p)

/-- The segments as `firstSegment` cuts them off, a slash at the end as one of its own. -/
def segments (p : Bytes) : List Bytes :=
  (elements p).dropLast.map pathUnescape ++
    [if (elements p).getLastD [] = [] then [slash] else pathUnescape ((elements p).getLastD [])]

/-! Escaped texts -/

/-- Every byte as an escape. -/
def percent (s : Bytes) : Bytes := s.flatMap fun c => 0x25 :: hex 2 c.toNat

theorem unescape_escaped (c : UInt8) (rest : Bytes) :
    unescape (0x25 :: hex 2 c.toNat ++ rest) = (unescape rest).map (c :: ·) := by
  have hdigits : hex 2 c.toNat = [hexDigit (c.toNat / 16 % 16), hexDigit (c.toNat % 16)] := rfl
  have hvalue : hexNumber (hex 2 c.toNat) = c.toNat := by
    rw [hexNumber_hex]
    exact Nat.mod_eq_of_lt c.toNat_lt
  obtain ⟨ha, -, -⟩ := hexDigit_spec (Nat.mod_lt (c.toNat / 16) (by omega : 0 < 16))
  obtain ⟨hb, -, -⟩ := hexDigit_spec (Nat.mod_lt c.toNat (by omega : 0 < 16))
  rw [hdigits] at hvalue ⊢
  simp only [List.cons_append, List.nil_append, unescape, ha, hb, Bool.and_self, if_true, hvalue,
    UInt8.ofNat_toNat]

theorem unescape_percent (s : Bytes) : unescape (percent s) = some s := by
  induction s with
  | nil => rfl
  | cons c s ih =>
    have hcons : percent (c :: s) = 0x25 :: hex 2 c.toNat ++ percent s := rfl
    rw [hcons, unescape_escaped, ih, Option.map_some]

theorem unescape_cons {c : UInt8} (h : c ≠ 0x25) (rest : Bytes) :
    unescape (c :: rest) = (unescape rest).map (c :: ·) := by
  simp [unescape, h]

theorem unescape_append {s a : Bytes} (h : unescape s = some a) (t : Bytes) :
    unescape (s ++ t) = (unescape t).map (a ++ ·) := by
  induction s using unescape.induct generalizing a with
  | case1 =>
    cases h
    exact Option.map_id'.symm
  | case2 x y rest hhex ih =>
    rw [unescape, if_pos hhex] at h
    obtain ⟨a', ha', rfl⟩ := Option.map_eq_some_iff.mp h
    rw [List.cons_append, List.cons_append, List.cons_append, unescape, if_pos hhex, ih ha', Option.map_map]
    rfl
  | case3 x y rest hhex =>
    rw [unescape, if_neg hhex] at h
    cases h
  | case4 rest hshort =>
    rw [unescape.eq_3 _ _ hshort, if_pos rfl] at h
    cases h
  | case5 c rest _ hne ih =>
    rw [unescape_cons hne] at h
    obtain ⟨a', ha', rfl⟩ := Option.map_eq_some_iff.mp h
    rw [List.cons_append, unescape_cons hne, ih ha', Option.map_map]
    rfl

theorem eq_nil_of_unescape {t : Bytes} (h : unescape t = some []) : t = [] := by
  unfold unescape at h
  split at h
  · rfl
  · split at h
    · simp at h
    · cases h
  · split at h
    · cases h
    · simp at h

theorem pathUnescape_ne_nil {t : Bytes} (h : t ≠ []) : pathUnescape t ≠ [] := by
  unfold pathUnescape
  cases hread : unescape t with
  | none => exact h
  | some s =>
    rintro rfl
    exact h (eq_nil_of_unescape hread)

/-! Clean paths -/

/-- The element of a clean path. -/
structure Plain (t : Bytes) : Prop where
  nonempty : t ≠ []
  dot : t ≠ lit "."
  dots : t ≠ lit ".."
  slashless : slash ∉ t

instance (t : Bytes) : Decidable (Plain t) :=
  decidable_of_iff (t ≠ [] ∧ t ≠ lit "." ∧ t ≠ lit ".." ∧ slash ∉ t)
    ⟨fun ⟨h1, h2, h3, h4⟩ => ⟨h1, h2, h3, h4⟩, fun ⟨h1, h2, h3, h4⟩ => ⟨h1, h2, h3, h4⟩⟩

theorem slash_not_mem_elements {p t : Bytes} (h : t ∈ elements p) : slash ∉ t := by
  intro hmem
  have hsep := (Tokens.of_mem_splitOnP (· == slash) h _ hmem).2
  simp at hsep

theorem cleanStep_plain {ts stack : List Bytes} (hslash : ∀ t ∈ ts, slash ∉ t)
    (hstack : ∀ t ∈ stack, Plain t) : ∀ t ∈ ts.foldl cleanStep stack, Plain t := by
  induction ts generalizing stack with
  | nil => exact hstack
  | cons t ts ih =>
    obtain ⟨ht, hts⟩ := List.forall_mem_cons.mp hslash
    refine ih hts ?_
    unfold cleanStep
    split
    · exact hstack
    · next hempty =>
      obtain ⟨hnonempty, hdot⟩ := not_or.mp hempty
      split
      · exact fun u hu => hstack u (List.mem_of_mem_tail hu)
      · next hdots => exact List.forall_mem_cons.mpr ⟨⟨hnonempty, hdot, hdots, ht⟩, hstack⟩

theorem kept_plain (p : Bytes) : ∀ t ∈ kept p, Plain t := by
  intro t ht
  exact cleanStep_plain (fun _ => slash_not_mem_elements) (List.forall_mem_nil _) t
    (List.mem_reverse.mp ht)

theorem foldl_cleanStep {ts : List Bytes} (h : ∀ t ∈ ts, Plain t) (stack : List Bytes) :
    ts.foldl cleanStep stack = ts.reverse ++ stack := by
  induction ts generalizing stack with
  | nil => rfl
  | cons t ts ih =>
    obtain ⟨ht, hts⟩ := List.forall_mem_cons.mp h
    have hstep : cleanStep stack t = t :: stack := by
      rw [cleanStep, if_neg (not_or.mpr ⟨ht.nonempty, ht.dot⟩), if_neg ht.dots]
    rw [List.foldl_cons, hstep, ih hts, List.reverse_cons, List.append_assoc]
    rfl

/-- A path of these elements, without a slash at the end. -/
def slashed (ts : List Bytes) : Bytes := slash :: [slash].intercalate ts

theorem elements_slashed {ts : List Bytes} (hts : ts ≠ []) (h : ∀ t ∈ ts, slash ∉ t) :
    elements (slashed ts) = ts := List.splitOn_intercalate slash h hts

theorem segments_slashed {ts : List Bytes} (hts : ts ≠ []) (h : ∀ t ∈ ts, Plain t) :
    segments (slashed ts) = ts.map pathUnescape := by
  have hlast := (h _ (List.getLast_mem hts)).nonempty
  unfold segments
  rw [elements_slashed hts fun t ht => (h t ht).slashless, List.getLastD_eq_getLast?,
    List.getLast?_eq_getLast_of_ne_nil hts, Option.getD_some, if_neg hlast,
    ← List.map_singleton, ← List.map_append, List.dropLast_concat_getLast hts]

theorem nil_mem_elements {p : Bytes} (h : p.getLast? = some slash) : [] ∈ elements p := by
  obtain ⟨q, rfl⟩ := List.getLast?_eq_some_iff.mp h
  cases q with
  | nil => exact List.mem_singleton_self []
  | cons b q =>
    have hsplit : elements (b :: q ++ [slash]) = q.splitOn slash ++ [[]] :=
      List.splitOn_append_cons_self q []
    rw [hsplit]
    exact List.mem_append_right _ (List.mem_singleton_self [])

theorem cleanPath_slashed {ts : List Bytes} (hts : ts ≠ []) (h : ∀ t ∈ ts, Plain t) :
    cleanPath (slashed ts) = slashed ts := by
  have helements := elements_slashed hts fun t ht => (h t ht).slashless
  have hkept : kept (slashed ts) = ts := by
    rw [kept, helements, foldl_cleanStep h, List.append_nil, List.reverse_reverse]
  have hlast : (slashed ts).getLast? ≠ some slash := by
    intro hslash
    exact (h [] (helements ▸ nil_mem_elements hslash)).nonempty rfl
  have hrooted : rooted (slashed ts) = slashed ts := if_pos rfl
  rw [cleanPath, hrooted, if_neg fun hslash => hlast hslash.1, clean, hkept]
  rfl

/-- The segments of a clean path are texts of plain elements, but for a slash at the end. -/
theorem segments_of_clean {p : Bytes} (h : cleanPath p = p) :
    ∃ ts : List Bytes, (∀ t ∈ ts, Plain t) ∧
      (segments p = ts.map pathUnescape ∨ segments p = ts.map pathUnescape ++ [[slash]]) := by
  obtain ⟨ts, hts⟩ : ∃ ts, kept (rooted p) = ts := ⟨_, rfl⟩
  have hplain : ∀ t ∈ ts, Plain t := hts ▸ kept_plain (rooted p)
  have hcleaned : (p = slashed ts ++ [slash] ∧ ts ≠ []) ∨ p = slashed ts := by
    rw [cleanPath, clean, hts] at h
    split at h
    · next hslash =>
      refine .inl ⟨h.symm, fun hnil => hslash.2 ?_⟩
      rw [hnil]
      rfl
    · exact .inr h.symm
  refine ⟨ts, hplain, ?_⟩
  rcases hcleaned with ⟨hp, hne⟩ | hp
  · right
    have helements : elements p = ts ++ [[]] := by
      rw [hp]
      change ([slash].intercalate (ts) ++ [slash]).splitOn slash = _
      rw [List.splitOn_append_cons_self,
        List.splitOn_intercalate slash (fun t ht => (hplain t ht).slashless) hne, List.splitOn_nil]
    rw [segments, helements, List.dropLast_concat, List.getLastD_concat, if_pos rfl]
  · by_cases hne : ts = []
    · right
      rw [hp, hne]
      rfl
    · left
      rw [hp]
      exact segments_slashed hne hplain

end HelixProxy.Url

namespace HelixProxy.ServeMux

open Url Routes
set_option autoImplicit false

structure Pattern where
  method : Bytes
  segs : List (Seg Bytes Bytes)
  deriving DecidableEq

/-- A pattern as it is written: the method, a space, and the path with its wildcards
in braces. -/
def parsePattern (s : Bytes) : Pattern where
  method := s.takeWhile (· ≠ 0x20)
  segs := ((s.dropWhile (· ≠ 0x20)).drop 2).splitOn slash |>.map fun t =>
    if t.head? = some 0x7B then .wild (t.tail.dropLast) else .lit (pathUnescape t)

variable {β : Type}

inductive Outcome (β : Type) where
  | handler (pattern : Pattern) (h : β) (found : List Bytes)
  | redirect (path : Bytes)
  | methodNotAllowed
  | notFound
  | badRequest

/-- The patterns of a method. -/
def tree (mux : List (Pattern × β)) (method : Bytes) :
    List (List (Seg Bytes Bytes) × (Pattern × β)) :=
  (mux.filter fun e => e.1.method = method).map fun e => (e.1.segs, e)

/-- A pattern with the method GET serves HEAD as well. -/
def find (mux : List (Pattern × β)) (method path : Bytes) : Option ((Pattern × β) × List Bytes) :=
  match search [slash] (segments path) (tree mux method) [] with
  | some out => some out
  | none =>
    if method = lit "HEAD" then search [slash] (segments path) (tree mux (lit "GET")) [] else none

/-- Some other method has a pattern for the path, or for the path with a slash behind it. -/
def otherMethod (mux : List (Pattern × β)) (path : Bytes) : Bool :=
  mux.any fun e => (search [slash] (segments path) (tree mux e.1.method) []).isSome ||
    path.getLast? ≠ some slash &&
      (search [slash] (segments (path ++ [slash])) (tree mux e.1.method) []).isSome

/-- The path of a CONNECT request is taken as it is. -/
def canonical (method path : Bytes) : Bytes :=
  if method = lit "CONNECT" then path else cleanPath path

def findHandler (mux : List (Pattern × β)) (method path : Bytes) : Outcome β :=
  if canonical method path ≠ path then .redirect (canonical method path)
  else match find mux method path with
    | some ((p, h), found) => .handler p h found
    | none => if otherMethod mux path then .methodNotAllowed else .notFound

/-- What a request is answered by, given its method and the path it was sent with. -/
def dispatch (mux : List (Pattern × β)) (method path : Bytes) : Outcome β :=
  match escapedPath path with
  | none => .badRequest
  | some escaped => findHandler mux method escaped

/-- `PathValue` of a wildcard. -/
def pathValue (p : Pattern) (found : List Bytes) (name : Bytes) : Bytes :=
  let names := p.segs.filterMap fun
    | .wild n => some n
    | .lit _ => none
  ((names.zip found).find? fun e => e.1 = name).elim [] (·.2)

/-- A literal that is sent as it is. -/
structure Word (s : Bytes) : Prop where
  plain : Plain s
  unreserved : s.all isUnreserved = true

instance (s : Bytes) : Decidable (Word s) :=
  decidable_of_iff (Plain s ∧ s.all isUnreserved = true)
    ⟨fun ⟨h1, h2⟩ => ⟨h1, h2⟩, fun ⟨h1, h2⟩ => ⟨h1, h2⟩⟩

/-- No path fits two patterns of a method, and the patterns are such as can be sent. -/
structure Orderly (mux : List (Pattern × β)) : Prop where
  separate : mux.Pairwise fun a b => a.1.method = b.1.method → apart a.1.segs b.1.segs = true
  words : ∀ e ∈ mux, ∀ s ∈ literals e.1.segs, Word s
  nonempty : ∀ e ∈ mux, e.1.segs ≠ []
  methods : ∀ e ∈ mux, e.1.method ≠ lit "CONNECT"

theorem mem_tree {mux : List (Pattern × β)} {method : Bytes} {ps : List (Seg Bytes Bytes)}
    {e : Pattern × β} : (ps, e) ∈ tree mux method ↔ e ∈ mux ∧ e.1.method = method ∧ ps = e.1.segs := by
  simp only [tree, List.mem_map, List.mem_filter, decide_eq_true_eq, Prod.mk.injEq]
  constructor
  · rintro ⟨e', ⟨hmem, hmethod⟩, hsegs, rfl⟩
    exact ⟨hmem, hmethod, hsegs.symm⟩
  · rintro ⟨hmem, hmethod, hsegs⟩
    exact ⟨e, ⟨hmem, hmethod⟩, hsegs.symm, rfl⟩

section Orderly

variable {mux : List (Pattern × β)} (hmux : Orderly mux)
include hmux

theorem Orderly.separate_tree (method : Bytes) : Separate (tree mux method) := by
  unfold Separate tree
  rw [List.pairwise_map, List.pairwise_filter]
  refine hmux.separate.imp fun h ha hb => ?_
  rw [decide_eq_true_eq] at ha hb
  exact h (ha.trans hb.symm)

/-- A clean path is served by the pattern of the method that it fits. -/
theorem Orderly.dispatch_of_fits {p : Pattern} {h : β} (hmem : (p, h) ∈ mux)
    {path escaped : Bytes} (hescaped : escapedPath path = some escaped)
    (hclean : cleanPath escaped = escaped) {found : List Bytes}
    (hfits : Fits [slash] p.segs (segments escaped) found) :
    dispatch mux p.method path = .handler p h found := by
  have hsearch : search [slash] (segments escaped) (tree mux p.method) [] = some ((p, h), found) :=
    (search_eq_some_iff [slash] (hmux.separate_tree p.method)).mpr
      ⟨_, mem_tree.mpr ⟨hmem, rfl, rfl⟩, hfits⟩
  have hfind : find mux p.method escaped = some ((p, h), found) := by
    rw [find, hsearch]
  have hcanonical : canonical p.method escaped = escaped := by
    rw [canonical, if_neg (hmux.methods _ hmem), hclean]
  rw [dispatch, hescaped]
  dsimp only
  rw [findHandler, hcanonical, if_neg (not_not.mpr rfl), hfind]

end Orderly

theorem find_sound {mux : List (Pattern × β)} {e : Pattern × β} {method path : Bytes}
    {found : List Bytes} (h : find mux method path = some (e, found)) :
    e ∈ mux ∧ (e.1.method = method ∨ method = lit "HEAD" ∧ e.1.method = lit "GET") ∧
      Fits [slash] e.1.segs (segments path) found := by
  have hsearch : ∀ m, search [slash] (segments path) (tree mux m) [] = some (e, found) →
      e ∈ mux ∧ e.1.method = m ∧ Fits [slash] e.1.segs (segments path) found := by
    intro m hs
    obtain ⟨ps, ws, htree, hfits, hfound⟩ := search_sound [slash] hs
    obtain ⟨hmem, hm, rfl⟩ := mem_tree.mp htree
    rw [hfound]
    exact ⟨hmem, hm, hfits⟩
  unfold find at h
  split at h
  · next hout =>
    cases h
    obtain ⟨hmem, hm, hfits⟩ := hsearch method hout
    exact ⟨hmem, .inl hm, hfits⟩
  · split at h
    · next hhead =>
      obtain ⟨hmem, hm, hfits⟩ := hsearch _ h
      exact ⟨hmem, .inr ⟨hhead, hm⟩, hfits⟩
    · cases h

/-- Whatever its method, a request is served by a pattern of that method, or by one for
GET if it is a HEAD request, and its path fits the pattern. -/
theorem dispatch_sound {mux : List (Pattern × β)} {p : Pattern} {h : β} {method path : Bytes}
    {found : List Bytes} (hd : dispatch mux method path = .handler p h found) :
    ∃ escaped, canonical method escaped = escaped ∧ (p, h) ∈ mux ∧
      (p.method = method ∨ method = lit "HEAD" ∧ p.method = lit "GET") ∧
      Fits [slash] p.segs (segments escaped) found := by
  unfold dispatch at hd
  split at hd
  · cases hd
  · next escaped _ =>
    unfold findHandler at hd
    split at hd
    · cases hd
    · next hcanonical =>
      split at hd
      · next hfind =>
        cases hd
        exact ⟨escaped, not_not.mp hcanonical, find_sound hfind⟩
      · split at hd
        · cases hd
        · cases hd

/-! Which values reach a handler -/

/-- The elements of a path that fits the pattern, the values escaped. -/
def fill : List (Seg Bytes Bytes) → List Bytes → List Bytes
  | .lit s :: ps, vs => s :: fill ps vs
  | .wild _ :: ps, v :: vs => percent v :: fill ps vs
  | _, _ => []

theorem isUnreserved_not_percent {c : UInt8} (h : isUnreserved c = true) : c ≠ 0x25 := by
  rintro rfl
  exact absurd h (by decide)

theorem unescape_of_unreserved {s : Bytes} (h : s.all isUnreserved = true) :
    unescape s = some s := by
  induction s with
  | nil => rfl
  | cons c s ih =>
    obtain ⟨hc, hs⟩ := Bool.and_eq_true_iff.mp h
    rw [unescape_cons (isUnreserved_not_percent hc), ih hs, Option.map_some]

/-- A text that is read as it is sent. -/
def Sent (s : Bytes) : Prop := (∃ a, unescape s = some a) ∧ validEncoded s = true

theorem Sent.append {s t : Bytes} (hs : Sent s) (ht : Sent t) : Sent (s ++ t) := by
  obtain ⟨⟨a, ha⟩, hsvalid⟩ := hs
  obtain ⟨⟨b, hb⟩, htvalid⟩ := ht
  refine ⟨⟨a ++ b, by rw [unescape_append ha, hb, Option.map_some]⟩, ?_⟩
  unfold validEncoded at *
  rw [List.all_append, hsvalid, htvalid, Bool.and_self]

theorem sent_slash : Sent [slash] := ⟨⟨[slash], by decide⟩, by decide⟩

theorem Sent.slashed {ts : List Bytes} (h : ∀ t ∈ ts, Sent t) : Sent (slashed ts) := by
  have hjoin : Sent ([slash].intercalate ts) := by
    induction ts with
    | nil => exact ⟨⟨[], rfl⟩, rfl⟩
    | cons t ts ih =>
      obtain ⟨ht, hts⟩ := List.forall_mem_cons.mp h
      cases ts with
      | nil => simpa [List.intercalate] using ht
      | cons u us =>
        have hcons : [slash].intercalate (t :: u :: us) = t ++ ([slash] ++ [slash].intercalate (u :: us)) := by
          simp [List.intercalate, List.intersperse]
        rw [hcons]
        exact ht.append (sent_slash.append (ih hts))
  exact sent_slash.append hjoin

theorem Sent.escapedPath {s : Bytes} (h : Sent s) : escapedPath s = some s := by
  obtain ⟨⟨a, ha⟩, hvalid⟩ := h
  rw [Url.escapedPath, ha, Option.map_some, if_pos hvalid]

theorem Word.sent {s : Bytes} (h : Word s) : Sent s := by
  refine ⟨⟨s, unescape_of_unreserved h.unreserved⟩, ?_⟩
  refine List.all_eq_true.mpr fun c hc => ?_
  have hun := List.all_eq_true.mp h.unreserved c hc
  simp [shouldEscape, hun]

theorem mem_percent {v : Bytes} {b : UInt8} (h : b ∈ percent v) : b = 0x25 ∨ Js.isHex b.toNat = true := by
  obtain ⟨c, -, hb⟩ := List.mem_flatMap.mp h
  rcases List.mem_cons.mp hb with rfl | hb
  · exact .inl rfl
  · exact .inr (Js.isHex_of_mem_hex hb).1

theorem isUnreserved_of_isHex {c : UInt8} (h : Js.isHex c.toNat = true) : isUnreserved c = true := by
  simp only [Js.isHex, Js.isDigit, Bool.or_eq_true, Bool.and_eq_true, decide_eq_true_eq] at h
  simp only [isUnreserved, Strconv.isDigit, Bool.or_eq_true, Bool.and_eq_true, decide_eq_true_eq,
    UInt8.le_iff_toNat_le]
  rcases h with (h | h) | h
  · exact .inl (.inr h)
  · exact .inl (.inl (.inl ⟨h.1, h.2.trans (by decide)⟩))
  · exact .inl (.inl (.inr ⟨h.1, h.2.trans (by decide)⟩))

theorem percent_sent (v : Bytes) : Sent (percent v) := by
  refine ⟨⟨v, unescape_percent v⟩, List.all_eq_true.mpr fun c hc => ?_⟩
  rcases mem_percent hc with rfl | hhex
  · decide
  · simp [shouldEscape, isUnreserved_of_isHex hhex]

theorem percent_plain {v : Bytes} (hv : v ≠ []) : Plain (percent v) := by
  obtain ⟨c, v, rfl⟩ := List.exists_cons_of_ne_nil hv
  refine ⟨List.cons_ne_nil _ _, fun h => ?_, fun h => ?_, fun h => ?_⟩
  · exact absurd (List.cons.inj h).1 (by decide)
  · exact absurd (List.cons.inj h).1 (by decide)
  · exact absurd (mem_percent h) (by decide)

/-- The values fill the wildcards, and each can be sent. -/
structure Fillable (segs : List (Seg Bytes Bytes)) (vs : List Bytes) : Prop where
  length : vs.length = wildcards segs
  nonempty : ∀ v ∈ vs, v ≠ []
  slashless : ∀ v ∈ vs, v ≠ [slash]

theorem fill_sent {segs : List (Seg Bytes Bytes)} (hwords : ∀ s ∈ literals segs, Word s)
    {vs : List Bytes} (hvs : ∀ v ∈ vs, v ≠ []) : ∀ t ∈ fill segs vs, Plain t ∧ Sent t := by
  induction segs generalizing vs with
  | nil => exact List.forall_mem_nil _
  | cons p ps ih =>
    cases p with
    | lit s =>
      obtain ⟨hs, hps⟩ := List.forall_mem_cons.mp hwords
      exact List.forall_mem_cons.mpr ⟨⟨hs.plain, hs.sent⟩, ih hps hvs⟩
    | wild name =>
      cases vs with
      | nil => exact List.forall_mem_nil _
      | cons v vs =>
        obtain ⟨hv, hvs⟩ := List.forall_mem_cons.mp hvs
        exact List.forall_mem_cons.mpr ⟨⟨percent_plain hv, percent_sent v⟩, ih hwords hvs⟩

theorem fits_fill {segs : List (Seg Bytes Bytes)} (hwords : ∀ s ∈ literals segs, Word s)
    {vs : List Bytes} (hlength : vs.length = wildcards segs) (hvs : ∀ v ∈ vs, v ≠ [slash]) :
    Fits [slash] segs ((fill segs vs).map pathUnescape) vs := by
  induction segs generalizing vs with
  | nil =>
    cases List.eq_nil_of_length_eq_zero hlength
    exact .nil
  | cons p ps ih =>
    cases p with
    | lit s =>
      obtain ⟨hs, hps⟩ := List.forall_mem_cons.mp hwords
      have hread : pathUnescape s = s := by
        rw [pathUnescape, unescape_of_unreserved hs.unreserved, Option.getD_some]
      rw [fill, List.map_cons, hread]
      exact .lit s (ih hps hlength hvs)
    | wild name =>
      cases vs with
      | nil => cases hlength
      | cons v vs =>
        obtain ⟨hv, hvs⟩ := List.forall_mem_cons.mp hvs
        have hread : pathUnescape (percent v) = v := by
          rw [pathUnescape, unescape_percent, Option.getD_some]
        rw [fill, List.map_cons, hread]
        exact .wild name hv (ih hwords (Nat.succ.inj hlength) hvs)

theorem fill_ne_nil {segs : List (Seg Bytes Bytes)} (h : segs ≠ []) {vs : List Bytes}
    (hlength : vs.length = wildcards segs) : fill segs vs ≠ [] := by
  cases segs with
  | nil => exact absurd rfl h
  | cons p ps =>
    cases p with
    | lit s => exact List.cons_ne_nil _ _
    | wild name =>
      cases vs with
      | nil => cases hlength
      | cons v vs => exact List.cons_ne_nil _ _

/-- The path of the pattern with these values reaches its handler with just them. -/
theorem Orderly.dispatch_fill {mux : List (Pattern × β)} (hmux : Orderly mux) {p : Pattern} {h : β}
    (hmem : (p, h) ∈ mux) {vs : List Bytes} (hvs : Fillable p.segs vs) :
    dispatch mux p.method (slashed (fill p.segs vs)) = .handler p h vs := by
  have hwords := hmux.words _ hmem
  have hsent := fill_sent hwords hvs.nonempty
  have hne := fill_ne_nil (hmux.nonempty _ hmem) hvs.length
  refine hmux.dispatch_of_fits hmem (Sent.slashed fun t ht => (hsent t ht).2).escapedPath
    (cleanPath_slashed hne fun t ht => (hsent t ht).1) ?_
  rw [segments_slashed hne fun t ht => (hsent t ht).1]
  exact fits_fill hwords hvs.length hvs.slashless

/-- However a request is sent, its values fill the wildcards and none is empty or a slash. -/
theorem Orderly.fillable_of_dispatch {mux : List (Pattern × β)} (hmux : Orderly mux) {p : Pattern}
    {h : β} {method path : Bytes} {vs : List Bytes}
    (hd : dispatch mux method path = .handler p h vs) : Fillable p.segs vs := by
  obtain ⟨escaped, hcanonical, hmem, hmethod, hfits⟩ := dispatch_sound hd
  have hconnect : method ≠ lit "CONNECT" := by
    rcases hmethod with rfl | ⟨rfl, -⟩
    · exact hmux.methods _ hmem
    · decide
  have hclean : cleanPath escaped = escaped := by
    rwa [canonical, if_neg hconnect] at hcanonical
  obtain ⟨ts, hplain, hsegments⟩ := segments_of_clean hclean
  refine ⟨hfits.length_eq, fun v hv => ?_, fun v hv => (hfits.value v hv).2⟩
  obtain ⟨hsegment, hslash⟩ := hfits.value v hv
  have hread : v ∈ ts.map pathUnescape := by
    rcases hsegments with hs | hs
    · rwa [hs] at hsegment
    · rw [hs] at hsegment
      rcases List.mem_append.mp hsegment with hv | hv
      · exact hv
      · exact absurd (List.mem_singleton.mp hv) hslash
  obtain ⟨t, ht, rfl⟩ := List.mem_map.mp hread
  exact pathUnescape_ne_nil (hplain t ht).nonempty

end HelixProxy.ServeMux
