import HelixProxy.Hexadecimal
import HelixProxy.Library.PrefixCode
import HelixProxy.Utf8Encoding

/-!
# The order of the entries in a served PAC file

`sort.Slice` sees the entries through their globs only, so entries with one glob
keep whatever order their positions give them. The file is the same for every
order of its entries exactly when the glob of an entry determines its proxy.
-/

namespace HelixProxy.Strconv

open Utf8 PrefixCode
set_option autoImplicit false

/-- What `quote` writes for one segment. -/
def quotedSegment (printable : Nat → Bool) (p : Nat × Bytes) : Bytes :=
  match p with
  | (0xFFFD, [b]) => lit "\\x" ++ hex 2 b.toNat
  | (r, bs) => escapedRune printable r bs

/-- `strconv.UnquoteChar`: the bytes that the character or escape in front stands for. -/
def unquoteChar : Bytes → Bytes
  | 92 :: c :: rest =>
    match c with
    | 97 => [7]
    | 98 => [8]
    | 102 => [12]
    | 110 => [10]
    | 114 => [13]
    | 116 => [9]
    | 118 => [11]
    | 120 => [UInt8.ofNat (hexNumber (rest.take 2))]
    | 117 => encodeRune (hexNumber (rest.take 4))
    | 85 => encodeRune (hexNumber (rest.take 8))
    | c => [c]
  | s => s.take (decodeRune s).2

theorem quote_segments (printable : Nat → Bool) (s : Bytes) :
    quote printable s = 34 :: ((segments s).flatMap (quotedSegment printable) ++ [34]) := rfl

theorem unquoteChar_of_ne {b : UInt8} (h : b ≠ 92) (rest : Bytes) :
    unquoteChar (b :: rest) = (b :: rest).take (decodeRune (b :: rest)).2 := by
  unfold unquoteChar
  split
  · next heq => exact absurd (List.cons.inj heq).1 h
  · rfl

/-- A code point other than the backslash stands for itself. -/
theorem unquoteChar_encodeRune {r : Nat} (h : IsScalar r) (hr : r ≠ 92) (t : Bytes) :
    unquoteChar (encodeRune r ++ t) = encodeRune r := by
  have hd := decodeRune_encodeRune h t
  obtain ⟨b, bs, henc⟩ := List.exists_cons_of_ne_nil (encodeRune_ne_nil r)
  have hb : b ≠ 92 := by
    rintro rfl
    rw [henc] at hd
    exact hr (congrArg Prod.fst hd).symm
  have hread := unquoteChar_of_ne hb (bs ++ t)
  rwa [← List.cons_append, ← henc, hd, List.take_left] at hread

/-- A code point is read back from its quoted form. -/
theorem unquoteChar_escapedRune (printable : Nat → Bool) {r : Nat} (h : IsScalar r) (t : Bytes) :
    unquoteChar (escapedRune printable r (encodeRune r) ++ t) = encodeRune r := by
  unfold escapedRune
  by_cases hquote : r = 34 ∨ r = 92
  · rw [if_pos hquote]
    rcases hquote with rfl | rfl
    · rfl
    · rfl
  by_cases hprint : isPrint printable r = true
  · rw [if_neg hquote, if_pos hprint]
    exact unquoteChar_encodeRune h (fun hr => hquote (.inr hr)) t
  rw [if_neg hquote, if_neg hprint]
  split
  case h_1 => rfl
  case h_2 => rfl
  case h_3 => rfl
  case h_4 => rfl
  case h_5 => rfl
  case h_6 => rfl
  case h_7 => rfl
  case h_8 =>
    by_cases hlow : r < 32 ∨ r = 127
    · rw [if_pos hlow, encodeRune, if_pos (by omega)]
      change [UInt8.ofNat (hexNumber ((hex 2 r ++ t).take 2))] = _
      rw [hexNumber_take (by omega)]
    rw [if_neg hlow]
    by_cases hbmp : r < 0x10000
    · rw [if_pos hbmp]
      change encodeRune (hexNumber ((hex 4 r ++ t).take 4)) = _
      rw [hexNumber_take (by omega)]
    · rw [if_neg hbmp]
      change encodeRune (hexNumber ((hex 8 r ++ t).take 8)) = _
      unfold IsScalar at h
      rw [hexNumber_take (by omega)]

theorem unquoteChar_quotedSegment (printable : Nat → Bool) {s : Bytes} {p : Nat × Bytes}
    (hp : p ∈ segments s) (t : Bytes) : unquoteChar (quotedSegment printable p ++ t) = p.2 := by
  rcases mem_segments_cases hp with ⟨b, rfl, -⟩ | ⟨hscalar, henc⟩
  · change [UInt8.ofNat (hexNumber ((hex 2 b.toNat ++ t).take 2))] = [b]
    have hb := b.toNat_lt
    rw [hexNumber_take (by omega), UInt8.ofNat_toNat]
  · obtain ⟨r, bs⟩ := p
    obtain rfl : bs = encodeRune r := henc
    unfold quotedSegment
    split
    · next b heq =>
      have hlen : [b] = encodeRune 0xFFFD := by
        injection heq with hr hbs
        rw [← hbs, hr]
      cases hlen
    · next heq =>
      injection heq with hr hbs
      subst hr hbs
      exact unquoteChar_escapedRune printable hscalar t

/-- The quoted segments are a prefix code, and none of them starts with the closing quote. -/
theorem quotedSegment_prefixFree (printable : Nat → Bool) :
    PrefixFree (fun p => ∃ s, p ∈ segments s) (quotedSegment printable) := by
  apply PrefixFree.of_decoder (fun p ⟨_, hp⟩ t => unquoteChar_quotedSegment printable hp t)
  rintro p q ⟨_, hp⟩ ⟨_, hq⟩ h
  have hdecode := decodeRune_of_mem_segments hp
  rw [h, decodeRune_of_mem_segments hq] at hdecode
  exact Prod.ext (congrArg Prod.fst hdecode).symm h

theorem quotedSegment_ne_quote (printable : Nat → Bool) {s : Bytes} {p : Nat × Bytes}
    (hp : p ∈ segments s) (t u : Bytes) : quotedSegment printable p ++ t ≠ 34 :: u := by
  intro h
  have hread := unquoteChar_quotedSegment printable hp t
  rw [h] at hread
  have hbytes : p.2 = [34] := hread.symm
  have hdecode := decodeRune_of_mem_segments hp
  rw [hbytes] at hdecode
  have hrune : p = (34, [34]) := Prod.ext (congrArg Prod.fst hdecode).symm hbytes
  rw [hrune] at h
  cases h

/-- Quoted strings can be told apart whatever follows them. -/
theorem quote_prefixFree (printable : Nat → Bool) :
    PrefixFree (fun _ => True) (quote printable) := by
  intro s s' _ _ t u h
  have hcode := (quotedSegment_prefixFree printable).terminated
    fun p ⟨_, hp⟩ t u => quotedSegment_ne_quote printable hp t u
  rw [quote_segments, quote_segments, List.cons_append, List.cons_append] at h
  have hsegments := hcode (fun p hp => ⟨s, hp⟩) (fun p hp => ⟨s', hp⟩) t u (List.cons.inj h).2
  rw [← flatMap_segments s, hsegments, flatMap_segments]

end HelixProxy.Strconv

namespace HelixProxy.Pac

open PrefixCode Routing
set_option autoImplicit false
set_option maxRecDepth 4096

/-- `sort.Slice` with `less` on the globs: the positions it puts the entries in are
found from the globs alone. -/
structure KeySort where
  order : List Bytes → List Nat
  perm : ∀ keys, (order keys).Perm (List.range keys.length)
  sorted : ∀ keys, ((order keys).filterMap (keys[·]?)).Pairwise (· ≤ ·)

def KeySort.run (sort : KeySort) (es : List Entry) : List Entry :=
  (sort.order (es.map Entry.hostGlob)).filterMap (es[·]?)

theorem filterMap_range {α : Type} (xs : List α) :
    (List.range xs.length).filterMap (xs[·]?) = xs := by
  induction xs with
  | nil => rfl
  | cons x xs ih =>
    rw [List.length_cons, List.range_succ_eq_map, List.filterMap_cons, List.filterMap_map]
    simpa [Function.comp_def] using ih

/-- Lists taken in one order agree at every position of it. -/
theorem getElem?_eq_of_filterMap {α : Type} {xs ys : List α} {is : List Nat}
    (hx : ∀ i ∈ is, i < xs.length) (hy : ∀ i ∈ is, i < ys.length)
    (h : is.filterMap (xs[·]?) = is.filterMap (ys[·]?)) {i : Nat} (hi : i ∈ is) :
    xs[i]? = ys[i]? := by
  induction is with
  | nil => cases hi
  | cons j is ih =>
    rw [List.forall_mem_cons] at hx hy
    rw [List.filterMap_cons_some (List.getElem?_eq_getElem hx.1),
      List.filterMap_cons_some (List.getElem?_eq_getElem hy.1), List.cons.injEq] at h
    rcases List.mem_cons.mp hi with rfl | hi
    · rw [List.getElem?_eq_getElem hx.1, List.getElem?_eq_getElem hy.1, h.1]
    · exact ih hx.2 hy.2 h.2 hi

def KeySort.toSliceSort (sort : KeySort) : SliceSort where
  run := sort.run
  perm es := by
    have hperm := (sort.perm (es.map Entry.hostGlob)).filterMap (es[·]?)
    rw [List.length_map, filterMap_range] at hperm
    exact hperm
  sorted es := by
    have hsorted := sort.sorted (es.map Entry.hostGlob)
    rw [List.pairwise_filterMap] at hsorted
    apply List.pairwise_filterMap.mpr
    apply hsorted.imp
    intro i j hij a ha b hb
    exact hij _ (by simp [ha]) _ (by simp [hb])

/-- Lists with the same globs are put in the same order, so they can be told apart. -/
theorem KeySort.eq_of_run_eq (sort : KeySort) {es es' : List Entry}
    (hkeys : es.map Entry.hostGlob = es'.map Entry.hostGlob) (h : sort.run es = sort.run es') :
    es = es' := by
  have hlen : es.length = es'.length := by simpa using congrArg List.length hkeys
  have hmem (i : Nat) : i ∈ sort.order (es.map Entry.hostGlob) ↔ i < es.length := by
    rw [(sort.perm _).mem_iff, List.mem_range, List.length_map]
  unfold KeySort.run at h
  rw [← hkeys] at h
  apply List.ext_getElem?
  intro i
  by_cases hi : i < es.length
  · apply getElem?_eq_of_filterMap _ _ h ((hmem i).mpr hi)
    · exact fun j hj => (hmem j).mp hj
    · exact fun j hj => hlen ▸ (hmem j).mp hj
  · rw [List.getElem?_eq_none (by omega), List.getElem?_eq_none (by omega)]

theorem pacRule_prefixFree (printable : Nat → Bool) :
    PrefixFree (fun _ => True) fun r : Bytes × Bytes => pacRule printable r.1 r.2 ++ [nl] := by
  rintro ⟨host, proxy⟩ ⟨host', proxy'⟩ _ _ t u h
  simp only [pacRule, List.append_assoc] at h
  have hquotes := Strconv.quote_prefixFree printable
  obtain ⟨rfl, hrest⟩ := hquotes.rest trivial trivial (List.append_cancel_left h)
  obtain ⟨rfl, -⟩ := hquotes.rest trivial trivial (List.append_cancel_left hrest)
  rfl

theorem generate_eq (printable : Nat → Bool) (sort : SliceSort) (entries : List Entry) :
    generate printable sort entries =
      Lines.terminated nl (servedHeader ++ [lit "function FindProxyForURL(url, host) \x7b"]) ++
        ((generatedRules sort entries).flatMap (fun r => pacRule printable r.1 r.2 ++ [nl]) ++
          Lines.terminated nl [lit "    return \"DIRECT\";", lit "\x7d"]) := by
  simp only [generate, pacFunction, Lines.terminated, List.flatMap_append, List.flatMap_cons,
    List.flatMap_nil, List.flatMap_map, List.append_assoc, List.cons_append, List.nil_append,
    List.append_nil]

theorem length_generatedRules (sort : SliceSort) (entries : List Entry) :
    (generatedRules sort entries).length = (normalised entries).length := by
  rw [generatedRules, List.length_map, (sort.perm _).length_eq]

/-- A file of a known number of rules determines them. -/
theorem run_eq_of_generate (printable : Nat → Bool) (sort : SliceSort) {es es' : List Entry}
    (hlen : (normalised es).length = (normalised es').length)
    (h : generate printable sort es = generate printable sort es') :
    sort.run (normalised es) = sort.run (normalised es') := by
  rw [generate_eq, generate_eq] at h
  have hrules := (pacRule_prefixFree printable).flatMap_injective (fun _ _ => trivial)
    (fun _ _ => trivial) (by rw [length_generatedRules, length_generatedRules, hlen])
    (List.append_cancel_left h)
  apply List.map_injective_iff.mpr _ hrules
  rintro ⟨host, proxy⟩ ⟨host', proxy'⟩ heq
  cases heq
  rfl

theorem normalised_perm {es es' : List Entry} (h : es.Perm es') :
    (normalised es).Perm (normalised es') := (h.filter _).map _

/-- Entries with one glob have one proxy. -/
def GlobsDetermineProxies (entries : List Entry) : Prop :=
  ∀ a ∈ normalised entries, ∀ b ∈ normalised entries, a.hostGlob = b.hostGlob → a.proxy = b.proxy

theorem generate_of_perm (printable : Nat → Bool) (sort : SliceSort) {es es' : List Entry}
    (hglobs : GlobsDetermineProxies es) (h : es'.Perm es) :
    generate printable sort es' = generate printable sort es := by
  have hruns : sort.run (normalised es') = sort.run (normalised es) := by
    have hperm := normalised_perm h
    apply List.Perm.eq_of_pairwise _ (sort.sorted _) (sort.sorted _)
    · exact (sort.perm _).trans (hperm.trans (sort.perm _).symm)
    · intro a b ha hb hab hba
      have hglob := List.le_antisymm hab hba
      have ha' := hperm.subset ((sort.perm _).subset ha)
      have hproxy := hglobs a ha' b ((sort.perm _).subset hb) hglob
      cases a
      cases b
      simp_all
  rw [generate, generate, generatedRules, generatedRules, hruns]

/-- Two entries with one glob can be put in front in either order. -/
theorem eq_of_swapped (printable : Nat → Bool) (sort : KeySort) {x y : Entry} {es : List Entry}
    {x' y' : Entry} (hx : normalised [x] = [x']) (hy : normalised [y] = [y'])
    (hglob : x'.hostGlob = y'.hostGlob)
    (h : generate printable sort.toSliceSort (x :: y :: es) =
      generate printable sort.toSliceSort (y :: x :: es)) : x' = y' := by
  have hsplit (a b : Entry) :
      normalised (a :: b :: es) = normalised [a] ++ (normalised [b] ++ normalised es) := by
    simp only [normalised, ← List.map_append, ← List.filter_append, List.singleton_append]
  have hperm := normalised_perm (List.Perm.swap y x es)
  have hrun : sort.run (normalised (x :: y :: es)) = sort.run (normalised (y :: x :: es)) :=
    run_eq_of_generate printable sort.toSliceSort hperm.length_eq h
  have hkeys : (normalised (x :: y :: es)).map Entry.hostGlob =
      (normalised (y :: x :: es)).map Entry.hostGlob := by
    simp only [hsplit, hx, hy, List.map_append, List.map_cons, List.map_nil, hglob]
  have hlists := sort.eq_of_run_eq hkeys hrun
  rw [hsplit, hsplit, hx, hy] at hlists
  exact (List.cons.inj hlists).1

theorem mem_normalised {a : Entry} {es : List Entry} (ha : a ∈ normalised es) :
    ∃ e ∈ es, normalised [e] = [a] := by
  obtain ⟨e, he, rfl⟩ := List.mem_map.mp ha
  obtain ⟨he, hne⟩ := List.mem_filter.mp he
  have hsingle : [e].filter (·.hostGlob ≠ []) = [e] := List.filter_cons_of_pos hne
  refine ⟨e, he, ?_⟩
  rw [normalised, hsingle]
  rfl

/-- The served file does not depend on the order of its entries exactly when a glob
never comes with two proxies. -/
theorem generate_order_independent_iff (printable : Nat → Bool) (sort : KeySort)
    (entries : List Entry) :
    (∀ es, es.Perm entries →
        generate printable sort.toSliceSort es = generate printable sort.toSliceSort entries) ↔
      GlobsDetermineProxies entries := by
  constructor
  · intro h a ha b hb hglob
    by_cases hab : a = b
    · rw [hab]
    obtain ⟨x, hx, hxa⟩ := mem_normalised ha
    obtain ⟨y, hy, hyb⟩ := mem_normalised hb
    have hxy : y ≠ x := by
      rintro rfl
      exact hab (List.cons.inj (hxa.symm.trans hyb)).1
    have hperm : entries.Perm (x :: y :: (entries.erase x).erase y) :=
      (List.perm_cons_erase hx).trans
        ((List.perm_cons_erase ((List.mem_erase_of_ne hxy).mpr hy)).cons x)
    have hfirst := h _ hperm.symm
    have hsecond := h _ ((List.Perm.swap x y _).trans hperm.symm)
    rw [eq_of_swapped printable sort hxa hyb hglob (hfirst.trans hsecond.symm)]
  · intro hglobs es hes
    exact generate_of_perm printable sort.toSliceSort hglobs hes

/-- The insertion sort that `sort.Slice` runs on up to twelve entries. -/
def insertionOrder : KeySort where
  order keys := (keys.zipIdx.insertionSort fun a b => a.1 ≤ b.1).map Prod.snd
  perm keys := by
    have hperm := (List.perm_insertionSort (fun a b : Bytes × Nat => a.1 ≤ b.1) keys.zipIdx).map
      Prod.snd
    rwa [List.zipIdx_map_snd, ← List.range_eq_range'] at hperm
  sorted keys := by
    have : Std.Total fun a b : Bytes × Nat => a.1 ≤ b.1 := ⟨fun a b => List.le_total a.1 b.1⟩
    have : IsTrans (Bytes × Nat) fun a b => a.1 ≤ b.1 := ⟨fun _ _ _ h h' => List.le_trans h h'⟩
    have hsorted := List.pairwise_insertionSort (fun a b : Bytes × Nat => a.1 ≤ b.1) keys.zipIdx
    rw [List.filterMap_map]
    apply List.pairwise_filterMap.mpr
    apply hsorted.imp_of_mem
    intro p q hp hq hpq a ha b hb
    have hp' := List.mk_mem_zipIdx_iff_getElem?.mp ((List.mem_insertionSort _).mp hp)
    have hq' := List.mk_mem_zipIdx_iff_getElem?.mp ((List.mem_insertionSort _).mp hq)
    simp only [Function.comp_apply, hp', hq', Option.some.injEq] at ha hb
    rwa [← ha, ← hb]

def entryX : Entry := ⟨lit "a", lit "PROXY x"⟩

def entryY : Entry := ⟨lit "a", lit "PROXY y"⟩

/-- One glob with two proxies: the entry given first is the first rule served. -/
theorem generate_depends_on_order : [entryY, entryX].Perm [entryX, entryY] ∧
    generate (fun _ => true) insertionOrder.toSliceSort [entryY, entryX] ≠
      generate (fun _ => true) insertionOrder.toSliceSort [entryX, entryY] := by
  refine ⟨List.Perm.swap _ _ _, ?_⟩
  intro h
  have hx : normalised [entryX] = [entryX] := by
    simp (disch := exact rfl) only [entryX, lit_eq]
    decide
  have hy : normalised [entryY] = [entryY] := by
    simp (disch := exact rfl) only [entryY, lit_eq]
    decide
  have heq := eq_of_swapped _ insertionOrder hy hx rfl h
  have hproxy : lit "PROXY y" = lit "PROXY x" := congrArg Entry.proxy heq
  simp at hproxy

end HelixProxy.Pac
