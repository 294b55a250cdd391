import HelixProxy.Library.Lines
import HelixProxy.Numerals
import HelixProxy.Utf8
import HelixProxy.Wg
import Mathlib.Data.List.Forall2
import Mathlib.Data.List.Perm.Basic
import Mathlib.Order.Bounds.Basic
import Mathlib.Order.MinMax

/-!
# The format of the wg outputs

Both parsers read line by line. What they accept is stated here on the lines
themselves, and what they feed the poller is shown to depend neither on the order
of the lines nor on blank lines or carriage returns between them.
-/

namespace HelixProxy.Utf8

set_option autoImplicit false

theorem mem_runes_of_ascii {s : Bytes} {b : UInt8} (hmem : b ∈ s) (hb : b < 0x80) :
    b.toNat ∈ runes s := by
  obtain ⟨xs, ys, rfl⟩ := List.append_of_mem hmem
  simp [runes, segments_append_ascii xs hb ys]

end HelixProxy.Utf8

namespace HelixProxy.Vpn

open Bus (wrapInt64)
open Strconv Strings
set_option autoImplicit false

def cr : UInt8 := 13

def dropCRs (line : Bytes) : Bytes := line.rdropWhile (· == cr)

/-- The lines that count, without the carriage returns at their ends. -/
def counted (lines : List Bytes) : List Bytes := (lines.map dropCRs).filter (¬Blank ·)

def nonBlankLines (out : Bytes) : List Bytes := counted (out.splitOn nl)

/-- A line of `wg show <if> transfer` and the peer it is about. -/
inductive TransferLine : Bytes → PeerTransfer → Prop
  | mk {line key rx tx : Bytes} : line.splitOn tab = [key, rx, tx] →
      Digits (trimSpace rx) → decimal (trimSpace rx) < 2 ^ 64 →
      Digits (trimSpace tx) → decimal (trimSpace tx) < 2 ^ 64 →
      TransferLine line ⟨trimSpace key, .ofNat (decimal (trimSpace rx)),
        .ofNat (decimal (trimSpace tx))⟩

/-- A line of `wg show <if> latest-handshakes`, its epoch and its peer. -/
inductive HandshakeLine : Bytes → Int → PeerHandshake → Prop
  | mk {line key text : Bytes} {epoch : Int} : line.splitOn tab = [key, text] →
      Numeral (trimSpace text) epoch → minInt64 ≤ epoch → epoch ≤ maxInt64 →
      HandshakeLine line epoch ⟨trimSpace key, handshakeTime epoch⟩

/-- One step of laying a text out differently, on its lines. -/
inductive Relaid : List Bytes → List Bytes → Prop
  | reorder {ls ls' : List Bytes} : ls.Perm ls' → Relaid ls ls'
  | blank {as bs : List Bytes} {l : Bytes} : Blank l → Relaid (as ++ bs) (as ++ l :: bs)
  | crlf {as bs : List Bytes} {l : Bytes} : Relaid (as ++ l :: bs) (as ++ (l ++ [cr]) :: bs)

/-- The texts differ in the order of their lines, in blank lines and in line endings. -/
def SameLines (out out' : Bytes) : Prop :=
  Relation.EqvGen Relaid (out.splitOn nl) (out'.splitOn nl)

section Lines

theorem trimRight_cr (line : Bytes) : trimRight line (lit "\r") = dropCRs line := by
  have hcut : (lit "\r").contains = fun b => b == cr := by
    funext b
    rw [Bool.eq_iff_iff]
    simp [show lit "\r" = [cr] from rfl]
  rw [trimRight, hcut, dropCRs]

theorem wgLines_eq (out : Bytes) : wgLines out = nonBlankLines out := by
  simp only [wgLines, nonBlankLines, counted, Strings.split, trimRight_cr, ne_eq,
    trimSpace_eq_nil_iff]

theorem blank_dropCRs {line : Bytes} : Blank (dropCRs line) ↔ Blank line := by
  have hcut : ∀ b ∈ lit "\r", b < 0x80 ∧ Utf8.isSpace b.toNat = true := by decide
  rw [← trimRight_cr, ← fields_eq_nil_iff, fields_trimRight line hcut, fields_eq_nil_iff]

theorem counted_perm {ls ls' : List Bytes} (h : Relaid ls ls') :
    (counted ls).Perm (counted ls') := by
  cases h with
  | reorder hp => exact (hp.map dropCRs).filter _
  | blank hl =>
    have hdrop := blank_dropCRs.mpr hl
    simp [counted, hdrop]
  | crlf =>
    have hdrop : ∀ l, dropCRs (l ++ [cr]) = dropCRs l :=
      fun l => List.rdropWhile_concat_pos _ _ _ (by simp)
    simp [counted, hdrop]

theorem SameLines.perm {out out' : Bytes} (h : SameLines out out') :
    (wgLines out).Perm (wgLines out') := by
  have hall : ∀ ls ls', Relation.EqvGen Relaid ls ls' → (counted ls).Perm (counted ls') := by
    intro ls ls' hrel
    induction hrel with
    | rel _ _ hstep => exact counted_perm hstep
    | refl _ => exact .refl _
    | symm _ _ _ ih => exact ih.symm
    | trans _ _ _ _ _ ih₁ ih₂ => exact ih₁.trans ih₂
  rw [wgLines_eq, wgLines_eq]
  exact hall _ _ h

end Lines

section Each

variable {α β : Type} {parse : Bytes → Option α}

theorem parseEach_eq_some_iff {lines : List Bytes} {xs : List α} :
    parseEach parse lines = some xs ↔ List.Forall₂ (fun line x => parse line = some x) lines xs := by
  induction lines generalizing xs with
  | nil => simp [parseEach, eq_comm]
  | cons line rest ih =>
    simp only [parseEach, Option.bind_eq_some_iff, Option.map_eq_some_iff, ih,
      List.forall₂_cons_left_iff]
    constructor
    · rintro ⟨x, hx, ys, hys, rfl⟩
      exact ⟨x, ys, hx, hys, rfl⟩
    · rintro ⟨x, ys, hx, hys, rfl⟩
      exact ⟨x, hx, ys, hys, rfl⟩

theorem parseEach_isSome_iff {lines : List Bytes} :
    (parseEach parse lines).isSome ↔ ∀ line ∈ lines, ∃ x, parse line = some x := by
  induction lines with
  | nil => simp [parseEach]
  | cons line rest ih =>
    rw [List.forall_mem_cons, ← ih]
    cases hx : parse line with
    | none => simp [parseEach, hx]
    | some x => simp [parseEach, hx]

theorem parseEach_perm {lines lines' : List Bytes} (hp : lines'.Perm lines) {xs : List α}
    (h : parseEach parse lines = some xs) : ∃ xs', parseEach parse lines' = some xs' ∧ xs'.Perm xs := by
  obtain ⟨xs', hxs', hperm⟩ := List.perm_comp_forall₂ hp (parseEach_eq_some_iff.mp h)
  exact ⟨xs', parseEach_eq_some_iff.mpr hxs', hperm⟩

theorem mem_of_parseEach {lines : List Bytes} {xs : List α} (h : parseEach parse lines = some xs)
    {line : Bytes} (hline : line ∈ lines) {x : α} (hx : parse line = some x) : x ∈ xs := by
  induction lines generalizing xs with
  | nil => cases hline
  | cons first rest ih =>
    simp only [parseEach, Option.bind_eq_some_iff, Option.map_eq_some_iff] at h
    obtain ⟨y, hy, ys, hys, rfl⟩ := h
    rcases List.mem_cons.mp hline with rfl | hline
    · obtain rfl : y = x := by simpa [hy] using hx
      exact List.mem_cons_self
    · exact List.mem_cons_of_mem y (ih hys hline)

/-- A summary that does not look at the order of the values does not depend on the
order of the lines either. -/
theorem map_parseEach_of_perm {summary : List α → β}
    (hs : ∀ xs ys : List α, xs.Perm ys → summary xs = summary ys)
    {lines lines' : List Bytes} (hp : lines.Perm lines') :
    (parseEach parse lines').map summary = (parseEach parse lines).map summary := by
  cases h : parseEach parse lines with
  | some xs =>
    obtain ⟨xs', hxs', hperm⟩ := parseEach_perm hp.symm h
    rw [hxs', Option.map_some, Option.map_some, hs xs' xs hperm]
  | none =>
    cases h' : parseEach parse lines' with
    | none => rfl
    | some xs' =>
      obtain ⟨xs, hxs, -⟩ := parseEach_perm hp h'
      rw [h] at hxs
      cases hxs

end Each

section Format

theorem parseUint_eq_some_iff {s : Bytes} {n : UInt64} :
    parseUint s = some n ↔ Digits s ∧ decimal s < 2 ^ 64 ∧ n = .ofNat (decimal s) := by
  unfold parseUint
  by_cases hds : Digits s
  · have hdigits : ¬(s.isEmpty || !s.all isDigit) = true := by simpa [Digits] using hds
    rw [if_neg hdigits]
    by_cases hlt : decimal s < 2 ^ 64
    · simp only [hlt, if_true, Option.some.injEq, hds, true_and]
      exact eq_comm
    · simp only [hlt, if_false, false_and, and_false, reduceCtorEq]
  · have hdigits : (s.isEmpty || !s.all isDigit) = true := by
      simpa [Digits, Classical.or_iff_not_imp_left] using hds
    simp [hdigits, hds]

theorem parseTransferLine_iff {line : Bytes} {p : PeerTransfer} :
    parseTransferLine line = some p ↔ TransferLine line p := by
  constructor
  · intro h
    unfold parseTransferLine at h
    split at h
    next key rx tx hsplit =>
      simp only [Option.bind_eq_some_iff, Option.map_eq_some_iff, parseUint_eq_some_iff] at h
      obtain ⟨_, ⟨hrx, hrxlt, rfl⟩, _, ⟨htx, htxlt, rfl⟩, rfl⟩ := h
      exact .mk hsplit hrx hrxlt htx htxlt
    · cases h
  · rintro ⟨hsplit, hrx, hrxlt, htx, htxlt⟩
    have hr := parseUint_eq_some_iff.mpr ⟨hrx, hrxlt, rfl⟩
    have ht := parseUint_eq_some_iff.mpr ⟨htx, htxlt, rfl⟩
    simp [parseTransferLine, Strings.split, hsplit, hr, ht]

theorem parseHandshakeLine_iff {line : Bytes} {h : PeerHandshake} :
    parseHandshakeLine line = some h ↔ ∃ epoch, HandshakeLine line epoch h := by
  constructor
  · intro hparse
    unfold parseHandshakeLine at hparse
    split at hparse
    next key text hsplit =>
      obtain ⟨epoch, hepoch, rfl⟩ := Option.map_eq_some_iff.mp hparse
      obtain ⟨hnum, hlo, hhi⟩ := atoi_eq_some_iff.mp hepoch
      exact ⟨epoch, .mk hsplit hnum hlo hhi⟩
    · cases hparse
  · rintro ⟨epoch, hsplit, hnum, hlo, hhi⟩
    have hepoch := atoi_eq_some_iff.mpr ⟨hnum, hlo, hhi⟩
    simp [parseHandshakeLine, Strings.split, hsplit, parseInt, hepoch]

theorem parseTransfer_iff {out : Bytes} {peers : List PeerTransfer} :
    parseTransfer out = some peers ↔ List.Forall₂ TransferLine (nonBlankLines out) peers := by
  simp only [parseTransfer, wgLines_eq, parseEach_eq_some_iff, parseTransferLine_iff]

theorem parseLatestHandshakes_iff {out : Bytes} {hs : List PeerHandshake} :
    parseLatestHandshakes out = some hs ↔
      List.Forall₂ (fun line h => ∃ epoch, HandshakeLine line epoch h) (nonBlankLines out) hs := by
  simp only [parseLatestHandshakes, wgLines_eq, parseEach_eq_some_iff, parseHandshakeLine_iff]

end Format

section Times

theorem handshakeTime_of_pos {epoch : Int} (hpos : 0 < epoch) (hle : epoch ≤ maxInt64) :
    handshakeTime epoch ≠ 0 := by
  unfold maxInt64 at hle
  have hwrap : wrapInt64 (epoch + unixToInternal) ≠ 0 := by
    unfold wrapInt64 unixToInternal
    omega
  have hgt : epoch > 0 := hpos
  rw [handshakeTime, if_pos hgt, unixTime]
  unfold second
  omega

theorem handshakeTime_eq_zero_iff {epoch : Int} (hle : epoch ≤ maxInt64) :
    handshakeTime epoch = 0 ↔ epoch ≤ 0 := by
  constructor
  · intro h
    by_contra hpos
    exact handshakeTime_of_pos (by omega) hle h
  · intro h
    exact if_neg (by omega)

/-- The last second of the year 9999. -/
def endOf9999 : Int := 253402300799

theorem handshakeTime_of_le {epoch : Int} (hpos : 0 < epoch) (hle : epoch ≤ endOf9999) :
    handshakeTime epoch = (epoch + unixToInternal) * second := by
  unfold endOf9999 at hle
  have hwrap : wrapInt64 (epoch + unixToInternal) = epoch + unixToInternal := by
    unfold wrapInt64 unixToInternal
    omega
  have hgt : epoch > 0 := hpos
  rw [handshakeTime, if_pos hgt, unixTime, hwrap]

theorem sumTransfer_perm (xs ys : List PeerTransfer) (h : xs.Perm ys) :
    sumTransfer xs = sumTransfer ys := by
  have : RightCommutative fun (sum : UInt64 × UInt64) (p : PeerTransfer) =>
      (sum.1 + p.rx, sum.2 + p.tx) :=
    ⟨fun sum p q => by simp only [UInt64.add_assoc, UInt64.add_comm q.rx, UInt64.add_comm q.tx]⟩
  exact h.foldl_eq (0, 0)

theorem latestHandshake_eq (hs : List PeerHandshake) :
    latestHandshake hs = (hs.map PeerHandshake.time).foldl max 0 := by
  rw [List.foldl_map, latestHandshake]
  congr 1
  funext latest h
  split <;> omega

theorem latestHandshake_perm (xs ys : List PeerHandshake) (h : xs.Perm ys) :
    latestHandshake xs = latestHandshake ys := by
  rw [latestHandshake_eq, latestHandshake_eq]
  exact (h.map PeerHandshake.time).foldl_eq 0

theorem latestHandshake_isGreatest (hs : List PeerHandshake) :
    IsGreatest ({0} ∪ {t | ∃ h ∈ hs, h.time = t}) (latestHandshake hs) := by
  rw [latestHandshake_eq]
  induction hs using List.reverseRecOn with
  | nil => simp [IsGreatest, upperBounds]
  | append_singleton hs h ih =>
    rw [List.map_append, List.foldl_append, List.map_singleton, List.foldl_cons, List.foldl_nil]
    obtain ⟨hmem, hle⟩ := ih
    constructor
    · rcases max_choice ((hs.map PeerHandshake.time).foldl max 0) h.time with hm | hm
      · rw [hm]
        rcases hmem with hzero | ⟨x, hx, htime⟩
        · exact .inl hzero
        · exact .inr ⟨x, List.mem_append_left _ hx, htime⟩
      · rw [hm]
        exact .inr ⟨h, by simp, rfl⟩
    · rintro t (ht | ⟨x, hx, rfl⟩)
      · exact le_max_of_le_left (hle (.inl ht))
      · rcases List.mem_append.mp hx with hx | hx
        · exact le_max_of_le_left (hle (.inr ⟨x, hx, rfl⟩))
        · rw [List.mem_singleton.mp hx]
          exact le_max_right _ _

/-- The epochs that the lines of an output carry. -/
def epochs (out : Bytes) : Set Int :=
  {epoch | ∃ line ∈ nonBlankLines out, ∃ h, HandshakeLine line epoch h}

theorem HandshakeLine.time_eq {line : Bytes} {epoch : Int} {h : PeerHandshake}
    (hl : HandshakeLine line epoch h) : h.time = handshakeTime epoch := by
  cases hl
  rfl

theorem HandshakeLine.le_max {line : Bytes} {epoch : Int} {h : PeerHandshake}
    (hl : HandshakeLine line epoch h) : epoch ≤ maxInt64 := by
  cases hl
  assumption

theorem exists_time_iff {out : Bytes} {hs : List PeerHandshake}
    (hparse : parseLatestHandshakes out = some hs) (t : Int) :
    (∃ h ∈ hs, h.time = t) ↔ ∃ epoch ∈ epochs out, handshakeTime epoch = t := by
  rw [parseLatestHandshakes, wgLines_eq] at hparse
  constructor
  · rintro ⟨h, hh, rfl⟩
    obtain ⟨line, hline, hsome⟩ := mem_parseEach hparse hh
    obtain ⟨epoch, hformat⟩ := parseHandshakeLine_iff.mp hsome
    exact ⟨epoch, ⟨line, hline, h, hformat⟩, hformat.time_eq.symm⟩
  · rintro ⟨epoch, ⟨line, hline, h, hformat⟩, rfl⟩
    have hsome := parseHandshakeLine_iff.mpr ⟨epoch, hformat⟩
    exact ⟨h, mem_of_parseEach hparse hline hsome, hformat.time_eq⟩

section Latest

variable {out : Bytes} {hs : List PeerHandshake} (hparse : parseLatestHandshakes out = some hs)
include hparse

theorem latestHandshake_of_none (hnone : ∀ epoch ∈ epochs out, epoch ≤ 0) :
    latestHandshake hs = 0 := by
  obtain ⟨hmem, -⟩ := latestHandshake_isGreatest hs
  rcases hmem with hzero | htime
  · exact hzero
  · obtain ⟨epoch, hepoch, htime⟩ := (exists_time_iff hparse _).mp htime
    have hle := hnone epoch hepoch
    rw [← htime]
    exact if_neg (by omega)

/-- The latest handshake is the instant of the greatest positive epoch. -/
theorem latestHandshake_of_greatest (hle : ∀ epoch ∈ epochs out, epoch ≤ endOf9999) {epoch : Int}
    (hepoch : IsGreatest {e | e ∈ epochs out ∧ 0 < e} epoch) :
    latestHandshake hs = (epoch + unixToInternal) * second := by
  obtain ⟨⟨hmem, hpos⟩, hmax⟩ := hepoch
  obtain ⟨hlatest, hupper⟩ := latestHandshake_isGreatest hs
  have htime := handshakeTime_of_le hpos (hle epoch hmem)
  apply le_antisymm
  · rcases hlatest with hzero | hlatest
    · rw [Set.mem_singleton_iff.mp hzero]
      unfold second unixToInternal
      omega
    · obtain ⟨e, he, het⟩ := (exists_time_iff hparse _).mp hlatest
      rw [← het]
      by_cases hepos : 0 < e
      · have hele : e ≤ epoch := hmax ⟨he, hepos⟩
        rw [handshakeTime_of_le hepos (hle e he)]
        unfold second
        omega
      · have hzero : handshakeTime e = 0 := if_neg (by omega)
        rw [hzero]
        unfold second unixToInternal
        omega
  · rw [← htime]
    exact hupper (.inr ((exists_time_iff hparse _).mpr ⟨epoch, hmem, rfl⟩))

end Latest

end Times

section Render

/-- A key without white space. -/
def Solid (key : Bytes) : Prop := ∀ r ∈ Utf8.runes key, Utf8.isSpace r = false

instance (key : Bytes) : Decidable (Solid key) := inferInstanceAs (Decidable (∀ r ∈ _, _))

/-- `wg show <if> transfer` prints one line for each peer. -/
def transferLine (p : PeerTransfer) : Bytes :=
  p.publicKey ++ tab :: (itoa p.rx.toNat ++ tab :: itoa p.tx.toNat)

def renderTransfer (peers : List PeerTransfer) : Bytes :=
  Lines.terminated nl (peers.map transferLine)

/-- `At.Unix()`, and 0 for a peer that never had a handshake. -/
def epochOf (time : Int) : Int :=
  if time = 0 then 0 else wrapInt64 (time / second - unixToInternal)

def handshakeLine (h : PeerHandshake) : Bytes := h.publicKey ++ tab :: itoa (epochOf h.time)

def renderHandshakes (hs : List PeerHandshake) : Bytes :=
  Lines.terminated nl (hs.map handshakeLine)

/-- A time wg can report: none yet, or a whole second after the Unix epoch. -/
def Reported (time : Int) : Prop :=
  ∃ epoch, 0 ≤ epoch ∧ epoch ≤ maxInt64 ∧ time = handshakeTime epoch

theorem Solid.not_mem {key : Bytes} (h : Solid key) {b : UInt8} (hb : b < 0x80)
    (hspace : Utf8.isSpace b.toNat = true) : b ∉ key := by
  intro hmem
  have hfalse := h b.toNat (Utf8.mem_runes_of_ascii hmem hb)
  rw [hspace] at hfalse
  cases hfalse

theorem Solid.trimSpace_eq {key : Bytes} (h : Solid key) : trimSpace key = key := by
  apply trimSpace_of_trimmed
  constructor
  · intro r hr
    exact h r (List.mem_of_mem_head? hr)
  · intro r hr
    exact h r (List.mem_of_mem_getLast? hr)

/-- Texts of digits and a sign, as numbers are printed. -/
def Numeric (s : Bytes) : Prop := s ≠ [] ∧ ∀ b ∈ s, 43 ≤ b ∧ b ≤ 57

theorem numeric_itoa (n : Int) : Numeric (itoa n) := by
  have hdigit : ∀ ds, Digits ds → ∀ b ∈ ds, 43 ≤ b ∧ b ≤ 57 := by
    intro ds hds b hb
    have hd := hds.2 b hb
    simp only [isDigit, Bool.and_eq_true, decide_eq_true_eq, UInt8.le_iff_toNat_le] at hd ⊢
    exact ⟨Nat.le_trans (by decide) hd.1, hd.2⟩
  generalize htext : itoa n = text
  have hnum := numeral_itoa n
  rw [htext] at hnum
  cases hnum with
  | bare hds => exact ⟨hds.1, hdigit text hds⟩
  | plus hds => exact ⟨by simp, List.forall_mem_cons.mpr ⟨by decide, hdigit _ hds⟩⟩
  | minus hds => exact ⟨by simp, List.forall_mem_cons.mpr ⟨by decide, hdigit _ hds⟩⟩

theorem not_space_of_numeric {b : UInt8} (hb : 43 ≤ b ∧ b ≤ 57) :
    b < 0x80 ∧ Utf8.isSpace b.toNat = false := by
  simp only [UInt8.le_iff_toNat_le, UInt8.lt_iff_toNat_lt] at *
  have h1 : 43 ≤ b.toNat := hb.1
  have h2 : b.toNat ≤ 57 := hb.2
  refine ⟨Nat.lt_of_le_of_lt h2 (by decide), ?_⟩
  simp [Utf8.isSpace]
  omega

theorem Numeric.solid {s : Bytes} (h : Numeric s) : Solid s := by
  have hascii : Utf8.Ascii s := fun b hb => (not_space_of_numeric (h.2 b hb)).1
  intro r hr
  rw [Utf8.runes_ascii hascii] at hr
  obtain ⟨b, hb, rfl⟩ := List.mem_map.mp hr
  exact (not_space_of_numeric (h.2 b hb)).2

/-- A rendered line ends in a number, so that it is not blank and keeps its end. -/
theorem counted_rendered {lines : List Bytes}
    (h : ∀ l ∈ lines, ∃ start s, Numeric s ∧ l = start ++ s) : counted (lines ++ [[]]) = lines := by
  have hempty : counted [[]] = [] := by decide
  have hline : ∀ l ∈ lines, dropCRs l = l ∧ ¬Blank l := by
    intro l hl
    obtain ⟨start, s, hs, rfl⟩ := h l hl
    have hlast := List.getLast_mem hs.1
    obtain ⟨hascii, hspace⟩ := not_space_of_numeric (hs.2 _ hlast)
    constructor
    · apply List.rdropWhile_eq_self_iff.mpr
      intro hne
      rw [List.getLast_append_of_ne_nil hne hs.1]
      intro hcr
      rw [beq_iff_eq.mp hcr] at hspace
      exact absurd hspace (by decide)
    · intro hblank
      have hmem := Utf8.mem_runes_of_ascii (List.mem_append_right start hlast) hascii
      rw [hblank _ hmem] at hspace
      cases hspace
  have hmap : lines.map dropCRs = lines := by
    conv_rhs => rw [← List.map_id lines]
    exact List.map_congr_left fun l hl => (hline l hl).1
  have hfilter : lines.filter (¬Blank ·) = lines :=
    List.filter_eq_self.mpr fun l hl => by simpa using (hline l hl).2
  unfold counted at hempty ⊢
  rw [List.map_append, List.filter_append, hmap, hfilter, hempty, List.append_nil]

theorem nonBlankLines_rendered {lines : List Bytes} (hnl : ∀ l ∈ lines, nl ∉ l)
    (h : ∀ l ∈ lines, ∃ start s, Numeric s ∧ l = start ++ s) :
    nonBlankLines (Lines.terminated nl lines) = lines := by
  have hsplit := Lines.splitOn_terminated nl hnl []
  rw [List.append_nil] at hsplit
  rw [nonBlankLines, hsplit]
  exact counted_rendered h

theorem Numeric.not_mem {s : Bytes} (h : Numeric s) {b : UInt8} (hb : b < 43) : b ∉ s := by
  intro hmem
  exact absurd (h.2 b hmem).1 (UInt8.not_le.mpr hb)

theorem transferLine_format {p : PeerTransfer} (h : Solid p.publicKey) :
    TransferLine (transferLine p) p := by
  have hkey : tab ∉ p.publicKey := h.not_mem (by decide) (by decide)
  have hrx := numeric_itoa p.rx.toNat
  have htx := numeric_itoa p.tx.toNat
  have hsplit : (transferLine p).splitOn tab =
      [p.publicKey, itoa p.rx.toNat, itoa p.tx.toNat] := by
    rw [transferLine, List.splitOn_append_cons_self, List.splitOn_append_cons_self,
      List.splitOn_eq_singleton hkey, List.splitOn_eq_singleton (hrx.not_mem (by decide)),
      List.splitOn_eq_singleton (htx.not_mem (by decide))]
    rfl
  have hformat := TransferLine.mk hsplit
  rw [h.trimSpace_eq, hrx.solid.trimSpace_eq, htx.solid.trimSpace_eq, decimal_itoa,
    decimal_itoa, UInt64.ofNat_toNat, UInt64.ofNat_toNat] at hformat
  exact hformat (digits_itoa _) p.rx.toNat_lt (digits_itoa _) p.tx.toNat_lt

theorem parseTransfer_rendered {peers : List PeerTransfer} (h : ∀ p ∈ peers, Solid p.publicKey) :
    parseTransfer (renderTransfer peers) = some peers := by
  have hlines : nonBlankLines (renderTransfer peers) = peers.map transferLine := by
    apply nonBlankLines_rendered
    · intro l hl
      obtain ⟨p, hp, rfl⟩ := List.mem_map.mp hl
      have hkey : nl ∉ p.publicKey := (h p hp).not_mem (by decide) (by decide)
      have hrx := (numeric_itoa p.rx.toNat).not_mem (show nl < 43 by decide)
      have htx := (numeric_itoa p.tx.toNat).not_mem (show nl < 43 by decide)
      have htab : nl ≠ tab := by decide
      simp [transferLine, hkey, hrx, htx, htab]
    · intro l hl
      obtain ⟨p, -, rfl⟩ := List.mem_map.mp hl
      refine ⟨p.publicKey ++ tab :: (itoa p.rx.toNat ++ [tab]), itoa p.tx.toNat,
        numeric_itoa _, ?_⟩
      simp [transferLine]
  rw [parseTransfer_iff, hlines, List.forall₂_map_left_iff, List.forall₂_same]
  intro p hp
  exact transferLine_format (h p hp)

theorem epochOf_handshakeTime {epoch : Int} (h0 : 0 ≤ epoch) (hle : epoch ≤ maxInt64) :
    epochOf (handshakeTime epoch) = epoch := by
  by_cases hpos : 0 < epoch
  · have hne := handshakeTime_of_pos hpos hle
    have hgt : epoch > 0 := hpos
    rw [epochOf, if_neg hne, handshakeTime, if_pos hgt, unixTime]
    unfold maxInt64 at hle
    unfold wrapInt64 unixToInternal second
    omega
  · obtain rfl : epoch = 0 := by omega
    rfl

theorem handshakeLine_format {h : PeerHandshake} (hkey : Solid h.publicKey)
    (htime : Reported h.time) : ∃ epoch, HandshakeLine (handshakeLine h) epoch h := by
  obtain ⟨epoch, h0, hle, heq⟩ := htime
  have hepoch : epochOf h.time = epoch := by rw [heq, epochOf_handshakeTime h0 hle]
  have htext := numeric_itoa epoch
  have hsplit : (handshakeLine h).splitOn tab = [h.publicKey, itoa epoch] := by
    rw [handshakeLine, hepoch, List.splitOn_append_cons_self,
      List.splitOn_eq_singleton (hkey.not_mem (by decide) (by decide)),
      List.splitOn_eq_singleton (htext.not_mem (by decide))]
    rfl
  have hmin : minInt64 ≤ epoch := by
    have hneg : minInt64 < 0 := by decide
    omega
  have hnum := numeral_itoa epoch
  rw [← htext.solid.trimSpace_eq] at hnum
  have hformat := HandshakeLine.mk hsplit hnum hmin hle
  rw [hkey.trimSpace_eq, ← heq] at hformat
  exact ⟨epoch, hformat⟩

theorem parseLatestHandshakes_rendered {hs : List PeerHandshake}
    (h : ∀ p ∈ hs, Solid p.publicKey ∧ Reported p.time) :
    parseLatestHandshakes (renderHandshakes hs) = some hs := by
  have hlines : nonBlankLines (renderHandshakes hs) = hs.map handshakeLine := by
    apply nonBlankLines_rendered
    · intro l hl
      obtain ⟨p, hp, rfl⟩ := List.mem_map.mp hl
      have hkey : nl ∉ p.publicKey := (h p hp).1.not_mem (by decide) (by decide)
      have htext := (numeric_itoa (epochOf p.time)).not_mem (show nl < 43 by decide)
      have htab : nl ≠ tab := by decide
      simp [handshakeLine, hkey, htext, htab]
    · intro l hl
      obtain ⟨p, -, rfl⟩ := List.mem_map.mp hl
      refine ⟨p.publicKey ++ [tab], itoa (epochOf p.time), numeric_itoa _, ?_⟩
      simp [handshakeLine]
  rw [parseLatestHandshakes_iff, hlines, List.forall₂_map_left_iff, List.forall₂_same]
  intro p hp
  exact handshakeLine_format (h p hp).1 (h p hp).2

end Render

/-- The parsers accept exactly their formats, and what is made of their results
does not depend on how the text is laid out. -/
structure ExactParsers : Prop where
  transfer_accepts : ∀ out, (parseTransfer out).isSome ↔
    ∀ line ∈ nonBlankLines out, ∃ p, TransferLine line p
  transfer : ∀ out peers, parseTransfer out = some peers ↔
    List.Forall₂ TransferLine (nonBlankLines out) peers
  handshakes_accept : ∀ out, (parseLatestHandshakes out).isSome ↔
    ∀ line ∈ nonBlankLines out, ∃ epoch h, HandshakeLine line epoch h
  handshakes : ∀ out hs, parseLatestHandshakes out = some hs ↔
    List.Forall₂ (fun line h => ∃ epoch, HandshakeLine line epoch h) (nonBlankLines out) hs
  never : ∀ line epoch h, HandshakeLine line epoch h → (h.time = 0 ↔ epoch ≤ 0)
  transfer_rendered : ∀ peers : List PeerTransfer, (∀ p ∈ peers, Solid p.publicKey) →
    parseTransfer (renderTransfer peers) = some peers
  handshakes_rendered : ∀ hs : List PeerHandshake,
    (∀ h ∈ hs, Solid h.publicKey ∧ Reported h.time) →
      parseLatestHandshakes (renderHandshakes hs) = some hs
  totals : ∀ out out', SameLines out out' →
    (parseTransfer out').map sumTransfer = (parseTransfer out).map sumTransfer
  latest : ∀ out out', SameLines out out' →
    (parseLatestHandshakes out').map latestHandshake =
      (parseLatestHandshakes out).map latestHandshake
  latest_epoch : ∀ out hs, parseLatestHandshakes out = some hs →
    (∀ epoch ∈ epochs out, epoch ≤ endOf9999) →
      (∀ epoch, IsGreatest {e | e ∈ epochs out ∧ 0 < e} epoch →
        latestHandshake hs = (epoch + unixToInternal) * second) ∧
      ((∀ epoch ∈ epochs out, epoch ≤ 0) → latestHandshake hs = 0)
  sample : ∀ transferOut transferOut' handshakesOut handshakesOut',
    SameLines transferOut transferOut' → SameLines handshakesOut handshakesOut' →
      wgSample (some transferOut') (some handshakesOut') =
        wgSample (some transferOut) (some handshakesOut)

theorem totals_of_sameLines {out out' : Bytes} (h : SameLines out out') :
    (parseTransfer out').map sumTransfer = (parseTransfer out).map sumTransfer :=
  map_parseEach_of_perm sumTransfer_perm h.perm

theorem latest_of_sameLines {out out' : Bytes} (h : SameLines out out') :
    (parseLatestHandshakes out').map latestHandshake =
      (parseLatestHandshakes out).map latestHandshake :=
  map_parseEach_of_perm latestHandshake_perm h.perm

theorem wgSample_eq (transferOut handshakesOut : Bytes) :
    wgSample (some transferOut) (some handshakesOut) =
      ((parseTransfer transferOut).map sumTransfer).bind fun total =>
        ((parseLatestHandshakes handshakesOut).map latestHandshake).map fun latest =>
          ⟨total.1, total.2, latest⟩ := by
  simp only [wgSample, Option.bind_some, Option.bind_map, Option.map_map]
  rfl

theorem wg_parsers_exact : ExactParsers where
  transfer_accepts out := by
    simp only [parseTransfer, parseEach_isSome_iff, wgLines_eq, parseTransferLine_iff]
  transfer _ _ := parseTransfer_iff
  handshakes_accept out := by
    simp only [parseLatestHandshakes, parseEach_isSome_iff, wgLines_eq, parseHandshakeLine_iff]
    exact forall₂_congr fun _ _ => exists_comm
  handshakes _ _ := parseLatestHandshakes_iff
  never _ _ _ hl := by rw [hl.time_eq, handshakeTime_eq_zero_iff hl.le_max]
  transfer_rendered _ := parseTransfer_rendered
  handshakes_rendered _ := parseLatestHandshakes_rendered
  totals _ _ := totals_of_sameLines
  latest _ _ := latest_of_sameLines
  latest_epoch _ _ hparse hle :=
    ⟨fun _ => latestHandshake_of_greatest hparse hle, latestHandshake_of_none hparse⟩
  sample _ _ _ _ ht hh := by
    rw [wgSample_eq, wgSample_eq, totals_of_sameLines ht, latest_of_sameLines hh]

end HelixProxy.Vpn
