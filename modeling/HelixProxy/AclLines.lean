import HelixProxy.AclHelper
import HelixProxy.Utf8

/-!
# Request lines

What Squid writes for a request, alone or after a channel-id, and what
`ParseLine` reads from it. A line with a channel-id and nothing else is read as
the other framing: the channel-id is taken for the host.
-/

namespace HelixProxy.AclHelper

open Strings Utf8
set_option autoImplicit false

/-- White space, control and non-ASCII bytes, and the escape character itself. -/
def mustEscape (b : UInt8) : Bool := b == 37 || b ≤ 32 || 127 ≤ b

/-- A hexadecimal digit, in either case. -/
def hexForms (n : UInt8) : List UInt8 := if n < 10 then [48 + n] else [87 + n, 55 + n]

/-- A percent-encoding of a host; other bytes may be escaped as well. -/
inductive PercentEncodes : Bytes → Bytes → Prop
  | nil : PercentEncodes [] []
  | plain {b : UInt8} {host enc : Bytes} :
      mustEscape b = false → PercentEncodes host enc → PercentEncodes (b :: host) (b :: enc)
  | escaped {b hi lo : UInt8} {host enc : Bytes} :
      hi ∈ hexForms (b / 16) → lo ∈ hexForms (b % 16) → PercentEncodes host enc →
      PercentEncodes (b :: host) (37 :: hi :: lo :: enc)

def ChannelID (c : Bytes) : Prop := c ≠ [] ∧ ∀ b ∈ c, Strconv.isDigit b = true

instance (c : Bytes) : Decidable (ChannelID c) :=
  inferInstanceAs (Decidable (c ≠ [] ∧ ∀ b ∈ c, Strconv.isDigit b = true))

def LineEnding (s : Bytes) : Prop := ∀ b ∈ s, b = 13 ∨ b = nl

def Spaces (s : Bytes) : Prop := s ≠ [] ∧ ∀ b ∈ s, b = space

def UsableHost (host : Bytes) : Prop := host ≠ [] ∧ Trimmed host

/-- A line that carries the request, in one of the two framings. -/
inductive RequestLine : Bytes → Request → Prop
  | serial {host enc ending : Bytes} :
      UsableHost host → PercentEncodes host enc → LineEnding ending →
      RequestLine (enc ++ ending) ⟨[], host⟩
  | concurrent {c spaces host enc ending : Bytes} :
      ChannelID c → Spaces spaces → UsableHost host → PercentEncodes host enc →
      LineEnding ending → RequestLine (c ++ spaces ++ enc ++ ending) ⟨c, host⟩

theorem hexForms_spec {n d : UInt8} (hn : n < 16) (hd : d ∈ hexForms n) :
    unhex d = some n ∧ 32 < d ∧ d < 127 := by
  have hall : ∀ n : Fin 16, ∀ d ∈ hexForms (UInt8.ofNat n),
      unhex d = some (UInt8.ofNat n) ∧ 32 < d ∧ d < 127 := by decide
  have hdigit := hall ⟨n.toNat, UInt8.lt_iff_toNat_lt.mp hn⟩ d
  rw [UInt8.ofNat_toNat] at hdigit
  exact hdigit hd

theorem nibbles (b : UInt8) : b / 16 < 16 ∧ b % 16 < 16 ∧ b / 16 * 16 + b % 16 = b := by
  have hb := UInt8.toNat_lt b
  simp only [UInt8.lt_iff_toNat_lt, ← UInt8.toNat_inj, UInt8.toNat_add, UInt8.toNat_mul,
    UInt8.toNat_div, UInt8.toNat_mod, UInt8.reduceToNat]
  omega

theorem pathUnescape_cons {b : UInt8} (hb : b ≠ 37) (rest : Bytes) :
    pathUnescape (b :: rest) = (pathUnescape rest).map (b :: ·) := by
  rw [pathUnescape]
  · rintro x y tail heq -
    exact hb heq
  · intro heq
    exact hb heq

theorem pathUnescape_of_encodes {host enc : Bytes} (h : PercentEncodes host enc) :
    pathUnescape enc = some host := by
  induction h with
  | nil => rfl
  | @plain b host enc hb _ ih =>
    have hne : b ≠ 37 := by
      rintro rfl
      exact absurd hb (by decide)
    rw [pathUnescape_cons hne, ih, Option.map_some]
  | @escaped b hi lo host enc hhi hlo _ ih =>
    obtain ⟨hdiv, hmod, hjoin⟩ := nibbles b
    simp only [pathUnescape, (hexForms_spec hdiv hhi).1, (hexForms_spec hmod hlo).1, ih,
      Option.map_some, hjoin]

/-- An encoded host is made of visible ASCII characters. -/
theorem visible_of_encodes {host enc : Bytes} (h : PercentEncodes host enc) :
    ∀ b ∈ enc, 32 < b ∧ b < 127 := by
  induction h with
  | nil => simp
  | @plain b host enc hb _ ih =>
    simp only [mustEscape, Bool.or_eq_false_iff, decide_eq_false_iff_not, UInt8.not_le] at hb
    exact List.forall_mem_cons.mpr ⟨⟨hb.1.2, hb.2⟩, ih⟩
  | @escaped b hi lo host enc hhi hlo _ ih =>
    obtain ⟨hdiv, hmod, -⟩ := nibbles b
    simp only [List.forall_mem_cons]
    exact ⟨by decide, (hexForms_spec hdiv hhi).2, (hexForms_spec hmod hlo).2, ih⟩

theorem encoded_ne_nil {host enc : Bytes} (h : PercentEncodes host enc) (hne : host ≠ []) :
    enc ≠ [] := by
  cases h with
  | nil => exact absurd rfl hne
  | plain | escaped => exact List.cons_ne_nil _ _

/-- Visible ASCII characters make one field. -/
theorem fields_visible {w : Bytes} (hne : w ≠ []) (h : ∀ b ∈ w, 32 < b ∧ b < 127) :
    fields w = [w] := by
  have hascii : Ascii w := fun b hb => UInt8.lt_trans (h b hb).2 (by decide)
  refine fields_word hne fun r hr => ?_
  rw [runes_ascii hascii] at hr
  obtain ⟨b, hb, rfl⟩ := List.mem_map.mp hr
  have hb := h b hb
  simp only [UInt8.lt_iff_toNat_lt, UInt8.reduceToNat] at hb
  simp only [isSpace, Bool.or_eq_false_iff, Bool.and_eq_false_iff, decide_eq_false_iff_not,
    beq_eq_false_iff_ne]
  omega

theorem ChannelID.visible {c : Bytes} (h : ChannelID c) : ∀ b ∈ c, 32 < b ∧ b < 127 := by
  intro b hb
  have hd := h.2 b hb
  simp only [Strconv.isDigit, Bool.and_eq_true, decide_eq_true_eq, UInt8.le_iff_toNat_le,
    UInt8.reduceToNat] at hd
  simp only [UInt8.lt_iff_toNat_lt, UInt8.reduceToNat]
  omega

theorem ChannelID.isChannelID {c : Bytes} (h : ChannelID c) : isChannelID c = true := by
  have hascii : Ascii c := fun b hb => UInt8.lt_trans (h.visible b hb).2 (by decide)
  have hall : ∀ r ∈ runes c, (48 ≤ r && r ≤ 57) = true := by
    intro r hr
    rw [runes_ascii hascii] at hr
    obtain ⟨b, hb, rfl⟩ := List.mem_map.mp hr
    simpa [Strconv.isDigit, UInt8.le_iff_toNat_le] using h.2 b hb
  rw [AclHelper.isChannelID, List.all_eq_true.mpr hall]
  simp [h.1]

/-- The line ending does not count: it is white space. -/
theorem parseLine_eq (line : Bytes) : parseLine line =
    match fields line with
    | [] => {}
    | [tok] => { host := decodeHost tok }
    | tok :: next :: _ =>
      if isChannelID tok then { channel := tok, host := decodeHost next }
      else { host := decodeHost tok } := by
  have hcut : ∀ b ∈ lit "\r\n", b < 0x80 ∧ isSpace b.toNat = true := by decide
  have htrim := fields_trimRight line hcut
  cases hf : fields line with
  | nil => simp [parseLine, htrim, hf]
  | cons tok rest => cases rest <;> simp [parseLine, htrim, hf]

theorem LineEnding.blank {s : Bytes} (h : LineEnding s) :
    ∀ b ∈ s, b < 0x80 ∧ isSpace b.toNat = true := by
  intro b hb
  rcases h b hb with rfl | rfl <;> decide

theorem Spaces.blank {s : Bytes} (h : Spaces s) :
    ∀ b ∈ s, b < 0x80 ∧ isSpace b.toNat = true := by
  intro b hb
  rw [h.2 b hb]
  decide

theorem decodeHost_of_encodes {host enc : Bytes} (hh : UsableHost host)
    (h : PercentEncodes host enc) : decodeHost enc = host := by
  rw [decodeHost, pathUnescape_of_encodes h]
  exact trimSpace_of_trimmed hh.2

theorem fields_of_encodes {host enc : Bytes} (hh : UsableHost host) (h : PercentEncodes host enc) :
    fields enc = [enc] := fields_visible (encoded_ne_nil h hh.1) (visible_of_encodes h)

/-- The fields of a line with a channel-id are the channel-id and those of the rest. -/
theorem fields_channel {c : Bytes} (hc : ChannelID c) {spaces : Bytes} (hs : Spaces spaces)
    (rest : Bytes) : fields (c ++ spaces ++ rest) = c :: fields rest := by
  obtain ⟨b, tail, rfl⟩ := List.exists_cons_of_ne_nil hs.1
  obtain ⟨hb, hspace⟩ := hs.blank b List.mem_cons_self
  rw [List.append_assoc, List.cons_append, fields_append_space c hb hspace,
    fields_visible hc.1 hc.visible,
    fields_blank_append (fun x hx => hs.blank x (List.mem_cons_of_mem b hx))]
  rfl

/-- A line made for a request is read as that request, and made for no other one. -/
theorem request_line_round_trip {line : Bytes} {req : Request} (h : RequestLine line req) :
    parseLine line = req ∧ ∀ req', RequestLine line req' → req' = req := by
  have hparse : ∀ {line : Bytes} {req : Request}, RequestLine line req → parseLine line = req := by
    intro line req h
    cases h with
    | serial hh henc hend =>
      rw [parseLine_eq, fields_append_blank _ hend.blank, fields_of_encodes hh henc]
      simp only [decodeHost_of_encodes hh henc]
    | concurrent hc hs hh henc hend =>
      rw [parseLine_eq, fields_append_blank _ hend.blank, fields_channel hc hs,
        fields_of_encodes hh henc]
      simp only [hc.isChannelID, if_true, decodeHost_of_encodes hh henc]
  exact ⟨hparse h, fun req' h' => (hparse h').symm.trans (hparse h)⟩

/-- A host of digits behind a channel-id, and one that is escaped throughout. -/
theorem request_line_round_trip_digits :
    parseLine (lit "7  80%2e%2E\r\n") = ⟨lit "7", lit "80.."⟩ ∧
      ∀ req', RequestLine (lit "7  80%2e%2E\r\n") req' → req' = ⟨lit "7", lit "80.."⟩ := by
  have henc : PercentEncodes (lit "80..") (lit "80%2e%2E") :=
    .plain (by decide) (.plain (by decide) (.escaped (by decide) (by decide)
      (.escaped (by decide) (by decide) .nil)))
  have hline : RequestLine (lit "7" ++ lit "  " ++ lit "80%2e%2E" ++ lit "\r\n")
      ⟨lit "7", lit "80.."⟩ :=
    .concurrent (by decide) ⟨by decide, by decide⟩ ⟨by decide, by decide⟩ henc
      (by unfold LineEnding; decide)
  exact request_line_round_trip hline

/-- The first token of what follows a channel-id decodes to a host. -/
def HostToken (w host : Bytes) : Prop :=
  ∃ tok, (fields w).head? = some tok ∧ pathUnescape tok = some host ∧ ¬Blank host

/-- The reply to `c w` begins with the token `c`, and is ERR when `w` carries no
host that can be decoded. -/
structure Matched (d : Decider) (c w : Bytes) : Prop where
  channel : ∃ rest, reply d (c ++ space :: w) = c ++ space :: rest
  refused : (∀ host, ¬HostToken w host) → reply d (c ++ space :: w) = c ++ lit " ERR\n"

/-- A reply without a channel-id begins with a letter. -/
theorem head_formatReply (ok : Bool) (tag : Bytes) :
    (formatReply [] ok tag).head? = some 79 ∨ (formatReply [] ok tag).head? = some 69 := by
  have htag : lit "OK tag=" = 79 :: lit "K tag=" := by decide
  have hok : lit "OK" = 79 :: lit "K" := by decide
  have herr : lit "ERR" = 69 :: lit "RR" := by decide
  unfold formatReply
  repeat' split
  · simp [echo, htag]
  · simp [echo, hok]
  · simp [echo, herr]

section Channel

variable {c : Bytes} (hc : ChannelID c) (d : Decider) {w : Bytes}
include hc

theorem fields_channel_space (w : Bytes) : fields (c ++ space :: w) = c :: fields w := by
  have hs : Spaces [space] := ⟨by simp, by simp⟩
  have hone := fields_channel hc hs w
  rwa [List.append_assoc, List.singleton_append] at hone

theorem parseLine_channel {tok : Bytes} {rest : List Bytes} (hw : fields w = tok :: rest) :
    parseLine (c ++ space :: w) = ⟨c, decodeHost tok⟩ := by
  rw [parseLine_eq, fields_channel_space hc, hw]
  simp only [hc.isChannelID, if_true]

/-- With nothing behind it the channel-id is the only field, and so the host. -/
theorem parseLine_channel_alone (hw : Blank w) :
    (parseLine (c ++ space :: w)).channel = [] := by
  rw [parseLine_eq, fields_channel_space hc, fields_eq_nil_iff.mpr hw]

theorem matched_of_fields {tok : Bytes} {rest : List Bytes} (hw : fields w = tok :: rest) :
    Matched d c w := by
  have hecho : echo c = c ++ [space] := if_pos hc.1
  constructor
  · rw [reply, parseLine_channel hc hw]
    simp only [formatReply, hecho, List.append_assoc, List.singleton_append]
    exact ⟨_, rfl⟩
  · intro hnone
    have hhost : decodeHost tok = [] := by
      cases htok : pathUnescape tok with
      | none => simp only [decodeHost, htok]
      | some host =>
        have hblank : Blank host := by
          by_contra hne
          exact hnone host ⟨tok, by rw [hw, List.head?_cons], htok, hne⟩
        simp only [decodeHost, htok]
        exact trimSpace_eq_nil_iff.mpr hblank
    have herr : lit " ERR\n" = [space] ++ lit "ERR" ++ [nl] := by decide
    simp [reply, parseLine_channel hc hw, hhost, Decider.decideWithTimeout, formatReply, hecho, herr]

theorem not_matched_of_blank (hw : Blank w) : ¬Matched d c w := by
  rintro ⟨⟨rest, hrest⟩, -⟩
  obtain ⟨b, tail, rfl⟩ := List.exists_cons_of_ne_nil hc.1
  have hdigit := hc.2 b List.mem_cons_self
  have hhead : (reply d (b :: tail ++ space :: w)).head? = some b := by
    rw [hrest]
    rfl
  rw [reply, parseLine_channel_alone hc hw] at hhead
  rcases head_formatReply _ _ with hletter | hletter
  · rw [hletter] at hhead
    obtain rfl := Option.some.inj hhead
    exact absurd hdigit (by decide)
  · rw [hletter] at hhead
    obtain rfl := Option.some.inj hhead
    exact absurd hdigit (by decide)

end Channel

/-- Exactly the lines with something behind the channel-id are answered on it. -/
theorem reply_matched_iff (d : Decider) {c : Bytes} (hc : ChannelID c) (w : Bytes) :
    Matched d c w ↔ ¬Blank w := by
  constructor
  · intro hm hw
    exact not_matched_of_blank hc d hw hm
  · intro hw
    obtain ⟨tok, rest, hfields⟩ := List.exists_cons_of_ne_nil (fields_eq_nil_iff.not.mpr hw)
    exact matched_of_fields hc d hfields

/-- Bus answers of a helper that knows no route. -/
def noRoutes : Decider where
  getRoute _ := .error .notFound
  getStatus _ := ({}, false)

theorem reply_matched_malformed : Matched noRoutes (lit "3") (lit "crm%zz 80") :=
  (reply_matched_iff noRoutes (by decide : ChannelID (lit "3")) (lit "crm%zz 80")).mpr (by decide)

/-- Squid gets a reply without a channel-id to a request whose host is empty. -/
theorem reply_not_matched :
    ¬∀ (d : Decider) (c w : Bytes), ChannelID c → nl ∉ w → Matched d c w := by
  intro h
  exact not_matched_of_blank (by decide) noRoutes (by decide) (h noRoutes (lit "3") [] (by decide)
    (by decide))

end HelixProxy.AclHelper
