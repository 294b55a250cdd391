import HelixProxy.AclHelper
import HelixProxy.Healthd
import HelixProxy.Library.Tokens
import HelixProxy.RoutingFacts

/-!
# The reply stream of the external-acl helper

Squid matches replies to requests by position, or by channel-id, and reads each
reply line as words separated by blanks. The loop writes one reply per request
line; the two sides stay in step exactly when no tag breaks out of its word.
-/

namespace HelixProxy.AclHelper

open Tokens
set_option autoImplicit false

structure Answer where
  channel : Bytes
  ok : Bool
  pairs : List (Bytes × Bytes)
  deriving DecidableEq, Repr

def readPair (tok : Bytes) : Option (Bytes × Bytes) :=
  match tok.dropWhile (· ≠ 61) with
  | [] => none
  | _ :: value => some (tok.takeWhile (· ≠ 61), value)

def words (line : Bytes) : List Bytes := tokens (· == space) line

def readVerdict (tok : Bytes) : Option Bool :=
  if tok = lit "OK" then some true else if tok = lit "ERR" then some false else none

def readResult (channel : Bytes) : List Bytes → Option Answer
  | [] => none
  | verdict :: kvs =>
    (readVerdict verdict).bind fun ok => (kvs.mapM readPair).map fun pairs => ⟨channel, ok, pairs⟩

/-- Squid's reply grammar: an optional channel-id, `OK` or `ERR`, then pairs. -/
def readReply (line : Bytes) : Option Answer :=
  match words line with
  | [] => none
  | tok :: rest =>
    if tok.all Strconv.isDigit then readResult tok rest else readResult [] (tok :: rest)

def intended (d : Decider) (line : Bytes) : Answer :=
  let req := parseLine line
  let verdict := d.decide req.host
  ⟨req.channel, verdict.1, if verdict.1 then [(lit "tag", verdict.2)] else []⟩

/-- The output is one line per request line, in order, and each line reads as
the answer intended for its request. -/
def Synchronised (dec : Nat → Decider) (input : Bytes) : Prop :=
  ∃ lines, loop dec input = Lines.terminated nl lines ∧ (∀ l ∈ lines, nl ∉ l) ∧
    lines.length = (requestLines input).length ∧
    ∀ i request line, (requestLines input)[i]? = some request → lines[i]? = some line →
      readReply line = some (intended (dec i) request)

def replyText (d : Decider) (line : Bytes) : Bytes :=
  let req := parseLine line
  let verdict := d.decide req.host
  echo req.channel ++
    (if verdict.1 && !verdict.2.isEmpty then lit "OK tag=" ++ verdict.2
      else if verdict.1 then lit "OK" else lit "ERR")

theorem reply_eq (d : Decider) (line : Bytes) : reply d line = replyText d line ++ [nl] := by
  simp only [reply, replyText, formatReply, decideWithTimeout_eq]

def replyTexts (dec : Nat → Decider) : Nat → List Bytes → List Bytes
  | _, [] => []
  | i, line :: rest => replyText (dec i) line :: replyTexts dec (i + 1) rest

theorem length_replyTexts (dec : Nat → Decider) (i : Nat) (lines : List Bytes) :
    (replyTexts dec i lines).length = lines.length := by
  induction lines generalizing i with
  | nil => rfl
  | cons line rest ih => simp [replyTexts, ih]

theorem getElem?_replyTexts (dec : Nat → Decider) (i n : Nat) (lines : List Bytes) :
    (replyTexts dec i lines)[n]? = lines[n]?.map (replyText (dec (i + n))) := by
  induction lines generalizing i n with
  | nil => simp [replyTexts]
  | cons line rest ih =>
    cases n with
    | zero => simp [replyTexts]
    | succ n => simp [replyTexts, ih, Nat.add_assoc, Nat.add_comm 1 n]

section Loop

theorem readString_cons (b : UInt8) (rest : Bytes) :
    readString (b :: rest) =
      if b = nl then ([b], rest, false)
      else (b :: (readString rest).1, (readString rest).2) := by
  by_cases hb : b = nl
  · simp [readString, hb]
  · simp only [readString, List.takeWhile_cons, List.dropWhile_cons, hb, ne_eq, not_false_eq_true,
      decide_true, if_true, if_false]
    cases rest.dropWhile fun x => decide ¬ x = nl <;> rfl

theorem readString_spec (input : Bytes) :
    (readString input).2.1.length + (readString input).1.length = input.length ∧
    ((readString input).2.2 = true → (readString input).2.1 = []) ∧
    ((readString input).2.2 = false → (readString input).1 ≠ []) ∧
    requestLines input = (if (readString input).1 = [] then [] else [(readString input).1]) ++
      requestLines (readString input).2.1 := by
  induction input with
  | nil => simp [readString, requestLines]
  | cons b rest ih =>
    obtain ⟨hlen, heof, hline, hreq⟩ := ih
    rw [readString_cons]
    by_cases hb : b = nl
    · simp [hb, requestLines]
    · simp only [hb, if_false, requestLines, List.length_cons, reduceCtorEq, not_false_eq_true,
        ne_eq, implies_true, true_and]
      refine ⟨by omega, heof, ?_⟩
      rw [hreq]
      by_cases hl : (readString rest).1 = []
      · have hrest : (readString rest).2.1 = [] := by
          cases he : (readString rest).2.2 with
          | true => exact heof he
          | false => exact absurd hl (hline he)
        simp [hl, hrest, requestLines]
      · simp [hl]

theorem loopFrom_eq (dec : Nat → Decider) (fuel i : Nat) (input : Bytes)
    (h : input.length < fuel) :
    loopFrom dec fuel i input = Lines.terminated nl (replyTexts dec i (requestLines input)) := by
  induction fuel generalizing i input with
  | zero => omega
  | succ fuel ih =>
    obtain ⟨hlen, heof, hline, hreq⟩ := readString_spec input
    rw [hreq]
    simp only [loopFrom, List.length_pos_iff]
    by_cases hl : (readString input).1 = []
    · have he : (readString input).2.2 = true := by
        cases he : (readString input).2.2 with
        | true => rfl
        | false => exact absurd hl (hline he)
      simp [hl, he, heof he, requestLines, replyTexts]
    · have hpos := List.length_pos_iff.mpr hl
      cases he : (readString input).2.2 with
      | true => simp [hl, heof he, requestLines, replyTexts, reply_eq]
      | false =>
        have hrec := ih (i + 1) (readString input).2.1 (by omega)
        simp [hl, replyTexts, reply_eq, hrec]

theorem loop_eq (dec : Nat → Decider) (input : Bytes) :
    loop dec input = Lines.terminated nl (replyTexts dec 0 (requestLines input)) :=
  loopFrom_eq dec _ 0 input (Nat.lt_succ_self _)

end Loop

section Reading

theorem readPair_eq_some {tok key value : Bytes} (h : readPair tok = some (key, value)) :
    tok = key ++ 61 :: value := by
  unfold readPair at h
  split at h
  · cases h
  · next d rest hd =>
    have hne : tok.dropWhile (fun b => decide (b ≠ 61)) ≠ [] := hd ▸ List.cons_ne_nil d rest
    have hsep : d = 61 := by
      have := List.head_dropWhile_not (fun b : UInt8 => decide (b ≠ 61)) hne
      simpa only [hd, List.head_cons, decide_eq_false_iff_not, not_not] using this
    simp only [Option.some.injEq, Prod.mk.injEq] at h
    rw [← h.1, ← h.2, ← hsep, ← hd, hsep, List.takeWhile_append_dropWhile]

theorem readPair_tag (value : Bytes) :
    readPair (lit "tag=" ++ value) = some (lit "tag", value) := by
  have hl : lit "tag=" = [116, 97, 103, 61] := by decide
  have ht : lit "tag" = [116, 97, 103] := by decide
  simp [readPair, hl, ht]

theorem channel_digits (line : Bytes) :
    ∀ b ∈ (parseLine line).channel, Strconv.isDigit b = true := by
  unfold parseLine
  split
  · simp
  · simp
  · next tok next rest _ =>
    split
    · next hc =>
      simp only [isChannelID, Bool.and_eq_true, List.all_eq_true, decide_eq_true_eq] at hc
      have hascii := Utf8.ascii_of_runes fun r hr => Nat.lt_of_le_of_lt (hc.2 r hr).2 (by decide)
      intro b hb
      have hr := hc.2 b.toNat (by rw [Utf8.runes_ascii hascii]; exact List.mem_map_of_mem hb)
      simpa [Strconv.isDigit, UInt8.le_iff_toNat_le] using hr
    · simp

theorem ne_of_isDigit {b c : UInt8} (hb : Strconv.isDigit b = true)
    (hc : Strconv.isDigit c = false) : b ≠ c := by
  rintro rfl
  simp [hb] at hc

theorem readReply_channel {channel body verdict : Bytes} {kvs : List Bytes}
    (hc : ∀ b ∈ channel, Strconv.isDigit b = true) (hw : words body = verdict :: kvs)
    (hv : verdict.all Strconv.isDigit = false) :
    readReply (echo channel ++ body) = readResult channel (verdict :: kvs) := by
  by_cases hch : channel = []
  · simp [echo, hch, readReply, hw, hv]
  · have hsp : ∀ b ∈ channel, (b == space) = false := fun b hb =>
      beq_false_of_ne (ne_of_isDigit (hc b hb) (by decide))
    have hwords : words (channel ++ space :: body) = channel :: verdict :: kvs := by
      rw [words, tokens_cons_word _ hch hsp (by simp), ← hw, words]
    have hd : channel.all Strconv.isDigit = true := List.all_eq_true.mpr hc
    simp [echo, hch, readReply, hwords, hd]

theorem words_ok (rest : Bytes) :
    words (lit "OK tag=" ++ rest) = lit "OK" :: words (lit "tag=" ++ rest) := by
  have hsplit : lit "OK tag=" = lit "OK" ++ space :: lit "tag=" := by decide
  rw [hsplit, List.append_assoc, List.cons_append, words,
    tokens_cons_word _ (by decide) (by decide) (by decide), words]

theorem readResult_tag_iff (channel tag : Bytes) :
    readResult channel (lit "OK" :: words (lit "tag=" ++ tag)) =
      some ⟨channel, true, [(lit "tag", tag)]⟩ ↔ space ∉ tag := by
  have hok : readVerdict (lit "OK") = some true := by decide
  constructor
  · intro h
    simp only [readResult, hok, Option.bind_some, Option.map_eq_some_iff, Answer.mk.injEq,
      true_and] at h
    obtain ⟨pairs, hm, rfl⟩ := h
    cases hw : words (lit "tag=" ++ tag) with
    | nil => simp [hw] at hm
    | cons w ws =>
      simp only [hw, List.mapM_cons, Option.pure_def, Option.bind_eq_bind, Option.bind_eq_some_iff,
        Option.some.injEq, List.cons.injEq] at hm
      obtain ⟨pair, hpair, _, -, rfl, -⟩ := hm
      -- The word that gave the pair is the whole text, and a word holds no blank.
      have hword : w = lit "tag=" ++ tag := by
        have htag : lit "tag=" = lit "tag" ++ [61] := by decide
        rw [readPair_eq_some hpair, htag, List.append_assoc, List.singleton_append]
      have hmem : w ∈ words (lit "tag=" ++ tag) := hw ▸ List.mem_cons_self
      intro hsp
      have := not_sep_of_mem_tokens _ hmem space (hword ▸ List.mem_append_right _ hsp)
      simp at this
  · intro h
    have hfree : ∀ b ∈ lit "tag=" ++ tag, (b == space) = false := by
      intro b hb
      rcases List.mem_append.mp hb with hb | hb
      · exact (by decide : ∀ b ∈ lit "tag=", (b == space) = false) b hb
      · exact beq_false_of_ne fun he => h (he ▸ hb)
    have hne : lit "tag=" ++ tag ≠ [] := by
      intro hnil
      exact absurd (List.append_eq_nil_iff.mp hnil).1 (by decide)
    rw [words, tokens_eq_singleton _ hne hfree]
    simp [readResult, hok, readPair_tag]

end Reading

theorem replyText_ok {d : Decider} {line tag : Bytes}
    (h : d.Routed (parseLine line).host tag) :
    replyText d line = echo (parseLine line).channel ++ (lit "OK tag=" ++ tag) := by
  have hne : tag.isEmpty = false := by simpa using h.2.1
  simp [replyText, (decide_eq_ok_iff d _ tag).mpr h, hne]

theorem replyText_err {d : Decider} {line : Bytes}
    (h : ∀ tag, ¬ d.Routed (parseLine line).host tag) :
    replyText d line = echo (parseLine line).channel ++ lit "ERR" := by
  simp [replyText, decide_eq_err d _ h]

theorem nl_not_mem_echo (line : Bytes) : nl ∉ echo (parseLine line).channel := by
  intro hmem
  unfold echo at hmem
  split at hmem
  · rcases List.mem_append.mp hmem with hmem | hmem
    · exact ne_of_isDigit (channel_digits line nl hmem) (by decide) rfl
    · exact absurd hmem (by decide)
  · simp at hmem

/-- One reply is one line and reads as intended exactly when its tag is a word. -/
theorem reply_faithful_iff (d : Decider) (line : Bytes) :
    nl ∉ replyText d line ∧ readReply (replyText d line) = some (intended d line) ↔
      ∀ tunnel, d.Routed (parseLine line).host tunnel → space ∉ tunnel ∧ nl ∉ tunnel := by
  have hch := nl_not_mem_echo line
  by_cases hr : ∃ tag, d.Routed (parseLine line).host tag
  · obtain ⟨tag, htag⟩ := hr
    have hdec := (decide_eq_ok_iff d _ tag).mpr htag
    have hintended : intended d line = ⟨(parseLine line).channel, true, [(lit "tag", tag)]⟩ := by
      simp [intended, hdec]
    have hread : readReply (replyText d line) = some (intended d line) ↔ space ∉ tag := by
      rw [replyText_ok htag, readReply_channel (channel_digits line) (words_ok tag) (by decide),
        hintended, readResult_tag_iff]
    have hnl : nl ∉ replyText d line ↔ nl ∉ tag := by
      rw [replyText_ok htag]
      have hok : nl ∉ lit "OK tag=" := by decide
      simp [hch, hok]
    rw [hread, hnl]
    constructor
    · rintro ⟨h1, h2⟩ tunnel ht
      have := (decide_eq_ok_iff d _ tunnel).mpr ht
      obtain rfl : tag = tunnel := (Prod.mk.inj (hdec.symm.trans this)).2
      exact ⟨h2, h1⟩
    · intro h
      exact (h tag htag).symm
  · have hnone : ∀ tag, ¬ d.Routed (parseLine line).host tag := fun tag h => hr ⟨tag, h⟩
    have hwords : words (lit "ERR") = [lit "ERR"] := by decide
    have herr : readVerdict (lit "ERR") = some false := by decide
    have hnl : nl ∉ lit "ERR" := by decide
    simp only [hnone, false_implies, implies_true, iff_true]
    rw [replyText_err hnone]
    refine ⟨by simp [hch, hnl], ?_⟩
    rw [readReply_channel (channel_digits line) hwords (by decide)]
    simp [readResult, herr, intended, decide_eq_err d _ hnone]

/-- The stream is synchronised when each reply is; the number of newlines in the
output leaves no room for one inside a reply. -/
theorem synchronised_iff_replies (dec : Nat → Decider) (input : Bytes) :
    Synchronised dec input ↔ ∀ i line, (requestLines input)[i]? = some line →
      nl ∉ replyText (dec i) line ∧
        readReply (replyText (dec i) line) = some (intended (dec i) line) := by
  have hget : ∀ i, (replyTexts dec 0 (requestLines input))[i]? =
      (requestLines input)[i]?.map (replyText (dec i)) := by
    intro i
    simpa using getElem?_replyTexts dec 0 i (requestLines input)
  constructor
  · rintro ⟨lines, hloop, hfree, hlen, hread⟩ i line hline
    rw [loop_eq] at hloop
    have hcount : (Lines.terminated nl (replyTexts dec 0 (requestLines input))).count nl =
        (replyTexts dec 0 (requestLines input)).length := by
      have hzero : (lines.map (List.count nl)).sum = 0 := by
        apply List.sum_eq_zero_iff_forall_eq_nat.mpr
        intro n hn
        obtain ⟨l, hl, rfl⟩ := List.mem_map.mp hn
        exact List.count_eq_zero.mpr (hfree l hl)
      rw [hloop, Lines.count_terminated, hzero, length_replyTexts, hlen, Nat.zero_add]
    have hown := Lines.not_mem_of_count nl hcount
    have hlines := Lines.terminated_injective nl hown hfree hloop
    have htext : (replyTexts dec 0 (requestLines input))[i]? = some (replyText (dec i) line) := by
      rw [hget, hline, Option.map_some]
    exact ⟨hown _ (List.mem_of_getElem? htext), hread i line _ hline (hlines ▸ htext)⟩
  · intro h
    refine ⟨_, loop_eq dec input, ?_, length_replyTexts dec 0 _, ?_⟩
    · intro l hl
      obtain ⟨i, hi⟩ := List.getElem?_of_mem hl
      rw [hget, Option.map_eq_some_iff] at hi
      obtain ⟨line, hline, rfl⟩ := hi
      exact (h i line hline).1
    · intro i request line hrequest hline
      rw [hget, hrequest, Option.map_some, Option.some.injEq] at hline
      exact hline ▸ (h i request hrequest).2

/-- For every input and every bus, the reply stream stays synchronised exactly
when each tunnel the helper answers with is free of blanks and newlines. -/
theorem replies_synchronised_iff (dec : Nat → Decider) (input : Bytes) :
    Synchronised dec input ↔ ∀ i line tunnel, (requestLines input)[i]? = some line →
      (dec i).Routed (parseLine line).host tunnel → space ∉ tunnel ∧ nl ∉ tunnel := by
  rw [synchronised_iff_replies]
  constructor
  · exact fun h i line tunnel hline => (reply_faithful_iff (dec i) line).mp (h i line hline) tunnel
  · exact fun h i line hline => (reply_faithful_iff (dec i) line).mpr fun tunnel => h i line tunnel hline

/-- A bus with the routes compiled from a store whose one profile has the given
name, and the status healthd publishes for that profile while it is up. -/
def busOfProfile (name : Bytes) : Bus.Redis Bus.Document :=
  let p : Store.VPNProfile := { id := lit "p1", name }
  let routes := ((Routing.compileAll (Routing.singleTarget p (lit "crm"))).map (·.routes)).getD []
  let snap := Healthd.poll { profile := name } {}
    { startedAt := 1, egress := some (lit "203.0.113.7"), probe := .succeeded }
  (routes.map (Bus.routeWrite Bus.documents 1)).foldl Expiring.put
    (Expiring.put Expiring.empty (Bus.statusWrite Bus.documents 1 snap 15))

def deciderOfProfile (name : Bytes) : Decider :=
  Decider.ofRedis Bus.documents 0 (busOfProfile name, 2, true) (busOfProfile name, 2, true)

/-- A blank in a profile name truncates the tag; a newline adds a reply line. -/
theorem replies_not_synchronised :
    ¬ Synchronised (fun _ => deciderOfProfile (lit "office eu")) (lit "crm\n") ∧
      ¬ Synchronised (fun _ => deciderOfProfile (lit "eu\nOK")) (lit "crm\ncrm\n") := by
  constructor
  · intro h
    have hread := ((synchronised_iff_replies _ _).mp h 0 (lit "crm\n") (by decide)).2
    revert hread
    decide
  · intro h
    have hnl := ((synchronised_iff_replies _ _).mp h 0 (lit "crm\n") (by decide)).1
    revert hnl
    decide

end HelixProxy.AclHelper
