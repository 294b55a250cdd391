import Mathlib.Computability.Language
import Mathlib.Data.List.TakeWhile

/-!
# Readers and the texts they read

A reader takes a value off the front of a text. It is exact for a family of
languages, one for each value, when what it takes is a text of the value it
returns, and it takes every such text as long as what follows does not continue
it. Exactness is kept by sequences, options and separated lists.
-/

namespace HelixProxy.Reading

set_option autoImplicit false

universe u v w

variable {τ : Type u} {α : Type v} {β : Type w}

abbrev Reader (τ : Type u) (α : Type v) := List τ → Option (α × List τ)

structure Exact (ends : List τ → Prop) (read : Reader τ α) (texts : α → Language τ) : Prop where
  sound : ∀ {s : List τ} {a : α} {rest : List τ}, read s = some (a, rest) →
    ∃ text ∈ texts a, s = text ++ rest
  complete : ∀ {a : α} {text rest : List τ}, text ∈ texts a → ends rest →
    read (text ++ rest) = some (a, rest)

/-- The text does not start with such a letter. -/
def HeadNot (p : τ → Bool) (s : List τ) : Prop := ∀ c ∈ s.head?, p c = false

theorem headNot_cons {p : τ → Bool} {c : τ} {s : List τ} : HeadNot p (c :: s) ↔ p c = false := by
  simp [HeadNot]

theorem HeadNot.append {p : τ → Bool} {s t : List τ} (hs : HeadNot p s) (ht : HeadNot p t) :
    HeadNot p (s ++ t) := by
  cases s with
  | nil => exact ht
  | cons c s => exact hs

theorem HeadNot.append_of_ne {p : τ → Bool} {s : List τ} (hs : HeadNot p s) (hne : s ≠ [])
    (t : List τ) : HeadNot p (s ++ t) := by
  obtain ⟨c, s, rfl⟩ := List.exists_cons_of_ne_nil hne
  exact hs

theorem HeadNot.imp {p q : τ → Bool} {s : List τ} (h : HeadNot q s)
    (hpq : ∀ c, q c = false → p c = false) : HeadNot p s := fun c hc => hpq c (h c hc)

theorem Exact.mono {ends ends' : List τ → Prop} {read : Reader τ α} {texts : α → Language τ}
    (h : Exact ends read texts) (hends : ∀ rest, ends' rest → ends rest) :
    Exact ends' read texts :=
  ⟨h.sound, fun htext hrest => h.complete htext (hends _ hrest)⟩

theorem Exact.congr {ends : List τ → Prop} {read : Reader τ α} {texts texts' : α → Language τ}
    (h : Exact ends read texts) (heq : ∀ a, texts a = texts' a) : Exact ends read texts' := by
  obtain rfl : texts = texts' := funext heq
  exact h

section Values

def map (f : α → β) (read : Reader τ α) : Reader τ β := fun s =>
  (read s).map fun p => (f p.1, p.2)

def seq (first : Reader τ α) (second : Reader τ β) : Reader τ (α × β) := fun s =>
  (first s).bind fun p => (second p.2).map fun q => ((p.1, q.1), q.2)

variable {ends ends' : List τ → Prop} {first : Reader τ α} {second : Reader τ β}
  {texts : α → Language τ} {texts' : β → Language τ}

theorem Exact.map (h : Exact ends first texts) (f : α → β) :
    Exact ends (map f first) fun b => {text | ∃ a, f a = b ∧ text ∈ texts a} where
  sound := by
    intro s b rest hread
    obtain ⟨⟨a, r⟩, ha, heq⟩ := Option.map_eq_some_iff.mp hread
    cases heq
    obtain ⟨text, htext, rfl⟩ := h.sound ha
    exact ⟨text, ⟨a, rfl, htext⟩, rfl⟩
  complete := by
    rintro b text rest ⟨a, rfl, htext⟩ hrest
    simp only [Reading.map, h.complete htext hrest, Option.map_some]

/-- The first text ends where any text of the second begins. -/
theorem Exact.seq (h : Exact ends first texts) (h' : Exact ends' second texts')
    (hends : ∀ b, ∀ text ∈ texts' b, ∀ rest, ends' rest → ends (text ++ rest)) :
    Exact ends' (seq first second) fun p => texts p.1 * texts' p.2 where
  sound := by
    intro s p rest hread
    obtain ⟨⟨a, r⟩, ha, hsecond⟩ := Option.bind_eq_some_iff.mp hread
    obtain ⟨⟨b, r'⟩, hb, heq⟩ := Option.map_eq_some_iff.mp hsecond
    cases heq
    obtain ⟨text, htext, rfl⟩ := h.sound ha
    obtain ⟨text', htext', hr⟩ := h'.sound hb
    refine ⟨text ++ text', Language.append_mem_mul htext htext', ?_⟩
    rw [List.append_assoc]
    exact congrArg (text ++ ·) hr
  complete := by
    rintro ⟨a, b⟩ text rest ⟨t, ht, t', ht', rfl⟩ hrest
    have hfirst := h.complete ht (hends b t' ht' rest hrest)
    simp only [Reading.seq, List.append_assoc, hfirst, Option.bind_some, h'.complete ht' hrest,
      Option.map_some]

end Values

section Words

/-- The words of a language, each as itself. -/
def spelled (L : Language τ) (a : List τ) : Language τ := {text | text = a ∧ text ∈ L}

/-- A letter of a class. -/
def letter (p : τ → Bool) : Reader τ (List τ)
  | c :: rest => if p c then some ([c], rest) else none
  | [] => none

def word [DecidableEq τ] (w : List τ) : Reader τ (List τ) := fun s =>
  if s.take w.length = w then some (w, s.drop w.length) else none

/-- As many letters of a class as there are, and at least one. -/
def span (p : τ → Bool) : Reader τ (List τ) := fun s =>
  if s.takeWhile p = [] then none else some (s.takeWhile p, s.dropWhile p)

/-- As many letters of a class as there are. -/
def skip (p : τ → Bool) : Reader τ Unit := fun s => some ((), s.dropWhile p)

def cat (first second : Reader τ (List τ)) : Reader τ (List τ) :=
  Reading.map (fun p => p.1 ++ p.2) (seq first second)

/-- Something that is there if it starts like it. -/
def optionally (p : τ → Bool) (read : Reader τ (List τ)) : Reader τ (List τ)
  | c :: rest => if p c then read (c :: rest) else some ([], c :: rest)
  | [] => some ([], [])

def letters (p : τ → Bool) : Language τ := {text | ∃ c, p c = true ∧ text = [c]}

def run (p : τ → Bool) : Language τ := {text | ∀ c ∈ text, p c = true}

def nonemptyRun (p : τ → Bool) : Language τ := {text | text ≠ [] ∧ ∀ c ∈ text, p c = true}

theorem nil_mem_run (p : τ → Bool) : [] ∈ run p := by
  intro c hc
  cases hc

theorem exact_letter (p : τ → Bool) : Exact (fun _ => True) (letter p) (spelled (letters p)) where
  sound := by
    intro s a rest hread
    cases s with
    | nil => cases hread
    | cons c s =>
      by_cases hc : p c = true
      · rw [letter, if_pos hc] at hread
        cases hread
        exact ⟨[c], ⟨rfl, c, hc, rfl⟩, rfl⟩
      · rw [letter, if_neg hc] at hread
        cases hread
  complete := by
    rintro a text rest ⟨rfl, c, hc, rfl⟩ -
    exact if_pos hc

theorem exact_word [DecidableEq τ] (w : List τ) :
    Exact (fun _ => True) (word w) (spelled ({w} : Language τ)) where
  sound := by
    intro s a rest hread
    unfold word at hread
    split at hread
    · next htake =>
      cases hread
      refine ⟨w, ⟨rfl, rfl⟩, ?_⟩
      have hsplit := List.take_append_drop w.length s
      rw [htake] at hsplit
      exact hsplit.symm
    · cases hread
  complete := by
    rintro a text rest ⟨rfl, rfl⟩ -
    rw [word, List.take_left, List.drop_left, if_pos rfl]

theorem takeWhile_append {p : τ → Bool} {text rest : List τ} (h : ∀ c ∈ text, p c = true)
    (hrest : HeadNot p rest) :
    (text ++ rest).takeWhile p = text ∧ (text ++ rest).dropWhile p = rest := by
  rw [List.takeWhile_append_of_pos h, List.dropWhile_append_of_pos h]
  cases rest with
  | nil => simp
  | cons c rest => simp [headNot_cons.mp hrest]

theorem exact_span (p : τ → Bool) : Exact (HeadNot p) (span p) (spelled (nonemptyRun p)) where
  sound := by
    intro s a rest hread
    unfold span at hread
    split at hread
    · cases hread
    · next hne =>
      cases hread
      refine ⟨_, ⟨rfl, hne, ?_⟩, (List.takeWhile_append_dropWhile).symm⟩
      exact fun c hc => List.mem_takeWhile_imp hc
  complete := by
    rintro a text rest ⟨rfl, hne, hall⟩ hrest
    obtain ⟨htake, hdrop⟩ := takeWhile_append hall hrest
    rw [span, htake, hdrop, if_neg hne]

theorem exact_skip (p : τ → Bool) : Exact (HeadNot p) (skip p) fun _ => run p where
  sound := by
    rintro s ⟨⟩ rest hread
    cases hread
    exact ⟨s.takeWhile p, fun c hc => List.mem_takeWhile_imp hc,
      (List.takeWhile_append_dropWhile).symm⟩
  complete := by
    rintro ⟨⟩ text rest hall hrest
    rw [skip, (takeWhile_append hall hrest).2]

theorem headNot_of_letter {p q : τ → Bool} {M : Language τ} (hpq : ∀ c, q c = true → p c = false)
    {text : List τ} (h : text ∈ letters q * M) : HeadNot p text := by
  obtain ⟨_, ⟨c, hc, rfl⟩, t, -, rfl⟩ := h
  exact headNot_cons.mpr (hpq c hc)

theorem headNot_of_optional {p q : τ → Bool} {M : Language τ}
    (hpq : ∀ c, q c = true → p c = false) {text : List τ} (h : text ∈ 1 + letters q * M) :
    HeadNot p text := by
  rcases h with rfl | h
  · exact fun c hc => (by cases hc)
  · exact headNot_of_letter hpq h

theorem starts_of_letter {q : τ → Bool} {M : Language τ} {text : List τ}
    (h : text ∈ letters q * M) : ∃ c t, text = c :: t ∧ q c = true := by
  obtain ⟨_, ⟨c, hc, rfl⟩, t, -, rfl⟩ := h
  exact ⟨c, t, rfl, hc⟩

variable {ends ends' : List τ → Prop} {first second : Reader τ (List τ)} {L M : Language τ}

theorem Exact.cat (h : Exact ends first (spelled L)) (h' : Exact ends' second (spelled M))
    (hends : ∀ text ∈ M, ∀ rest, ends' rest → ends (text ++ rest)) :
    Exact ends' (cat first second) (spelled (L * M)) where
  sound := by
    intro s a rest hread
    have hseq := h.seq h' fun b text htext => hends text htext.2
    obtain ⟨text, ⟨⟨t, t'⟩, rfl, _, ⟨rfl, ht⟩, _, ⟨rfl, ht'⟩, rfl⟩, rfl⟩ := (hseq.map _).sound hread
    exact ⟨_, ⟨rfl, Language.append_mem_mul ht ht'⟩, rfl⟩
  complete := by
    rintro a text rest ⟨rfl, t, ht, t', ht', rfl⟩ hrest
    have hseq := h.seq h' fun b text htext => hends text htext.2
    exact (hseq.map _).complete ⟨(t, t'), rfl, t, ⟨rfl, ht⟩, t', ⟨rfl, ht'⟩, rfl⟩ hrest

theorem Exact.optionally {p : τ → Bool} (h : Exact ends first (spelled L))
    (hL : ∀ text ∈ L, ∃ c t, text = c :: t ∧ p c = true) :
    Exact (fun rest => ends rest ∧ HeadNot p rest) (optionally p first) (spelled (1 + L)) where
  sound := by
    intro s a rest hread
    unfold Reading.optionally at hread
    split at hread
    · split at hread
      · obtain ⟨text, ⟨rfl, htext⟩, heq⟩ := h.sound hread
        exact ⟨text, ⟨rfl, .inr htext⟩, heq⟩
      · cases hread
        exact ⟨[], ⟨rfl, .inl rfl⟩, rfl⟩
    · cases hread
      exact ⟨[], ⟨rfl, .inl rfl⟩, rfl⟩
  complete := by
    rintro a text rest ⟨rfl, htext | htext⟩ ⟨hrest, hhead⟩
    · obtain rfl : text = [] := htext
      cases rest with
      | nil => rfl
      | cons c rest =>
        have hc := headNot_cons.mp hhead
        simp [Reading.optionally, hc]
    · obtain ⟨c, t, rfl, hc⟩ := hL text htext
      rw [← h.complete ⟨rfl, htext⟩ hrest]
      simp [Reading.optionally, hc]

end Words

section Lists

/-- With space on both sides. -/
def padded (space : τ → Bool) (L : Language τ) : Language τ := run space * L * run space

theorem mem_padded {space : τ → Bool} {L : Language τ} {text : List τ} :
    text ∈ padded space L ↔
      ∃ l ∈ run space, ∃ m ∈ L, ∃ r ∈ run space, text = l ++ (m ++ r) := by
  simp only [padded, Language.mem_mul]
  constructor
  · rintro ⟨_, ⟨l, hl, m, hm, rfl⟩, r, hr, rfl⟩
    exact ⟨l, hl, m, hm, r, hr, List.append_assoc l m r⟩
  · rintro ⟨l, hl, m, hm, r, hr, rfl⟩
    exact ⟨l ++ m, ⟨l, hl, m, hm, rfl⟩, r, hr, List.append_assoc l m r⟩

theorem mem_padded_self {space : τ → Bool} {L : Language τ} {text : List τ} (h : text ∈ L) :
    text ∈ padded space L :=
  mem_padded.mpr ⟨[], nil_mem_run space, text, h, [], nil_mem_run space, by simp⟩

theorem mem_word {w text : List τ} : text ∈ ({w} : Language τ) ↔ text = w := Iff.rfl

variable (space : τ → Bool) (comma close : τ) (texts : α → Language τ)

/-- Elements with separators between them and the closing letter after the last. -/
def elementTexts : List α → Language τ
  | [] => 0
  | [a] => padded space (texts a) * {[close]}
  | a :: b :: as => padded space (texts a) * {[comma]} * elementTexts (b :: as)

def listTexts : List α → Language τ
  | [] => run space * {[close]}
  | a :: as => elementTexts space comma close texts (a :: as)

variable {space comma close texts}

theorem mem_elementTexts_one {a : α} {text : List τ} :
    text ∈ elementTexts space comma close texts [a] ↔
      ∃ t ∈ padded space (texts a), text = t ++ [close] := by
  simp only [elementTexts, Language.mem_mul, mem_word]
  constructor
  · rintro ⟨t, ht, _, rfl, rfl⟩
    exact ⟨t, ht, rfl⟩
  · rintro ⟨t, ht, rfl⟩
    exact ⟨t, ht, _, rfl, rfl⟩

theorem mem_elementTexts_cons {a : α} {as : List α} (has : as ≠ []) {text : List τ} :
    text ∈ elementTexts space comma close texts (a :: as) ↔
      ∃ t ∈ padded space (texts a), ∃ u ∈ elementTexts space comma close texts as,
        text = t ++ comma :: u := by
  obtain ⟨b, bs, rfl⟩ := List.exists_cons_of_ne_nil has
  simp only [elementTexts, Language.mem_mul, mem_word]
  constructor
  · rintro ⟨_, ⟨t, ht, _, rfl, rfl⟩, u, hu, rfl⟩
    exact ⟨t, ht, u, hu, by simp⟩
  · rintro ⟨t, ht, u, hu, rfl⟩
    exact ⟨t ++ [comma], ⟨t, ht, _, rfl, rfl⟩, u, hu, by simp⟩

theorem length_le_of_mem_elementTexts {as : List α} {text : List τ}
    (h : text ∈ elementTexts space comma close texts as) : as.length ≤ text.length := by
  induction as generalizing text with
  | nil => exact absurd h (Language.notMem_zero text)
  | cons a as ih =>
    by_cases has : as = []
    · subst has
      obtain ⟨t, -, rfl⟩ := mem_elementTexts_one.mp h
      simp
    · obtain ⟨t, -, u, hu, rfl⟩ := (mem_elementTexts_cons has).mp h
      have hlen := ih hu
      simp only [List.length_cons, List.length_append]
      omega

variable {ends : List τ → Prop} {item : Reader τ α}

/-- What a list needs of its items and of its letters. -/
structure Items (space : τ → Bool) (comma close : τ) (ends : List τ → Prop)
    (texts : α → Language τ) : Prop where
  starts : ∀ a, ∀ text ∈ texts a, ∃ c t, text = c :: t ∧ space c = false ∧ c ≠ close
  stops : ∀ c t, space c = true ∨ c = comma ∨ c = close → ends (c :: t)
  comma_not_space : space comma = false
  close_not_space : space close = false
  close_ne_comma : close ≠ comma

/-- One element with its padding, in front of a separator. -/
theorem item_padded (h : Exact ends item texts) (hitems : Items space comma close ends texts) {a : α}
    {t : List τ} (ht : t ∈ padded space (texts a)) {c : τ} (hc : c = comma ∨ c = close)
    (rest : List τ) :
    ∃ r, item ((t ++ c :: rest).dropWhile space) = some (a, r) ∧ r.dropWhile space = c :: rest := by
  obtain ⟨l, hl, m, hm, r, hr, rfl⟩ := mem_padded.mp ht
  obtain ⟨d, m', rfl, hd, -⟩ := hitems.starts a m hm
  have hspace : space c = false := by
    rcases hc with rfl | rfl
    · exact hitems.comma_not_space
    · exact hitems.close_not_space
  have hdrop : (l ++ (d :: m' ++ r) ++ c :: rest).dropWhile space = d :: m' ++ (r ++ c :: rest) := by
    rw [List.append_assoc, List.append_assoc]
    exact (takeWhile_append hl (headNot_cons.mpr hd)).2
  have hstop : ends (r ++ c :: rest) := by
    cases r with
    | nil => exact hitems.stops c rest (.inr hc)
    | cons e r => exact hitems.stops e _ (.inl (hr e List.mem_cons_self))
  refine ⟨r ++ c :: rest, ?_, (takeWhile_append hr (headNot_cons.mpr hspace)).2⟩
  rw [hdrop]
  exact h.complete hm hstop

/-- Behind its padding a list of elements does not start with the closing letter. -/
theorem first_of_mem_elementTexts (hitems : Items space comma close ends texts) {a : α} {as : List α}
    {text : List τ} (htext : text ∈ elementTexts space comma close texts (a :: as)) (rest : List τ) :
    ∃ c r, (text ++ rest).dropWhile space = c :: r ∧ c ≠ close := by
  obtain ⟨t, ht, u, rfl⟩ : ∃ t ∈ padded space (texts a), ∃ u, text = t ++ u := by
    by_cases has : as = []
    · subst has
      obtain ⟨t, ht, rfl⟩ := mem_elementTexts_one.mp htext
      exact ⟨t, ht, _, rfl⟩
    · obtain ⟨t, ht, u, -, rfl⟩ := (mem_elementTexts_cons has).mp htext
      exact ⟨t, ht, _, rfl⟩
  obtain ⟨l, hl, m, hm, r, -, rfl⟩ := mem_padded.mp ht
  obtain ⟨d, m', rfl, hd, hclose⟩ := hitems.starts a m hm
  refine ⟨d, m' ++ r ++ u ++ rest, ?_, hclose⟩
  have hdrop := (takeWhile_append hl (headNot_cons (s := m' ++ r ++ u ++ rest) |>.mpr hd)).2
  rw [← hdrop]
  simp

variable [DecidableEq τ]

variable (space comma close) in
/-- Elements up to the closing letter. -/
def elements (item : Reader τ α) : Nat → Reader τ (List α)
  | 0, _ => none
  | fuel + 1, s =>
    (item (s.dropWhile space)).bind fun p =>
      match p.2.dropWhile space with
      | [] => none
      | c :: rest =>
        if c = close then some ([p.1], rest)
        else if c = comma then (elements item fuel rest).map fun q => (p.1 :: q.1, q.2)
        else none

variable (space comma close) in
/-- The closing letter, or elements up to it. -/
def list (item : Reader τ α) : Reader τ (List α) := fun s =>
  match s.dropWhile space with
  | [] => none
  | c :: rest => if c = close then some ([], rest) else elements space comma close item s.length s

theorem elements_sound (h : Exact ends item texts) {fuel : Nat} {s : List τ} {as : List α}
    {rest : List τ} (hread : elements space comma close item fuel s = some (as, rest)) :
    ∃ text ∈ elementTexts space comma close texts as, s = text ++ rest := by
  induction fuel generalizing s as with
  | zero => cases hread
  | succ fuel ih =>
    obtain ⟨⟨a, r⟩, hitem, hnext⟩ := Option.bind_eq_some_iff.mp hread
    obtain ⟨m, hm, hdrop⟩ := h.sound hitem
    obtain ⟨t, ht, hs⟩ : ∃ t ∈ padded space (texts a), s = t ++ r.dropWhile space := by
      refine ⟨s.takeWhile space ++ (m ++ r.takeWhile space), mem_padded.mpr ?_, ?_⟩
      · exact ⟨_, fun c hc => List.mem_takeWhile_imp hc, m, hm, _,
          fun c hc => List.mem_takeWhile_imp hc, rfl⟩
      · rw [List.append_assoc, List.append_assoc, List.takeWhile_append_dropWhile, ← hdrop,
          List.takeWhile_append_dropWhile]
    dsimp only at hnext
    split at hnext
    · cases hnext
    · next c r' hr =>
      rw [hr] at hs
      split at hnext
      · next hclose =>
        cases hnext
        refine ⟨_, mem_elementTexts_one.mpr ⟨t, ht, rfl⟩, ?_⟩
        rw [hs, hclose]
        simp
      · split at hnext
        · next hcomma =>
          obtain ⟨⟨bs, r''⟩, hbs, heq⟩ := Option.map_eq_some_iff.mp hnext
          cases heq
          obtain ⟨u, hu, rfl⟩ := ih hbs
          have hne : bs ≠ [] := by
            rintro rfl
            exact Language.notMem_zero u hu
          refine ⟨_, (mem_elementTexts_cons hne).mpr ⟨t, ht, u, hu, rfl⟩, ?_⟩
          rw [hs, hcomma]
          simp
        · cases hnext

theorem elements_complete (h : Exact ends item texts) (hitems : Items space comma close ends texts)
    {as : List α} {text : List τ} (htext : text ∈ elementTexts space comma close texts as)
    (rest : List τ) {fuel : Nat} (hfuel : as.length ≤ fuel) :
    elements space comma close item fuel (text ++ rest) = some (as, rest) := by
  induction as generalizing text fuel with
  | nil => exact absurd htext (Language.notMem_zero text)
  | cons a as ih =>
    obtain ⟨fuel, rfl⟩ : ∃ n, fuel = n + 1 := ⟨fuel - 1, by simp at hfuel; omega⟩
    by_cases has : as = []
    · subst has
      obtain ⟨t, ht, rfl⟩ := mem_elementTexts_one.mp htext
      obtain ⟨r, hitem, hdrop⟩ := item_padded h hitems ht (.inr rfl) rest
      rw [List.append_assoc, List.singleton_append, elements, hitem, Option.bind_some]
      simp only [hdrop, if_true]
    · obtain ⟨t, ht, u, hu, rfl⟩ := (mem_elementTexts_cons has).mp htext
      obtain ⟨r, hitem, hdrop⟩ := item_padded h hitems ht (.inl rfl) (u ++ rest)
      have hrest := ih hu (Nat.le_of_succ_le_succ hfuel)
      rw [List.append_assoc, List.cons_append, elements, hitem, Option.bind_some]
      simp only [hdrop, if_neg hitems.close_ne_comma.symm, if_true, hrest, Option.map_some]

theorem Exact.list (h : Exact ends item texts) (hitems : Items space comma close ends texts) :
    Exact (fun _ => True) (list space comma close item) (listTexts space comma close texts) where
  sound := by
    intro s as rest hread
    unfold Reading.list at hread
    split at hread
    · cases hread
    · next c r hdrop =>
      split at hread
      · next hclose =>
        cases hread
        refine ⟨s.takeWhile space ++ [close], ?_, ?_⟩
        · exact Language.append_mem_mul (fun c hc => List.mem_takeWhile_imp hc) (mem_word.mpr rfl)
        · rw [List.append_assoc, List.singleton_append, ← hclose, ← hdrop,
            List.takeWhile_append_dropWhile]
      · obtain ⟨text, htext, hs⟩ := elements_sound h hread
        cases as with
        | nil => exact absurd htext (Language.notMem_zero text)
        | cons a as => exact ⟨text, htext, hs⟩
  complete := by
    intro as text rest htext _
    cases as with
    | nil =>
      obtain ⟨l, hl, _, rfl, rfl⟩ := htext
      have hdrop := (takeWhile_append hl (headNot_cons (s := rest) |>.mpr hitems.close_not_space)).2
      rw [Reading.list, List.append_assoc, List.singleton_append, hdrop]
      simp only [if_true]
    | cons a as =>
      have hlen := length_le_of_mem_elementTexts htext
      obtain ⟨c, r, hdrop, hc⟩ := first_of_mem_elementTexts hitems htext rest
      rw [Reading.list, hdrop]
      simp only [if_neg hc]
      apply elements_complete h hitems htext
      rw [List.length_append]
      omega

end Lists

end HelixProxy.Reading
