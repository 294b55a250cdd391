import HelixProxy.JsonQuote
import HelixProxy.JsonStruct
import HelixProxy.Numerals

/-!
# Objects as `encoding/json` writes them

A struct is written member by member without white space, and `omitempty` leaves a
member out where it has the zero value. What is written is a text of the object,
and a decoder with fields of the same names stores every member again: one that
was left out is the zero value that the decoder starts with.
-/

namespace HelixProxy.Strconv

open JsonText Reading
set_option autoImplicit false

theorem head_toDigits {n : Nat} (h : n ≠ 0) : (Nat.toDigits 10 n).head? ≠ some '0' := by
  induction n using Nat.strongRecOn with
  | ind n ih =>
    by_cases hsmall : n < 10
    · rw [Nat.toDigits_of_lt_base hsmall]
      simpa using h
    · have hlarge : 10 ≤ n := by omega
      rw [Nat.toDigits_of_base_le (by decide) hlarge,
        List.head?_append_of_ne_nil _ Nat.toDigits_ne_nil]
      exact ih (n / 10) (by omega) (by omega)

theorem head_itoa {n : Nat} (h : n ≠ 0) : (itoa n).head? ≠ some 48 := by
  have hnonneg : ¬(n : Int) < 0 := by omega
  rw [itoa, if_neg hnonneg, List.nil_append, Int.natAbs_natCast, List.head?_map]
  intro hzero
  obtain ⟨c, hc, hdigit⟩ := Option.map_eq_some_iff.mp hzero
  have hmem := Nat.isDigit_of_mem_toDigits (by decide) (by decide) (List.mem_of_head? hc)
  have hcode : c.toNat = 48 := by rw [← (digit_of_isDigit hmem).1, hdigit]; rfl
  have hchar : c = '0' := Char.toNat_inj.mp hcode
  exact head_toDigits h (hchar ▸ hc)

theorem itoa_mem_integers (n : Nat) : itoa n ∈ integers := by
  by_cases hn : n = 0
  · exact .inl (by rw [hn]; rfl)
  · exact .inr ⟨head_itoa hn, digits_itoa n⟩

theorem itoa_mem_numbers (n : Int) : itoa n ∈ numbers := by
  have hend : ([] : Bytes) ∈ fractions * exponents := ⟨[], .inl rfl, [], .inl rfl, rfl⟩
  have hnumber : ∀ m : Nat, itoa m ∈ integers * (fractions * exponents) :=
    fun m => ⟨itoa m, itoa_mem_integers m, [], hend, List.append_nil _⟩
  by_cases hn : n < 0
  · obtain ⟨m, rfl⟩ : ∃ m : Nat, n = -(m : Int) := ⟨n.natAbs, by omega⟩
    have hnonneg : ¬(m : Int) < 0 := by omega
    refine ⟨[45], .inr ⟨45, rfl, rfl⟩, itoa m, hnumber m, ?_⟩
    rw [itoa, itoa, if_pos hn, if_neg hnonneg, Int.natAbs_neg]
    rfl
  · obtain ⟨m, rfl⟩ := Int.eq_ofNat_of_zero_le (Int.not_lt.mp hn)
    exact ⟨[], .inl rfl, itoa m, hnumber m, rfl⟩

end HelixProxy.Strconv

namespace HelixProxy.JsonText

open Reading Strconv Utf8
set_option autoImplicit false

/-- A member of an object, with the text that its value is written with. -/
structure Member where
  key : Bytes
  value : Value
  text : Bytes

namespace Member

def string (key s : Bytes) : Member := ⟨key, .string (escaped s), appendString s⟩

def int (key : Bytes) (n : Int) : Member := ⟨key, .number (itoa n), itoa n⟩

def bool (key : Bytes) (b : Bool) : Member :=
  ⟨key, .bool b, if b then lit "true" else lit "false"⟩

/-- A member with `omitempty`. -/
def omitted (m : Member) (empty : Bool) : List Member := if empty then [] else [m]

def entry (m : Member) : Bytes × Value := (m.key, m.value)

def write (m : Member) : Bytes := appendString m.key ++ 58 :: m.text

/-- What is written for the member is its key and a text of its value. -/
structure Faithful (depth : Nat) (m : Member) : Prop where
  key : WellFormed m.key
  text : m.text ∈ texts depth m.value

section

variable {depth : Nat} {key s : Bytes} (hkey : WellFormed key)
include hkey

theorem faithful_string (hs : WellFormed s) : (string key s).Faithful depth where
  key := hkey
  text := by
    rw [string, texts]
    exact ⟨isBody_escaped hs, rfl⟩

theorem faithful_int (n : Int) : (int key n).Faithful depth where
  key := hkey
  text := by
    rw [int, texts]
    exact ⟨rfl, itoa_mem_numbers n⟩

theorem faithful_bool (b : Bool) : (bool key b).Faithful depth where
  key := hkey
  text := by
    cases b with
    | false =>
      rw [bool, texts]
      rfl
    | true =>
      rw [bool, texts]
      rfl

end

theorem Faithful.omitted {depth : Nat} {m : Member} (h : m.Faithful depth) (empty : Bool) :
    ∀ m' ∈ m.omitted empty, m'.Faithful depth := by
  intro m' hm'
  unfold Member.omitted at hm'
  split at hm'
  · cases hm'
  · rwa [List.mem_singleton.mp hm']

theorem Faithful.write_mem {depth : Nat} {m : Member} (h : m.Faithful depth) :
    m.write ∈ padded isSpace (memberTexts (texts depth) m.entry) := by
  have hspace := nil_mem_run isSpace
  have hkey := appendString_mem h.key
  apply mem_padded_self
  exact ⟨_, hkey, _, ⟨[], hspace, _, ⟨[58], rfl, _, ⟨[], hspace, _, h.text, rfl⟩, rfl⟩, rfl⟩, rfl⟩

end Member

def writeMembers : List Member → Bytes
  | [] => []
  | [m] => m.write
  | m :: next :: rest => m.write ++ 44 :: writeMembers (next :: rest)

def writeObject (members : List Member) : Bytes := 123 :: (writeMembers members ++ [125])

theorem writeMembers_mem {depth : Nat} {m : Member} {members : List Member}
    (h : ∀ x ∈ m :: members, x.Faithful depth) :
    writeMembers (m :: members) ++ [125] ∈
      elementTexts isSpace 44 125 (memberTexts (texts depth)) ((m :: members).map Member.entry) := by
  induction members generalizing m with
  | nil => exact mem_elementTexts_one.mpr ⟨_, (h m List.mem_cons_self).write_mem, rfl⟩
  | cons next rest ih =>
    have hrest := ih fun x hx => h x (List.mem_cons_of_mem m hx)
    rw [List.map_cons]
    refine (mem_elementTexts_cons (List.cons_ne_nil _ _)).mpr
      ⟨_, (h m List.mem_cons_self).write_mem, _, hrest, ?_⟩
    simp only [writeMembers, List.append_assoc, List.cons_append]

/-- What is written for an object is a text of it. -/
theorem writeObject_mem {depth : Nat} {members : List Member}
    (h : ∀ m ∈ members, m.Faithful depth) :
    writeObject members ∈ texts (depth + 1) (.object (members.map Member.entry)) := by
  refine ⟨[123], rfl, writeMembers members ++ [125], ?_, rfl⟩
  cases members with
  | nil => exact ⟨[], nil_mem_run _, _, rfl, rfl⟩
  | cons m members => exact writeMembers_mem h

section Decoding

variable {δ : Type} {fields : List (StructField δ)} {unknown : δ → Option δ} {d d' d'' : δ}

/-- Decoding the members takes one struct to the other. -/
def Decodes (fields : List (StructField δ)) (unknown : δ → Option δ) (members : List Member)
    (d d' : δ) : Prop :=
  (members.map Member.entry).foldlM (decodeMember fields unknown) d = some d'

theorem Decodes.congr {members : List Member} (h : Decodes fields unknown members d d')
    (heq : d' = d'') : Decodes fields unknown members d d'' := heq ▸ h

theorem Decodes.append {first second : List Member} (h : Decodes fields unknown first d d')
    (h' : Decodes fields unknown second d' d'') :
    Decodes fields unknown (first ++ second) d d'' := by
  unfold Decodes at h h' ⊢
  rw [List.map_append, List.foldlM_append, h]
  exact h'

theorem decodes_one {m : Member} {f : StructField δ} {store : δ → δ}
    (hf : lookup fields m.key = some f) (hset : f.set m.value = some store) :
    Decodes fields unknown [m] d (store d) := by
  have hmember : decodeMember fields unknown d m.entry = some (store d) := by
    rw [decodeMember, show lookup fields m.entry.1 = some f from hf]
    exact congrArg (Option.map fun store => store d) hset
  simp only [Decodes, List.map_cons, List.map_nil, List.foldlM_cons, List.foldlM_nil, hmember]
  rfl

theorem Decodes.omitted {m : Member} {empty : Bool} (h : Decodes fields unknown [m] d d')
    (hempty : empty = true → d' = d) : Decodes fields unknown (m.omitted empty) d d' := by
  cases empty with
  | false => exact h
  | true =>
    rw [hempty rfl]
    rfl

theorem decodes_string {key : Bytes} {put : Bytes → δ → δ}
    (hf : lookup fields key = some (.text key put)) {s : Bytes} (hs : WellFormed s) :
    Decodes fields unknown [.string key s] d (put s d) := by
  apply decodes_one hf
  exact congrArg (fun read => some (put read)) (unquote_escaped hs)

/-- An empty text is left out, and what is decoded into has it already. -/
theorem decodes_nonempty {key : Bytes} {put : Bytes → δ → δ}
    (hf : lookup fields key = some (.text key put)) (hzero : put [] d = d) {s : Bytes}
    (hs : WellFormed s) :
    Decodes fields unknown ((Member.string key s).omitted s.isEmpty) d (put s d) := by
  apply (decodes_string hf hs).omitted
  intro hempty
  rw [List.isEmpty_iff.mp hempty, hzero]

theorem decodes_int {key : Bytes} {put : Int → δ → δ}
    (hf : lookup fields key = some (.int key put)) {n : Int} (hn : minInt64 ≤ n ∧ n ≤ maxInt64) :
    Decodes fields unknown [.int key n] d (put n d) := by
  apply decodes_one hf
  have hatoi : atoi (itoa n) = some n := atoi_eq_some_iff.mpr ⟨numeral_itoa n, hn⟩
  exact congrArg (Option.map put) hatoi

theorem decodes_bool {key : Bytes} {put : Bool → δ → δ}
    (hf : lookup fields key = some (.bool key put)) (b : Bool) :
    Decodes fields unknown [.bool key b] d (put b d) :=
  decodes_one hf rfl

/-- The nesting left to the members of an object. -/
def memberDepth : Nat := 9999

/-- The decoder finds what was written in front of anything else. -/
theorem readDocument_writeObject {members : List Member}
    (h : ∀ m ∈ members, m.Faithful memberDepth) (rest : Bytes) :
    readDocument (writeObject members ++ rest) = some (.object (members.map Member.entry), rest) := by
  have htext : writeObject members ∈ texts maxNestingDepth (.object (members.map Member.entry)) :=
    writeObject_mem h
  exact readValue_dropWhile (nil_mem_run _) htext (by simp)

theorem unmarshal_writeObject {members : List Member} {zero : δ}
    (hmembers : ∀ m ∈ members, m.Faithful memberDepth) (h : Decodes fields some members zero d) :
    unmarshal fields zero (writeObject members) = some d := by
  have hread := readDocument_writeObject hmembers []
  rw [List.append_nil] at hread
  simp only [unmarshal, hread, List.all_nil, if_true]
  exact h

end Decoding

end HelixProxy.JsonText
