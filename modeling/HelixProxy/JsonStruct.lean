import HelixProxy.JsonText

/-!
# Objects decoded into structs

`encoding/json` into a struct: every member of the object goes to the field of
its name, or else to the one of the same name but for the case of its letters.
`null` leaves what it meets as it is.
-/

namespace HelixProxy.JsonText

open Reading Utf8
set_option autoImplicit false

variable {δ : Type}

/-- A field and what a value stores in it; `none` is a value of another type. -/
structure StructField (δ : Type) where
  name : Bytes
  set : Value → Option (δ → δ)

def StructField.text (name : Bytes) (put : Bytes → δ → δ) : StructField δ where
  name := name
  set
    | .null => some id
    | .string body => some (put (unquote body))
    | _ => none

theorem StructField.text_set {name : Bytes} {put : Bytes → δ → δ} {v : Value} {store : δ → δ}
    (h : (StructField.text name put).set v = some store) :
    store = id ∨ ∃ body, store = put (unquote body) := by
  cases v with
  | null => exact .inl (Option.some.inj h).symm
  | string body => exact .inr ⟨body, (Option.some.inj h).symm⟩
  | bool b => cases h
  | number literal => cases h
  | array items => cases h
  | object members => cases h

def StructField.bool (name : Bytes) (put : Bool → δ → δ) : StructField δ where
  name := name
  set
    | .null => some id
    | .bool b => some (put b)
    | _ => none

/-- An `int`: the literal has to be an integer that fits. -/
def StructField.int (name : Bytes) (put : Int → δ → δ) : StructField δ where
  name := name
  set
    | .null => some id
    | .number literal => (Strconv.atoi literal).map put
    | _ => none

/-- `foldRune`, as far as a name of ASCII letters can tell: beyond ASCII only the
Kelvin sign and the long s fold to a letter. -/
def foldRune (r : Nat) : Nat :=
  if 97 ≤ r ∧ r ≤ 122 then r - 32
  else if r = 0x212A then 75
  else if r = 0x17F then 83
  else r

def foldName (s : Bytes) : List Nat := (runes s).map foldRune

def lookup (fields : List (StructField δ)) (key : Bytes) : Option (StructField δ) :=
  (fields.find? (·.name == key)).or (fields.find? fun f => foldName f.name == foldName key)

/-- One member; `unknown` says what becomes of a key that no field has. -/
def decodeMember (fields : List (StructField δ)) (unknown : δ → Option δ) (d : δ)
    (m : Bytes × Value) : Option δ :=
  match lookup fields m.1 with
  | none => unknown d
  | some f => (f.set m.2).map fun store => store d

def decodeStruct (fields : List (StructField δ)) (unknown : δ → Option δ) (zero : δ) :
    Value → Option δ
  | .null => some zero
  | .object members => members.foldlM (decodeMember fields unknown) zero
  | _ => none

/-- `json.Unmarshal`: one value and nothing else; unknown members are passed over. -/
def unmarshal (fields : List (StructField δ)) (zero : δ) (data : Bytes) : Option δ :=
  match readDocument data with
  | none => none
  | some (v, rest) => if rest.all isSpace then decodeStruct fields some zero v else none

/-- The member has a field that takes its value. -/
def Admitted (fields : List (StructField δ)) (m : Bytes × Value) : Prop :=
  ∃ f, lookup fields m.1 = some f ∧ (f.set m.2).isSome

theorem decodeMember_isSome_iff (fields : List (StructField δ)) (d : δ) (m : Bytes × Value) :
    (decodeMember fields (fun _ => none) d m).isSome ↔ Admitted fields m := by
  unfold decodeMember Admitted
  cases lookup fields m.1 with
  | none => simp
  | some f => simp

/-- Where unknown members are refused, the members that are stored are those with a
field that takes them. -/
theorem decodeMembers_isSome_iff (fields : List (StructField δ)) (d : δ)
    (members : List (Bytes × Value)) :
    (members.foldlM (decodeMember fields fun _ => none) d).isSome ↔
      ∀ m ∈ members, Admitted fields m := by
  induction members generalizing d with
  | nil => simp
  | cons m members ih =>
    rw [List.forall_mem_cons, ← decodeMember_isSome_iff fields d m, List.foldlM_cons]
    cases hm : decodeMember fields (fun _ => none) d m with
    | none => simp
    | some d' => simpa using ih d'

theorem mem_of_lookup {fields : List (StructField δ)} {key : Bytes} {f : StructField δ}
    (h : lookup fields key = some f) : f ∈ fields := by
  rcases Option.or_eq_some_iff.mp h with hexact | ⟨-, hfolded⟩
  · exact List.mem_of_find?_eq_some hexact
  · exact List.mem_of_find?_eq_some hfolded

section Induction

variable {fields : List (StructField δ)} {motive : δ → Prop}
  (hset : ∀ f ∈ fields, ∀ v store, f.set v = some store → ∀ d, motive d → motive (store d))
include hset

theorem decodeMember_induction {m : Bytes × Value} {d d' : δ} (hd : motive d)
    (h : decodeMember fields some d m = some d') : motive d' := by
  unfold decodeMember at h
  split at h
  · cases h
    exact hd
  · next f hf =>
    obtain ⟨store, hstore, rfl⟩ := Option.map_eq_some_iff.mp h
    exact hset f (mem_of_lookup hf) m.2 store hstore d hd

theorem decodeMembers_induction {members : List (Bytes × Value)} {d d' : δ} (hd : motive d)
    (h : members.foldlM (decodeMember fields some) d = some d') : motive d' := by
  induction members generalizing d with
  | nil =>
    cases h
    exact hd
  | cons m members ih =>
    rw [List.foldlM_cons] at h
    obtain ⟨d₁, hfirst, hrest⟩ := Option.bind_eq_some_iff.mp h
    exact ih (decodeMember_induction hset hd hfirst) hrest

/-- What every field keeps when it stores a value holds of the struct that is decoded. -/
theorem decodeStruct_induction {zero : δ} (hzero : motive zero) {v : Value} {d : δ}
    (h : decodeStruct fields some zero v = some d) : motive d := by
  cases v with
  | null =>
    cases h
    exact hzero
  | object members => exact decodeMembers_induction hset hzero h
  | bool b => cases h
  | number literal => cases h
  | string body => cases h
  | array items => cases h

end Induction

theorem ne_number_of_decodeStruct {fields : List (StructField δ)} {unknown : δ → Option δ}
    {zero d : δ} {v : Value} (h : decodeStruct fields unknown zero v = some d) (literal : Bytes) :
    v ≠ .number literal := by
  rintro rfl
  cases h

end HelixProxy.JsonText
