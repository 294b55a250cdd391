import Mathlib.Data.List.Nodup

/-!
# Upserts on a table of rows

A table is a list of rows with a natural key and an identifier. An upsert puts
a row in the place of the one that has its key, which keeps its identifier, or
adds it under a new one. Keys and identifiers stay without repetitions, and an
identifier stays with the key it was made for.
-/

namespace HelixProxy.Upsert

set_option autoImplicit false

universe u v w

variable {α : Type u} {κ : Type v} {ι : Type w} [DecidableEq κ]

/-- `put i` is the new row under the identifier `i`. -/
structure Row (key : α → κ) (ident : α → ι) where
  put : ι → α
  naturalKey : κ
  key_put : ∀ i, key (put i) = naturalKey
  ident_put : ∀ i, ident (put i) = i

variable {key : α → κ} {ident : α → ι}

inductive Applied (row : Row key ident) (newID : ι) (rows : List α) : List α → Prop
  | replaced : (∃ r ∈ rows, key r = row.naturalKey) → Applied row newID rows
      (rows.map fun r => if key r = row.naturalKey then row.put (ident r) else r)
  | added : (∀ r ∈ rows, key r ≠ row.naturalKey ∧ ident r ≠ newID) →
      Applied row newID rows (rows ++ [row.put newID])

theorem nodup_concat {β : Type v} {rows : List α} {f : α → β} (h : (rows.map f).Nodup) {r : α}
    (hr : ∀ x ∈ rows, f x ≠ f r) : ((rows ++ [r]).map f).Nodup := by
  rw [List.map_append, List.nodup_append]
  refine ⟨h, List.nodup_singleton _, ?_⟩
  intro x hx y hy
  obtain ⟨old, hold, rfl⟩ := List.mem_map.mp hx
  rw [List.map_cons, List.map_nil, List.mem_singleton] at hy
  exact hy ▸ hr old hold

/-- Replacing rows by ones with the same entry leaves the column as it was. -/
theorem map_replaced {β : Type v} {rows : List α} {f : α → β} {p : α → Prop} [DecidablePred p]
    {g : α → α} (h : ∀ r ∈ rows, p r → f (g r) = f r) :
    (rows.map fun r => if p r then g r else r).map f = rows.map f := by
  rw [List.map_map]
  apply List.map_congr_left
  intro r hr
  simp only [Function.comp_apply]
  split
  · next hp => exact h r hr hp
  · rfl

/-- Every identifier has the key it had before, or is a fresh one. -/
def Bound (key : α → κ) (ident : α → ι) (fresh : ι → Prop) (rows rows' : List α) : Prop :=
  ∀ r ∈ rows', (∃ old ∈ rows, ident old = ident r ∧ key old = key r) ∨ fresh (ident r)

section Bound

omit [DecidableEq κ]

variable {fresh : ι → Prop} {rows rows' rows'' : List α}

theorem bound_of_subset (h : rows' ⊆ rows) : Bound key ident fresh rows rows' :=
  fun r hr => .inl ⟨r, h hr, rfl, rfl⟩

theorem Bound.mono {fresh' : ι → Prop} (h : Bound key ident fresh rows rows')
    (hfresh : ∀ i, fresh i → fresh' i) : Bound key ident fresh' rows rows' :=
  fun r hr => (h r hr).imp_right (hfresh _)

theorem Bound.trans (h : Bound key ident fresh rows rows') (h' : Bound key ident fresh rows' rows'') :
    Bound key ident fresh rows rows'' := by
  intro r hr
  rcases h' r hr with ⟨mid, hmid, hid, hkey⟩ | hfresh
  · rcases h mid hmid with ⟨old, hold, hid', hkey'⟩ | hfresh
    · exact .inl ⟨old, hold, hid'.trans hid, hkey'.trans hkey⟩
    · exact .inr (hid ▸ hfresh)
  · exact .inr hfresh

/-- Rows that share an identifier share the key, unless the identifier was made
in between. -/
theorem Bound.key_eq (h : Bound key ident fresh rows rows') (hids : (rows.map ident).Nodup)
    {old r : α} (hold : old ∈ rows) (hr : r ∈ rows') (hid : ident old = ident r)
    (hnew : ¬fresh (ident old)) : key old = key r := by
  rcases h r hr with ⟨old', hold', hid', hkey⟩ | hfresh
  · rw [List.inj_on_of_nodup_map hids hold hold' (hid.trans hid'.symm), hkey]
  · exact absurd (hid ▸ hfresh) hnew

end Bound

section Laws

variable {row : Row key ident} {newID : ι} {rows rows' : List α}
  (h : Applied row newID rows rows')
include h

/-- Every other row was there before. -/
theorem Applied.of_mem {r : α} (hr : r ∈ rows') : r ∈ rows ∨ ∃ i, r = row.put i := by
  cases h with
  | replaced _ =>
    obtain ⟨old, hold, rfl⟩ := List.mem_map.mp hr
    split
    · exact .inr ⟨ident old, rfl⟩
    · exact .inl hold
  | added _ =>
    rcases List.mem_append.mp hr with hr | hr
    · exact .inl hr
    · exact .inr ⟨newID, List.mem_singleton.mp hr⟩

/-- An identifier comes with its key from before, or it is the new one. -/
theorem Applied.bound : Bound key ident (· = newID) rows rows' := by
  intro r hr
  cases h with
  | replaced _ =>
    obtain ⟨old, hold, rfl⟩ := List.mem_map.mp hr
    left
    split
    · next hkey => exact ⟨old, hold, (row.ident_put _).symm, hkey.trans (row.key_put _).symm⟩
    · exact ⟨old, hold, rfl, rfl⟩
  | added _ =>
    rcases List.mem_append.mp hr with hr | hr
    · exact .inl ⟨r, hr, rfl, rfl⟩
    · rw [List.mem_singleton.mp hr]
      exact .inr (row.ident_put newID)

theorem Applied.ident_mem {old : α} (hold : old ∈ rows) : ∃ r ∈ rows', ident r = ident old := by
  cases h with
  | replaced _ =>
    refine ⟨_, List.mem_map_of_mem hold, ?_⟩
    split
    · exact row.ident_put _
    · rfl
  | added _ => exact ⟨old, List.mem_append_left _ hold, rfl⟩

theorem Applied.nodup_key (hkeys : (rows.map key).Nodup) : (rows'.map key).Nodup := by
  cases h with
  | replaced _ =>
    rw [map_replaced fun r _ hkey => (row.key_put _).trans hkey.symm]
    exact hkeys
  | added hnew =>
    refine nodup_concat hkeys fun r hr => ?_
    rw [row.key_put]
    exact (hnew r hr).1

theorem Applied.nodup_ident (hids : (rows.map ident).Nodup) : (rows'.map ident).Nodup := by
  cases h with
  | replaced _ =>
    rw [map_replaced fun r _ _ => row.ident_put (ident r)]
    exact hids
  | added hnew =>
    refine nodup_concat hids fun r hr => ?_
    rw [row.ident_put]
    exact (hnew r hr).2

end Laws

section Function

variable (row : Row key ident) (newID : ι) (rows : List α)

/-- The rows after an upsert and the identifier of the row. -/
def upsert : List α × ι :=
  match rows.find? (key · = row.naturalKey) with
  | some r => (rows.map fun x => if key x = row.naturalKey then row.put (ident x) else x, ident r)
  | none => (rows ++ [row.put newID], newID)

variable {row newID rows}

theorem upsert_found {r : α} (h : rows.find? (key · = row.naturalKey) = some r) :
    upsert row newID rows =
      (rows.map fun x => if key x = row.naturalKey then row.put (ident x) else x, ident r) := by
  rw [upsert, h]

theorem upsert_added (h : rows.find? (key · = row.naturalKey) = none) :
    upsert row newID rows = (rows ++ [row.put newID], newID) := by
  rw [upsert, h]

theorem found {r : α} (h : rows.find? (key · = row.naturalKey) = some r) :
    r ∈ rows ∧ key r = row.naturalKey := by
  have hkey := List.find?_some h
  exact ⟨List.mem_of_find?_eq_some h, of_decide_eq_true hkey⟩

/-- An upsert that is made again finds its row and leaves everything as it is. -/
theorem upsert_upsert (newID' : ι) :
    upsert row newID' (upsert row newID rows).1 = upsert row newID rows := by
  let replace (x : α) : α := if key x = row.naturalKey then row.put (ident x) else x
  have hkey : ∀ x, key (replace x) = row.naturalKey ↔ key x = row.naturalKey := by
    intro x
    dsimp only [replace]
    split
    · next h => simp [row.key_put, h]
    · exact Iff.rfl
  have htwice : ∀ x, replace (replace x) = replace x := by
    intro x
    dsimp only [replace]
    split
    · rw [if_pos (row.key_put _), row.ident_put]
    · rfl
  cases hfind : rows.find? (key · = row.naturalKey) with
  | some r =>
    have hr := (found hfind).2
    have hpred : ((key · = row.naturalKey : α → Bool) ∘ replace) = (key · = row.naturalKey) :=
      funext fun x => decide_eq_decide.mpr (hkey x)
    have hagain : (rows.map replace).find? (key · = row.naturalKey) = some (replace r) := by
      rw [List.find?_map, hpred, hfind, Option.map_some]
    have hrow : ident (replace r) = ident r := by
      dsimp only [replace]
      rw [if_pos hr, row.ident_put]
    have hone : upsert row newID rows = (rows.map replace, ident r) := upsert_found hfind
    rw [hone, upsert_found hagain]
    refine Prod.ext ?_ hrow
    dsimp only
    rw [List.map_map]
    exact List.map_congr_left fun x _ => htwice x
  | none =>
    have hother : ∀ x ∈ rows, key x ≠ row.naturalKey := by
      intro x hx
      simpa using List.find?_eq_none.mp hfind x hx
    have hagain : (rows ++ [row.put newID]).find? (key · = row.naturalKey) =
        some (row.put newID) := by
      rw [List.find?_append, hfind]
      simp [row.key_put]
    rw [upsert_added hfind, upsert_found hagain]
    refine Prod.ext ?_ (row.ident_put newID)
    dsimp only
    rw [List.map_append, List.map_cons, List.map_nil, if_pos (row.key_put _), row.ident_put]
    refine congrArg (· ++ [row.put newID]) ?_
    exact (List.map_congr_left fun x hx => if_neg (hother x hx)).trans (List.map_id rows)

/-- Upserting a row that is there changes nothing. -/
theorem upsert_of_mem (hkeys : (rows.map key).Nodup) {r : α} (hr : r ∈ rows)
    (hsame : row.put (ident r) = r) : upsert row newID rows = (rows, ident r) := by
  have hkey : key r = row.naturalKey := by rw [← hsame, row.key_put]
  have honly : ∀ x ∈ rows, key x = row.naturalKey → x = r := fun x hx hx' =>
    List.inj_on_of_nodup_map hkeys hx hr (hx'.trans hkey.symm)
  have hfound : (rows.find? (key · = row.naturalKey)).isSome :=
    List.find?_isSome.mpr ⟨r, hr, decide_eq_true hkey⟩
  obtain ⟨x, hx⟩ := Option.isSome_iff_exists.mp hfound
  have hxr : x = r := honly x (found hx).1 (found hx).2
  rw [upsert_found hx, hxr]
  refine Prod.ext ?_ rfl
  refine (List.map_congr_left fun y hy => ?_).trans (List.map_id rows)
  split
  · next hy' => rw [honly y hy hy', hsame, id]
  · rfl

/-- What holds of the rows and of the new row, under an identifier that was there or the
fresh one, holds of the rows after the upsert. -/
theorem upsert_induction {motive : α → Prop} (hrows : ∀ r ∈ rows, motive r)
    (hput : ∀ i, i = newID ∨ (∃ old ∈ rows, ident old = i) → motive (row.put i)) :
    ∀ r ∈ (upsert row newID rows).1, motive r := by
  intro r hr
  unfold upsert at hr
  split at hr
  · obtain ⟨old, hold, rfl⟩ := List.mem_map.mp hr
    split
    · exact hput (ident old) (.inr ⟨old, hold, rfl⟩)
    · exact hrows old hold
  · rcases List.mem_append.mp hr with hr | hr
    · exact hrows r hr
    · rw [List.mem_singleton.mp hr]
      exact hput newID (.inl rfl)

/-- After an upsert a row has the key. -/
theorem upsert_holds : ∃ r ∈ (upsert row newID rows).1, key r = row.naturalKey := by
  unfold upsert
  split
  · next r hfind =>
    obtain ⟨hr, hkey⟩ := found hfind
    exact ⟨_, List.mem_map_of_mem hr, by rw [if_pos hkey, row.key_put]⟩
  · exact ⟨_, List.mem_append_right _ List.mem_cons_self, row.key_put newID⟩

end Function

section Place

variable (slot : α → Bool) (row : α) (rows : List α)

/-- The row in the place of those in its slot, or added. -/
def place : List α :=
  if rows.any slot then rows.map fun x => if slot x then row else x else rows ++ [row]

variable {slot row rows}

theorem place_any (h : slot row = true) : (place slot row rows).any slot = true := by
  unfold place
  split
  · next hfound =>
    obtain ⟨x, hx, hxs⟩ := List.any_eq_true.mp hfound
    exact List.any_eq_true.mpr ⟨_, List.mem_map_of_mem hx, by rw [if_pos hxs, h]⟩
  · exact List.any_eq_true.mpr ⟨row, List.mem_append_right _ List.mem_cons_self, h⟩

theorem of_mem_place {x : α} (hx : x ∈ place slot row rows) : x = row ∨ x ∈ rows ∧ slot x = false := by
  unfold place at hx
  split at hx
  · obtain ⟨y, hy, rfl⟩ := List.mem_map.mp hx
    split
    · exact .inl rfl
    · next hslot => exact .inr ⟨hy, by simpa using hslot⟩
  · next hfound =>
    rcases List.mem_append.mp hx with hx | hx
    · refine .inr ⟨hx, ?_⟩
      simpa using List.any_eq_false.mp (by simpa using hfound) x hx
    · exact .inl (List.mem_singleton.mp hx)

theorem place_of_mem (h : rows.any slot = true) (hrow : ∀ x ∈ rows, slot x = true → x = row) :
    place slot row rows = rows := by
  rw [place, if_pos h]
  refine (List.map_congr_left fun x hx => ?_).trans (List.map_id rows)
  split
  · next hslot => exact (hrow x hx hslot).symm
  · rfl

theorem place_place (h : slot row = true) :
    place slot row (place slot row rows) = place slot row rows := by
  refine place_of_mem (place_any h) fun x hx hslot => ?_
  rcases of_mem_place hx with rfl | ⟨-, hfree⟩
  · rfl
  · rw [hslot] at hfree
    cases hfree

end Place

end HelixProxy.Upsert
