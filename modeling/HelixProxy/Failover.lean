import HelixProxy.Routing
import Mathlib.Data.Int.ConditionallyCompleteOrder
import Mathlib.Data.List.MinMax

/-!
# Tier failover

`internal/breaker/selection.go`: among a target's tunnels, the one of least tier
whose breaker is closed and whose health is up. The loop is a running minimum; it
is compared with `List.argmin` over the eligible entries, and on the rows of the
store with the compiler's own choice of a primary tunnel.
-/

namespace HelixProxy.Breaker

open Routing Store
set_option autoImplicit false

structure Tier where
  tunnel : Bytes
  tier : Int
  deriving DecidableEq, Repr

/-- `func(tunnel string) (breakerClosed bool, healthUp bool)`. -/
abbrev StateFunc := Bytes → Bool × Bool

/-- The variables of the loop. -/
structure Selection where
  found : Bool := false
  bestTier : Int := 0
  chosen : Bytes := []
  deriving DecidableEq, Repr

def selectStep (state : StateFunc) (s : Selection) (t : Tier) : Selection :=
  let (breakerClosed, healthUp) := state t.tunnel
  if !breakerClosed || !healthUp then s
  else if !s.found || t.tier < s.bestTier then
    { found := true, bestTier := t.tier, chosen := t.tunnel }
  else s

/-- `SelectTunnel`; a nil closure is `none`. -/
def selectTunnel (tiers : List Tier) (state : Option StateFunc) : Bytes :=
  match state with
  | none => []
  | some state =>
    if tiers.isEmpty then []
    else
      let s := tiers.foldl (selectStep state) {}
      if !s.found then [] else s.chosen

/-- The entry's breaker is closed and its tunnel up. -/
def eligible (state : Option StateFunc) (t : Tier) : Bool :=
  state.any fun f => (f t.tunnel).1 && (f t.tunnel).2

section ArgMin

variable {α β : Type} [LinearOrder β] {f : α → β}

/-- `argmin` takes the first of the elements with the least value. -/
theorem find?_of_argmin {xs : List α} {a : α} (h : xs.argmin f = some a) :
    xs.find? (fun x => f x = f a) = some a := by
  induction xs generalizing a with
  | nil => simp at h
  | cons x xs ih =>
    rw [List.argmin_cons] at h
    cases hxs : xs.argmin f with
    | none =>
      rw [hxs] at h
      obtain rfl : x = a := by simpa using h
      simp
    | some c =>
      rw [hxs] at h
      by_cases hlt : f c < f x
      · obtain rfl : c = a := by simpa [hlt] using h
        rw [List.find?_cons_of_neg (by simpa using hlt.ne')]
        exact ih hxs
      · obtain rfl : x = a := by simpa [hlt] using h
        simp

theorem argmin_cons_of_le {x : α} {xs : List α} (h : ∀ y ∈ xs, f x ≤ f y) :
    (x :: xs).argmin f = some x := by
  rw [List.argmin_cons]
  cases hxs : xs.argmin f with
  | none => rfl
  | some c =>
    have hle := h c (List.argmin_mem hxs)
    simp [hle]

theorem argmin_of_perm {xs ys : List α} (hd : xs.Pairwise fun x y => f x ≠ f y)
    (hp : ys.Perm xs) : ys.argmin f = xs.argmin f := by
  cases hx : xs.argmin f with
  | none =>
    have hnil : xs = [] := List.argmin_eq_none.mp hx
    subst hnil
    simp [hp.eq_nil]
  | some a =>
    cases hy : ys.argmin f with
    | none =>
      have hnil : ys = [] := List.argmin_eq_none.mp hy
      subst hnil
      simp [hp.symm.eq_nil] at hx
    | some b =>
      have ha : a ∈ xs := List.argmin_mem hx
      have hb : b ∈ xs := hp.subset (List.argmin_mem hy)
      have hab : f a = f b :=
        le_antisymm (List.le_of_mem_argmin hb hx)
          (List.le_of_mem_argmin (hp.symm.subset ha) hy)
      have hnodup : (xs.map f).Nodup := List.pairwise_map.mpr hd
      rw [List.inj_on_of_nodup_map hnodup ha hb hab]

end ArgMin

/-- What the loop holds once `best` is the entry to beat. -/
def Selection.of : Option Tier → Selection
  | none => {}
  | some t => { found := true, bestTier := t.tier, chosen := t.tunnel }

theorem foldl_selectStep (f : StateFunc) (tiers : List Tier) :
    tiers.foldl (selectStep f) {} =
      .of ((tiers.filter (eligible (some f))).argmin Tier.tier) := by
  induction tiers using List.reverseRecOn with
  | nil => rfl
  | append_singleton tiers t ih =>
    rw [List.foldl_append, List.foldl_cons, List.foldl_nil, ih, List.filter_append]
    by_cases he : eligible (some f) t = true
    · have hstate : (f t.tunnel).1 = true ∧ (f t.tunnel).2 = true := by simpa [eligible] using he
      rw [List.filter_cons_of_pos he, List.filter_nil, List.argmin_concat]
      cases (tiers.filter (eligible (some f))).argmin Tier.tier with
      | none => simp [selectStep, Selection.of, hstate]
      | some best =>
        by_cases hlt : t.tier < best.tier
        · simp [selectStep, Selection.of, hstate, hlt]
        · simp [selectStep, Selection.of, hstate, hlt]
    · have hstate : (!(f t.tunnel).1 || !(f t.tunnel).2) = true := by
        have hfalse := he
        simp only [eligible, Option.any_some, Bool.not_eq_true, Bool.and_eq_false_iff] at hfalse
        simpa using hfalse
      rw [List.filter_cons_of_neg he, List.filter_nil, List.append_nil]
      simp only [selectStep, hstate, if_true]

theorem selectTunnel_eq (tiers : List Tier) (state : Option StateFunc) :
    selectTunnel tiers state =
      ((tiers.filter (eligible state)).argmin Tier.tier).elim [] Tier.tunnel := by
  cases state with
  | none =>
    have hnone : eligible none = fun _ => false := rfl
    simp [selectTunnel, hnone]
  | some f =>
    simp only [selectTunnel, foldl_selectStep]
    cases tiers with
    | nil => rfl
    | cons t rest =>
      cases ((t :: rest).filter (eligible (some f))).argmin Tier.tier <;> simp [Selection.of]

/-- The first entry, in list order, among the eligible ones of least tier. -/
structure Preferred (state : Option StateFunc) (tiers : List Tier) (t : Tier) : Prop where
  least : IsLeast {m | ∃ u ∈ tiers, eligible state u = true ∧ u.tier = m} t.tier
  first : tiers.find? (fun u => eligible state u && u.tier = t.tier) = some t

theorem preferred_of_argmin {state : Option StateFunc} {tiers : List Tier} {t : Tier}
    (h : (tiers.filter (eligible state)).argmin Tier.tier = some t) : Preferred state tiers t where
  least := by
    obtain ⟨hmem, he⟩ := List.mem_filter.mp (List.argmin_mem h)
    refine ⟨⟨t, hmem, he, rfl⟩, ?_⟩
    rintro m ⟨u, hu, heu, rfl⟩
    exact List.le_of_mem_argmin (List.mem_filter.mpr ⟨hu, heu⟩) h
  first := by
    have hfind := find?_of_argmin h
    rw [List.find?_filter] at hfind
    simpa using hfind

/-- The entry `SelectTunnel` sees for a row of the store. -/
def tierOf (nameOf : Bytes → Option Bytes) (row : TargetTunnelTier) : Tier :=
  ⟨(nameOf row.vpnProfileID).getD [], row.tier⟩

/-- A target's rows in ascending tier order, each naming a profile with a name. -/
structure Listed (nameOf : Bytes → Option Bytes) (rows : List TargetTunnelTier) : Prop where
  ascending : rows.Pairwise fun r s => r.tier ≤ s.tier
  named : ∀ r ∈ rows, ∃ name, nameOf r.vpnProfileID = some name ∧ name ≠ []

/-- What failover to the lowest eligible tier means for one list of entries. -/
structure LowestTierFailover (state : Option StateFunc) (tiers : List Tier) : Prop where
  empty : selectTunnel tiers state = [] ↔ ∀ t ∈ tiers, eligible state t = false
  chosen : (∃ t ∈ tiers, eligible state t = true) →
    ∃ t, Preferred state tiers t ∧ selectTunnel tiers state = t.tunnel
  ineligible : ∀ tiers', tiers'.filter (eligible state) = tiers.filter (eligible state) →
    selectTunnel tiers' state = selectTunnel tiers state
  permuted : tiers.Pairwise (fun t u => t.tier ≠ u.tier) → ∀ tiers', tiers'.Perm tiers →
    selectTunnel tiers' state = selectTunnel tiers state
  compiler : (∀ t ∈ tiers, eligible state t = true) → ∀ tgt nameOf rows, rows ≠ [] →
    Listed nameOf rows → rows.map (tierOf nameOf) = tiers →
      (primaryTunnel tgt rows nameOf).map Prod.fst = some (selectTunnel tiers state)

section Results

variable {state : Option StateFunc} {tiers : List Tier}

theorem selectTunnel_eq_nil_iff (hnamed : ∀ t ∈ tiers, t.tunnel ≠ []) :
    selectTunnel tiers state = [] ↔ ∀ t ∈ tiers, eligible state t = false := by
  rw [selectTunnel_eq]
  cases h : (tiers.filter (eligible state)).argmin Tier.tier with
  | none => simpa using List.argmin_eq_none.mp h
  | some t =>
    obtain ⟨hmem, he⟩ := List.mem_filter.mp (List.argmin_mem h)
    constructor
    · intro hnil
      exact absurd hnil (hnamed t hmem)
    · intro hnone
      exact absurd he (by simp [hnone t hmem])

theorem exists_preferred (h : ∃ t ∈ tiers, eligible state t = true) :
    ∃ t, Preferred state tiers t ∧ selectTunnel tiers state = t.tunnel := by
  obtain ⟨u, hu, he⟩ := h
  rw [selectTunnel_eq]
  cases ht : (tiers.filter (eligible state)).argmin Tier.tier with
  | none =>
    have hnil := List.argmin_eq_none.mp ht
    exact absurd (List.mem_filter.mpr ⟨hu, he⟩) (by simp [hnil])
  | some t => exact ⟨t, preferred_of_argmin ht, rfl⟩

theorem selectTunnel_of_filter {tiers' : List Tier}
    (h : tiers'.filter (eligible state) = tiers.filter (eligible state)) :
    selectTunnel tiers' state = selectTunnel tiers state := by
  rw [selectTunnel_eq, selectTunnel_eq, h]

theorem selectTunnel_of_perm {tiers' : List Tier}
    (hd : tiers.Pairwise fun t u => t.tier ≠ u.tier) (hp : tiers'.Perm tiers) :
    selectTunnel tiers' state = selectTunnel tiers state := by
  rw [selectTunnel_eq, selectTunnel_eq, argmin_of_perm (hd.filter _) (hp.filter _)]

theorem primaryTunnel_eq_selectTunnel (hall : ∀ t ∈ tiers, eligible state t = true)
    (tgt : TargetHost) {nameOf : Bytes → Option Bytes} {rows : List TargetTunnelTier}
    (hne : rows ≠ []) (hrows : Listed nameOf rows) (htiers : rows.map (tierOf nameOf) = tiers) :
    (primaryTunnel tgt rows nameOf).map Prod.fst = some (selectTunnel tiers state) := by
  obtain ⟨row, rest, rfl⟩ := List.exists_cons_of_ne_nil hne
  obtain ⟨name, hname, hnonempty⟩ := hrows.named row (by simp)
  have hfirst : ∀ t ∈ rest.map (tierOf nameOf), (tierOf nameOf row).tier ≤ t.tier := by
    intro t ht
    obtain ⟨r, hr, rfl⟩ := List.mem_map.mp ht
    exact (List.pairwise_cons.mp hrows.ascending).1 r hr
  have hargmin : tiers.argmin Tier.tier = some (tierOf nameOf row) := by
    rw [← htiers, List.map_cons]
    exact argmin_cons_of_le hfirst
  rw [selectTunnel_eq, List.filter_eq_self.mpr hall, hargmin]
  simp [primaryTunnel, namedProfile, tierOf, hname, hnonempty]

end Results

/-- `SelectTunnel` is failover to the lowest eligible tier, and with every tunnel
eligible it picks the compiler's primary. -/
theorem select_lowest_eligible (state : Option StateFunc) (tiers : List Tier)
    (hnamed : ∀ t ∈ tiers, t.tunnel ≠ []) : LowestTierFailover state tiers where
  empty := selectTunnel_eq_nil_iff hnamed
  chosen := exists_preferred
  ineligible _ := selectTunnel_of_filter
  permuted hd _ := selectTunnel_of_perm hd
  compiler hall tgt _ _ := primaryTunnel_eq_selectTunnel hall tgt

/-- Two tunnels share the least tier; the first of them is open. -/
theorem select_lowest_eligible_tie :
    LowestTierFailover (some fun tunnel => (tunnel ≠ lit "eu", true))
      [⟨lit "asia", 2⟩, ⟨lit "eu", -1⟩, ⟨lit "us", -1⟩] :=
  select_lowest_eligible _ _ (by decide)

example : selectTunnel [⟨lit "asia", 2⟩, ⟨lit "eu", -1⟩, ⟨lit "us", -1⟩]
    (some fun tunnel => (tunnel ≠ lit "eu", true)) = lit "us" := by decide

/-- Without rows the compiler falls back to the target's own profile. -/
theorem select_without_rows :
    (∀ t ∈ ([] : List TargetTunnelTier).map (tierOf fun _ => some (lit "eu")),
        eligible (some fun _ => (true, true)) t = true) ∧
      Listed (fun _ => some (lit "eu")) [] ∧
      (primaryTunnel ⟨lit "t1", lit "crm", lit "10.0.0.5", 80, lit "http", lit "p1", [], true⟩ []
        fun _ => some (lit "eu")).map Prod.fst = some (lit "eu") ∧
      selectTunnel (([] : List TargetTunnelTier).map (tierOf fun _ => some (lit "eu")))
        (some fun _ => (true, true)) = [] :=
  ⟨by simp, ⟨.nil, by simp⟩, by decide, rfl⟩

end HelixProxy.Breaker
