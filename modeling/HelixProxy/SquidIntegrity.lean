import HelixProxy.SquidPolicy

/-!
# Stored values in the rendered policy

Names pass through `sanitizeToken` before they reach the include; the
`peer_host` of a config does not. The policy is the template's own exactly when
the helper path stays on its line and every such host is a single word.
-/

namespace HelixProxy.Routing

open Squid Store
set_option autoImplicit false
set_option maxRecDepth 4096

def isPolicyLine (line : Bytes) : Bool :=
  (words line).head? == some (lit "http_access") || (words line).head? == some (lit "never_direct")

/-- A rule that lets clients other than the proxy host in. -/
def isClientAllow : List Bytes → Bool
  | kw :: action :: acls =>
    kw = lit "http_access" && action = lit "allow" && !acls.contains (lit "localhost")
  | _ => false

/-- The include holds the template's directives for the enabled profiles in name
order, with single words in them, and so no other policy. -/
structure PolicyIntact (helperPath : Bytes) (profiles : List VPNProfile) : Prop where
  lines : ∃ ps : List VPNProfile, ps.Perm (profiles.filter VPNProfile.enabled) ∧
    ps.Pairwise (fun p q => p.name ≤ q.name) ∧
    directives (renderSquidInclude helperPath (resolveTunnels profiles)) =
      includeDirectives helperPath (ps.map tunnelOf)
  single : ∀ p ∈ profiles, p.enabled = true → Word (tunnelOf p).peerHost ∧
    Word (Strconv.itoa (tunnelOf p).peerPort) ∧ Word (tunnelOf p).name
  policy : (directives (renderSquidInclude helperPath (resolveTunnels profiles))).filter
    isPolicyLine = [neverDirectLine, gateLine, clientAllowLine]
  gated : ∀ line ∈ (directives (assembled (renderSquidInclude helperPath
    (resolveTunnels profiles)))).takeWhile (· ≠ gateLine), isClientAllow (words line) = false

theorem nl_not_mem_directive {text line : Bytes} (h : line ∈ directives text) : nl ∉ line := by
  intro hmem
  have hsep := (Tokens.of_mem_splitOnP (· == nl) (List.mem_filter.mp h).1 nl hmem).2
  simp at hsep

theorem exists_sorted_profiles (profiles : List VPNProfile) :
    ∃ ps : List VPNProfile, ps.Perm (profiles.filter VPNProfile.enabled) ∧
      ps.Pairwise (fun p q => p.name ≤ q.name) ∧ resolveTunnels profiles = ps.map tunnelOf := by
  let byName (p q : VPNProfile) : Prop := nameLE (tunnelOf p) (tunnelOf q)
  have : DecidableRel byName := fun p q => inferInstanceAs (Decidable (nameLE _ _))
  have hmap : ((profiles.filter VPNProfile.enabled).insertionSort byName).map tunnelOf =
      resolveTunnels profiles :=
    List.map_insertionSort byName nameLE tunnelOf _ fun _ _ _ _ => Iff.rfl
  refine ⟨_, List.perm_insertionSort byName _, ?_, hmap.symm⟩
  have hsorted := resolveTunnels_sorted profiles
  rw [← hmap, List.pairwise_map] at hsorted
  exact hsorted

theorem peerHostOverride_ne_nil {p : VPNProfile} {host : Bytes}
    (h : peerHostOverride p = some host) : host ≠ [] := by
  obtain ⟨m, -, hm⟩ := Option.bind_eq_some_iff.mp h
  split at hm
  · split at hm
    · next hne => exact Option.some.inj hm ▸ hne
    · cases hm
  · cases hm

/-- The override reaches the include as it is; the default host is a word. -/
theorem peerHost_word_iff (p : VPNProfile) : Word (tunnelOf p).peerHost ↔
    ∀ host, peerHostOverride p = some host → ∀ b ∈ host, white b = false := by
  simp only [tunnelOf, peerEndpoint]
  cases ho : peerHostOverride p with
  | none =>
    simp only [Option.getD_none, reduceCtorEq, false_implies, implies_true, iff_true]
    exact word_append ⟨by decide, by decide⟩ (sanitizeToken_kept p.name).not_white
  | some host =>
    have hne := peerHostOverride_ne_nil ho
    simp [Word, hne]

theorem lineSafe_of_words {helperPath : Bytes} {profiles : List VPNProfile}
    (hh : nl ∉ helperPath)
    (hw : ∀ p ∈ profiles, p.enabled = true → Word (tunnelOf p).peerHost) :
    LineSafe helperPath (resolveTunnels profiles) := by
  refine ⟨hh, fun t ht => ?_⟩
  obtain ⟨p, hp, hen, rfl⟩ := mem_resolveTunnels.mp ht
  exact ⟨(tunnelOf_name_word p).no_nl, (hw p hp hen).no_nl⟩

theorem filter_isPolicyLine (helperPath : Bytes) (tunnels : List Tunnel) :
    (includeDirectives helperPath tunnels).filter isPolicyLine =
      [neverDirectLine, gateLine, clientAllowLine] := by
  obtain ⟨rest, hext⟩ := words_externalAclLine (helperOrDefault helperPath)
  have h1 : isPolicyLine (externalAclLine (helperOrDefault helperPath)) = false := by
    rw [isPolicyLine, hext, List.head?_cons]
    decide
  have h2 : isPolicyLine aclLine = false := by decide
  have h3 : (tunnels.flatMap tunnelDirectives).filter isPolicyLine = [] := by
    rw [List.filter_eq_nil_iff]
    intro line hline
    have hhead := head_tunnels tunnels (words line) (List.mem_map_of_mem hline)
    rcases hhead with h | h <;> simp only [isPolicyLine, h] <;> decide
  have h4 : failClosedDirectives.filter isPolicyLine =
      [neverDirectLine, gateLine, clientAllowLine] := by decide
  rw [includeDirectives, List.filter_append, List.filter_append, h3, h4, List.filter_cons,
    List.filter_cons, h1, h2]
  rfl

theorem mem_of_mem_takeWhile_append {α : Type} {p : α → Bool} {as bs : List α} {b x : α}
    (hb : p b = false) (h : x ∈ (as ++ b :: bs).takeWhile p) : x ∈ as := by
  induction as with
  | nil => simp [hb] at h
  | cons a as ih =>
    rw [List.cons_append, List.takeWhile_cons] at h
    split at h
    · rcases List.mem_cons.mp h with rfl | h
      · exact List.mem_cons_self
      · exact List.mem_cons_of_mem a (ih h)
    · simp at h

theorem isClientAllow_of_head {line : List Bytes} (h : line.head? ≠ some (lit "http_access")) :
    isClientAllow line = false := by
  unfold isClientAllow
  split
  · next kw action acls =>
    have hne : kw ≠ lit "http_access" := fun he => h (he ▸ rfl)
    simp [hne]
  · rfl

theorem no_client_allow_before_gate {helperPath : Bytes} {tunnels : List Tunnel}
    (h : LineSafe helperPath tunnels) :
    ∀ line ∈ (directives (assembled (renderSquidInclude helperPath tunnels))).takeWhile
      (· ≠ gateLine), isClientAllow (words line) = false := by
  intro line hline
  have hsplit : directives (assembled (renderSquidInclude helperPath tunnels)) =
      (baseHead.filter isDirective ++ [externalAclLine (helperOrDefault helperPath), aclLine] ++
        tunnels.flatMap tunnelDirectives ++ [neverDirectLine]) ++
        gateLine :: ([clientAllowLine, denyInfoLine] ++ baseTail.filter isDirective) := by
    simp [directives_assembled h, includeDirectives, failClosedDirectives]
  rw [hsplit] at hline
  have hmem := mem_of_mem_takeWhile_append (by simp) hline
  simp only [List.mem_append, List.mem_cons, List.not_mem_nil, or_false] at hmem
  rcases hmem with ((hb | rfl | rfl) | ht) | rfl
  · have hwords : words line ∈ headConf := words_baseHead ▸ List.mem_map_of_mem hb
    exact (by decide : ∀ l ∈ headConf, isClientAllow l = false) _ hwords
  · obtain ⟨rest, hext⟩ := words_externalAclLine (helperOrDefault helperPath)
    exact isClientAllow_of_head (by rw [hext, List.head?_cons]; decide)
  · decide
  · exact isClientAllow_of_head
      (head_tunnels_ne tunnels (by decide) (by decide) _ (List.mem_map_of_mem ht))
  · decide

/-- The rendered policy is intact exactly when the helper path has no newline
and no `peer_host` of an enabled profile contains white space. -/
theorem policy_intact_iff (helperPath : Bytes) (profiles : List VPNProfile) :
    PolicyIntact helperPath profiles ↔
      nl ∉ helperPath ∧ ∀ p ∈ profiles, p.enabled = true →
        ∀ host, peerHostOverride p = some host → ∀ b ∈ host, white b = false := by
  constructor
  · intro h
    refine ⟨?_, fun p hp hen => (peerHost_word_iff p).mp (h.single p hp hen).1⟩
    obtain ⟨ps, -, -, hlines⟩ := h.lines
    have hmem : externalAclLine (helperOrDefault helperPath) ∈
        directives (renderSquidInclude helperPath (resolveTunnels profiles)) := by
      rw [hlines]
      simp [includeDirectives]
    intro hnl
    have hne : helperPath ≠ [] := List.ne_nil_of_mem hnl
    apply nl_not_mem_directive hmem
    simp [externalAclLine, helperOrDefault, hne, hnl]
  · rintro ⟨hh, hp⟩
    have hword : ∀ p ∈ profiles, p.enabled = true → Word (tunnelOf p).peerHost :=
      fun p hpm hen => (peerHost_word_iff p).mpr (hp p hpm hen)
    have hsafe := lineSafe_of_words hh hword
    obtain ⟨ps, hperm, hsorted, hps⟩ := exists_sorted_profiles profiles
    exact
      { lines := ⟨ps, hperm, hsorted, by rw [directives_render hsafe, hps]⟩
        single := fun p hpm hen => ⟨hword p hpm hen, itoa_word _, tunnelOf_name_word p⟩
        policy := by rw [directives_render hsafe, filter_isPolicyLine]
        gated := no_client_allow_before_gate hsafe }

/-- A profile whose `peer_host` closes its line and opens the proxy. -/
def openingProfile : VPNProfile where
  id := lit "p1"
  name := lit "eu"
  config := .document (.object [(lit "peer_host", .string (lit "x\nhttp_access allow all\n#"))])

/-- The stored host becomes an `http_access` line of its own, before the gate. -/
theorem policy_not_intact :
    lit "http_access allow all" ∈ (directives (renderSquidInclude []
      (resolveTunnels [openingProfile]))).takeWhile (· ≠ gateLine) ∧
    ¬ PolicyIntact [] [openingProfile] := by
  have hmem : lit "http_access allow all" ∈ (directives (renderSquidInclude []
      (resolveTunnels [openingProfile]))).takeWhile (· ≠ gateLine) := by
    simp (disch := exact rfl) only [renderSquidInclude, includeLines, squidHeader, externalAclLine,
      helperOrDefault, aclLine, failClosedComment, failClosedDirectives, neverDirectLine, gateLine,
      clientAllowLine, denyInfoLine, lit_eq]
    decide
  refine ⟨hmem, fun h => ?_⟩
  have hline := List.mem_filter.mpr ⟨(List.takeWhile_sublist _).subset hmem,
    (by decide : isPolicyLine (lit "http_access allow all") = true)⟩
  rw [h.policy] at hline
  exact absurd hline (by decide)

end HelixProxy.Routing
