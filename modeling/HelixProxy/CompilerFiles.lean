import HelixProxy.Compiler
import HelixProxy.Library.Files
import HelixProxy.SocksPath
import HelixProxy.SquidPartial

/-!
# The files of the config compiler

`cmd/compiler` at the level of the files it leaves. A run writes the include, then
`sockd.conf`, then the PAC file, and stops at the first failure; a crash leaves what
a failure at that point leaves. Paths are compared as they are spelled.
-/

namespace HelixProxy.Compiler

open Bus FirstMatch Routing Store Files
set_option autoImplicit false

abbrev Disk := Bytes → Option Bytes

/-- One run: its flags and what the calls it makes do. -/
structure Pass where
  flagsParse : Bool := true
  showVersion : Bool := false
  dsn : Bytes
  helperPath : Bytes := lit "/usr/lib/helix-proxy/acl-helper"
  pacProxy : Bytes := defaultPACProxy
  squidOut : Bytes := []
  danteBase : Bytes := []
  danteOut : Bytes := []
  pacOut : Bytes := []
  storeOpens : Bool := true
  reads : Reads
  squidFate : Fate := .done
  baseReads : Bool := true
  danteFate : Fate := .done
  pacFate : Fate := .done

/-- `if *out != "" { writeFile }`. -/
def output (path : Bytes) (fate : Fate) (contents : Bytes) (disk : Disk) : Disk × Bool :=
  if path = [] then (disk, true) else write fate path contents disk

def asked (path : Bytes) (fate : Fate) (contents : Bytes) : List (Job Bytes UInt8) :=
  if path = [] then [] else [⟨path, contents, fate⟩]

/-- What is written to `--dante-out`; `none` when the base cannot be read. -/
def Pass.sockd (pass : Pass) (routes : Bytes) (disk : Disk) : Option Bytes :=
  if pass.danteBase = [] then some routes
  else if pass.baseReads then (disk pass.danteBase).map fun base => Dante.deployed base routes
  else none

def Pass.deploy (pass : Pass) (arts : Artifacts) (disk : Disk) : Disk × Except Failure Unit :=
  match output pass.squidOut pass.squidFate arts.squidInclude disk with
  | (disk, false) => (disk, .error .writeFile)
  | (disk, true) =>
    match if pass.danteOut = [] then some [] else pass.sockd arts.danteRoutes disk with
    | none => (disk, .error .readDanteBase)
    | some sockd =>
      match output pass.danteOut pass.danteFate sockd disk with
      | (disk, false) => (disk, .error .writeFile)
      | (disk, true) =>
        match output pass.pacOut pass.pacFate arts.pac disk with
        | (disk, false) => (disk, .error .writeFile)
        | (disk, true) => (disk, .ok ())

def Pass.compiled (printable : Nat → Bool) (pass : Pass) : Output :=
  (Engine.new pass.helperPath pass.pacProxy).compileAll printable pass.reads

/-- `run` up to the seeding, which leaves the files alone. -/
def Pass.run (printable : Nat → Bool) (pass : Pass) (disk : Disk) :
    Disk × Except Failure (Option Output) :=
  if !pass.flagsParse then (disk, .error .flags)
  else if pass.showVersion then (disk, .ok none)
  else if pass.dsn = [] then (disk, .error .dsnRequired)
  else if !pass.storeOpens then (disk, .error .openStore)
  else match (pass.compiled printable).err with
    | some _ => (disk, .error .compile)
    | none =>
      match pass.deploy (pass.compiled printable).artifacts disk with
      | (disk, .error e) => (disk, .error e)
      | (disk, .ok ()) => (disk, .ok (some (pass.compiled printable)))

def diskAfter (printable : Nat → Bool) (disk : Disk) (history : List Pass) : Disk :=
  history.foldl (fun disk pass => (pass.run printable disk).1) disk

/-- The writes the flags ask for, in the order of the run. -/
def Pass.jobs (pass : Pass) (arts : Artifacts) (sockd : Bytes) : List (Job Bytes UInt8) :=
  asked pass.squidOut pass.squidFate arts.squidInclude ++
    (asked pass.danteOut pass.danteFate sockd ++ asked pass.pacOut pass.pacFate arts.pac)

section Run

variable {printable : Nat → Bool} {pass : Pass} {disk : Disk} {arts : Artifacts}

theorem output_eq (path : Bytes) (fate : Fate) (contents : Bytes) (disk : Disk) :
    output path fate contents disk = writeAll (asked path fate contents) disk := by
  unfold output asked
  split
  · rfl
  · simp only [writeAll]
    split <;> simp only [*]

/-- The output paths are different files, and the base is not the include. -/
structure Pass.Separate (pass : Pass) : Prop where
  outputs : ([pass.squidOut, pass.danteOut, pass.pacOut].filter (· ≠ [])).Nodup
  base : pass.danteBase = pass.squidOut → pass.danteBase = []

theorem Pass.jobs_paths (pass : Pass) (arts : Artifacts) (sockd : Bytes) :
    (pass.jobs arts sockd).map Job.path =
      [pass.squidOut, pass.danteOut, pass.pacOut].filter (· ≠ []) := by
  have hone : ∀ path fate contents,
      (asked path fate contents).map Job.path = [path].filter (· ≠ []) := by
    intro path fate contents
    unfold asked
    split <;> simp [*]
  simp only [jobs, List.map_append, hone, ← List.filter_append, List.singleton_append]

/-- The base is as it was when the include has been written. -/
theorem Pass.Separate.sockd_eq (h : pass.Separate) (arts : Artifacts) (disk : Disk)
    (routes : Bytes) :
    pass.sockd routes (output pass.squidOut pass.squidFate arts.squidInclude disk).1 =
      pass.sockd routes disk := by
  unfold Pass.sockd
  split
  · rfl
  · next hne =>
    have hother : pass.danteBase ≠ pass.squidOut := fun heq => hne (h.base heq)
    have hsame : (output pass.squidOut pass.squidFate arts.squidInclude disk).1 pass.danteBase =
        disk pass.danteBase := by
      unfold output
      split
      · rfl
      · exact write_of_ne hother
    rw [hsame]

/-- The run stops at the include or at the base, or makes the whole batch of writes. -/
theorem Pass.deploy_cases (h : pass.Separate) {sockd : Bytes}
    (hsockd : (pass.sockd arts.danteRoutes disk).getD [] = sockd) :
    ((pass.deploy arts disk).1 =
        (writeAll (asked pass.squidOut pass.squidFate arts.squidInclude) disk).1 ∧
      (pass.deploy arts disk).2 ≠ .ok ()) ∨
    ((pass.deploy arts disk).1 = (writeAll (pass.jobs arts sockd) disk).1 ∧
      ((pass.deploy arts disk).2 = .ok () → (writeAll (pass.jobs arts sockd) disk).2 = true)) := by
  have hbase := h.sockd_eq arts disk arts.danteRoutes
  rw [Pass.jobs, writeAll_append, ← output_eq]
  unfold Pass.deploy
  generalize output pass.squidOut pass.squidFate arts.squidInclude disk = first at hbase ⊢
  obtain ⟨mid, ok⟩ := first
  cases ok with
  | false => exact .inl ⟨rfl, by simp⟩
  | true =>
    have hread : (if pass.danteOut = [] then some [] else pass.sockd arts.danteRoutes mid) = none ∨
        ∃ text, (if pass.danteOut = [] then some [] else pass.sockd arts.danteRoutes mid) =
          some text ∧ asked pass.danteOut pass.danteFate text =
            asked pass.danteOut pass.danteFate sockd := by
      by_cases hout : pass.danteOut = []
      · exact .inr ⟨[], if_pos hout, by simp [asked, hout]⟩
      · rw [if_neg hout, hbase]
        cases hs : pass.sockd arts.danteRoutes disk with
        | none => exact .inl rfl
        | some text => exact .inr ⟨text, rfl, by rw [← hsockd, hs, Option.getD_some]⟩
    rcases hread with hnone | ⟨text, htext, hsame⟩
    · dsimp only
      rw [hnone]
      exact .inl ⟨rfl, by simp⟩
    · dsimp only
      rw [htext, writeAll_append, ← hsame, ← output_eq]
      dsimp only
      generalize output pass.danteOut pass.danteFate text mid = second
      obtain ⟨mid, ok⟩ := second
      cases ok with
      | false => exact .inr ⟨rfl, by simp⟩
      | true =>
        dsimp only
        rw [← output_eq]
        generalize output pass.pacOut pass.pacFate arts.pac mid = third
        obtain ⟨last, ok⟩ := third
        cases ok with
        | false => exact .inr ⟨rfl, by simp⟩
        | true => exact .inr ⟨rfl, fun _ => rfl⟩

theorem Pass.deploy_reached (h : pass.Separate) (arts : Artifacts) (disk : Disk) :
    ∃ wrote rest,
      pass.jobs arts ((pass.sockd arts.danteRoutes disk).getD []) = wrote ++ rest ∧
      Reached disk (pass.deploy arts disk).1 wrote rest ∧
      ((pass.deploy arts disk).2 = .ok () → rest = []) := by
  generalize hsockd : (pass.sockd arts.danteRoutes disk).getD [] = sockd
  have hnodup : ((pass.jobs arts sockd).map Job.path).Nodup := pass.jobs_paths arts sockd ▸ h.outputs
  rcases pass.deploy_cases h hsockd with ⟨hdisk, hfailed⟩ | ⟨hdisk, hok⟩
  · have hfirst := hnodup
    rw [Pass.jobs, List.map_append] at hfirst
    obtain ⟨wrote, rest, hjobs, hreached, -⟩ :=
      writeAll_reached disk (List.nodup_append.mp hfirst).1
    rw [Pass.jobs, hjobs] at hnodup
    refine ⟨wrote, _, by rw [Pass.jobs, hjobs, List.append_assoc], ?_, fun hok => absurd hok hfailed⟩
    rw [hdisk]
    exact hreached.extend hnodup
  · obtain ⟨wrote, rest, hjobs, hreached, hall⟩ := writeAll_reached disk hnodup
    rw [hdisk]
    exact ⟨wrote, rest, hjobs, hreached, fun h => hall (hok h)⟩

/-- A run that gets to its writes, or leaves the files alone. -/
theorem Pass.run_cases (printable : Nat → Bool) (pass : Pass) (disk : Disk) :
    ((pass.run printable disk).1 = disk ∧ ∀ out, (pass.run printable disk).2 ≠ .ok (some out)) ∨
      ((pass.compiled printable).err = none ∧
        (pass.run printable disk).1 =
          (pass.deploy (pass.compiled printable).artifacts disk).1 ∧
        ∀ out, (pass.run printable disk).2 = .ok (some out) →
          (pass.deploy (pass.compiled printable).artifacts disk).2 = .ok ()) := by
  unfold Pass.run
  split
  · exact .inl ⟨rfl, by simp⟩
  · split
    · exact .inl ⟨rfl, by simp⟩
    · split
      · exact .inl ⟨rfl, by simp⟩
      · split
        · exact .inl ⟨rfl, by simp⟩
        · split
          · exact .inl ⟨rfl, by simp⟩
          · next herr =>
            right
            refine ⟨herr, ?_⟩
            generalize pass.deploy (pass.compiled printable).artifacts disk = deployed
            obtain ⟨after, result⟩ := deployed
            cases result with
            | error e => exact ⟨rfl, by simp⟩
            | ok => exact ⟨rfl, fun _ _ => rfl⟩

theorem Pass.run_reached (h : pass.Separate) (printable : Nat → Bool) (disk : Disk) :
    ∃ wrote rest,
      pass.jobs (pass.compiled printable).artifacts
        ((pass.sockd (pass.compiled printable).artifacts.danteRoutes disk).getD []) =
          wrote ++ rest ∧
      Reached disk (pass.run printable disk).1 wrote rest ∧
      ∀ out, (pass.run printable disk).2 = .ok (some out) → rest = [] := by
  rcases pass.run_cases printable disk with ⟨hsame, hno⟩ | ⟨-, hdisk, hok⟩
  · refine ⟨[], _, rfl, ?_, fun out hout => absurd hout (hno out)⟩
    rw [hsame]
    exact .refl _
  · obtain ⟨wrote, rest, hjobs, hreached, hall⟩ := pass.deploy_reached h (pass.compiled printable).artifacts disk
    rw [hdisk]
    exact ⟨wrote, rest, hjobs, hreached, fun out hout => hall (hok out hout)⟩

end Run

/-- What the flags and the calls of the run come to when the files are left out. -/
def Pass.invocation (pass : Pass) (q : Queries) (disk : Disk) : Invocation where
  flagsParse := pass.flagsParse
  showVersion := pass.showVersion
  dsn := pass.dsn
  storeOpens := pass.storeOpens
  store := q
  squidOut := if pass.squidOut = [] then none else some (pass.squidFate = .done)
  danteBase := if pass.danteBase = [] then none
    else some (pass.baseReads && (disk pass.danteBase).isSome)
  danteOut := if pass.danteOut = [] then none else some (pass.danteFate = .done)
  pacOut := if pass.pacOut = [] then none else some (pass.pacFate = .done)

theorem output_snd (path : Bytes) (fate : Fate) (contents : Bytes) (disk : Disk) :
    (output path fate contents disk).2 = false ↔
      (if path = [] then none else some (decide (fate = .done))) = some false := by
  unfold output
  split
  · simp
  · cases fate <;> simp [write]

theorem Pass.sockd_eq_none (pass : Pass) (q : Queries) (routes : Bytes) (disk : Disk) :
    pass.sockd routes disk = none ↔ (pass.invocation q disk).danteBase = some false := by
  unfold Pass.sockd Pass.invocation
  split
  · simp
  · cases pass.baseReads <;> simp

/-- The run from the write of `sockd.conf` on. -/
theorem Pass.pac_result {pass : Pass} (q : Queries) (arts : Artifacts) (sockd : Bytes)
    (disk mid : Disk) :
    (match output pass.danteOut pass.danteFate sockd mid with
      | (disk, false) => (disk, Except.error Failure.writeFile)
      | (disk, true) =>
        match output pass.pacOut pass.pacFate arts.pac disk with
        | (disk, false) => (disk, .error .writeFile)
        | (disk, true) => (disk, .ok ())).2 =
      if (pass.invocation q disk).danteOut = some false then .error .writeFile
      else if (pass.invocation q disk).pacOut = some false then .error .writeFile
      else .ok () := by
  have hdante := output_snd pass.danteOut pass.danteFate sockd mid
  change _ ↔ (pass.invocation q disk).danteOut = some false at hdante
  generalize output pass.danteOut pass.danteFate sockd mid = second at hdante ⊢
  obtain ⟨mid, ok⟩ := second
  cases ok with
  | false => rw [if_pos (hdante.mp rfl)]
  | true =>
    have hpac := output_snd pass.pacOut pass.pacFate arts.pac mid
    change _ ↔ (pass.invocation q disk).pacOut = some false at hpac
    rw [if_neg fun hno => absurd (hdante.mpr hno) (by simp)]
    dsimp only
    generalize output pass.pacOut pass.pacFate arts.pac mid = third at hpac ⊢
    obtain ⟨last, ok⟩ := third
    cases ok with
    | false => rw [if_pos (hpac.mp rfl)]
    | true => rw [if_neg fun hno => absurd (hpac.mpr hno) (by simp)]

theorem Pass.deploy_result {pass : Pass} (h : pass.Separate) (q : Queries) (arts : Artifacts)
    (disk : Disk) : (pass.deploy arts disk).2 =
      if (pass.invocation q disk).squidOut = some false then .error .writeFile
      else if (pass.invocation q disk).danteOut.isSome &&
        (pass.invocation q disk).danteBase = some false then .error .readDanteBase
      else if (pass.invocation q disk).danteOut = some false then .error .writeFile
      else if (pass.invocation q disk).pacOut = some false then .error .writeFile
      else .ok () := by
  have hbase := h.sockd_eq arts disk arts.danteRoutes
  have hsquid := output_snd pass.squidOut pass.squidFate arts.squidInclude disk
  change _ ↔ (pass.invocation q disk).squidOut = some false at hsquid
  unfold Pass.deploy
  generalize output pass.squidOut pass.squidFate arts.squidInclude disk = first at hbase hsquid ⊢
  obtain ⟨mid, ok⟩ := first
  cases ok with
  | false => rw [if_pos (hsquid.mp rfl)]
  | true =>
    rw [if_neg fun hno => absurd (hsquid.mpr hno) (by simp)]
    dsimp only at hbase ⊢
    by_cases hout : pass.danteOut = []
    · have hnot : (pass.invocation q disk).danteOut = none := if_pos hout
      rw [if_pos hout, if_neg (by simp [hnot])]
      exact Pass.pac_result q arts [] disk mid
    · have hasked : (pass.invocation q disk).danteOut = some (decide (pass.danteFate = .done)) :=
        if_neg hout
      rw [if_neg hout, hbase, hasked]
      cases hread : pass.sockd arts.danteRoutes disk with
      | none =>
        have hfails := (pass.sockd_eq_none q _ _).mp hread
        rw [if_pos (by simp [hfails])]
      | some text =>
        have hreads : ¬(pass.invocation q disk).danteBase = some false := by
          rw [← pass.sockd_eq_none q arts.danteRoutes, hread]
          simp
        rw [if_neg (by simp [hreads]), ← hasked]
        exact Pass.pac_result q arts text disk mid

theorem compiled_cases {pass : Pass} {q : Queries} (h : pass.reads.Agrees q)
    (printable : Nat → Bool) :
    ((pass.compiled printable).err.isSome = true ∧ compileAll q = none) ∨
      ∃ c, (pass.compiled printable).err = none ∧ compileAll q = some c ∧
        (pass.compiled printable).routes = c.routes := by
  cases hc : compileAll q with
  | some c =>
    right
    rw [Pass.compiled, Engine.compileAll_of_agrees h printable _ hc]
    exact ⟨c, rfl, rfl, rfl⟩
  | none =>
    left
    refine ⟨?_, rfl⟩
    rcases Engine.compileAll_cases printable (Engine.new pass.helperPath pass.pacProxy)
      pass.reads with ⟨text, hfail, -⟩ | ⟨ps, ts, dRoutes, routes, hps, hts, hloop, -⟩
    · rw [Pass.compiled, hfail]
      rfl
    · -- a loop that ends resolves the targets of `q` as well
      have htargets := h.targets
      rw [hts] at htargets
      obtain ⟨targets, hlisted, rfl⟩ := Option.map_eq_some_iff.mp htargets
      have hresolved := compileTargets_toOption h.tiers (nameByID ps.rows)
        (peerByProfile (resolveTunnels ps.rows)) targets.rows ([], [])
      rw [hloop] at hresolved
      obtain ⟨xs, hxs, -⟩ := Option.map_eq_some_iff.mp hresolved.symm
      have hprofiles : q.listProfiles = some ps := by rw [h.profiles, hps]; rfl
      simp [compileAll, hprofiles, hlisted, hxs] at hc

/-- With the files left out, a run returns what the run of `prepare` returns. -/
theorem Pass.run_result {pass : Pass} (hs : pass.Separate) {q : Queries}
    (h : pass.reads.Agrees q) (printable : Nat → Bool) (disk : Disk) :
    (pass.run printable disk).2.map (·.map Output.routes) =
      (pass.invocation q disk).prepare.map (·.map Compiled.routes) := by
  have hdeploy := Pass.deploy_result hs q (pass.compiled printable).artifacts disk
  have hflags : (pass.invocation q disk).flagsParse = pass.flagsParse := rfl
  have hversion : (pass.invocation q disk).showVersion = pass.showVersion := rfl
  have hdsn : (pass.invocation q disk).dsn = pass.dsn := rfl
  have hopens : (pass.invocation q disk).storeOpens = pass.storeOpens := rfl
  have hstore : (pass.invocation q disk).store = q := rfl
  unfold Pass.run Invocation.prepare
  rw [hflags, hversion, hdsn, hopens, hstore]
  split
  · rfl
  · split
    · rfl
    · split
      · rfl
      · split
        · rfl
        · rcases compiled_cases h printable with ⟨herr, hnone⟩ | ⟨c, herr, hsome, hroutes⟩
          · obtain ⟨text, herr⟩ := Option.isSome_iff_exists.mp herr
            rw [herr, hnone]
            rfl
          · rw [herr, hsome]
            generalize pass.deploy (pass.compiled printable).artifacts disk = deployed at hdeploy ⊢
            obtain ⟨after, result⟩ := deployed
            obtain rfl : result = _ := hdeploy
            dsimp only
            by_cases hsquid : (pass.invocation q disk).squidOut = some false
            · rw [if_pos hsquid, if_pos hsquid]
              rfl
            rw [if_neg hsquid, if_neg hsquid]
            by_cases hread : ((pass.invocation q disk).danteOut.isSome &&
                decide ((pass.invocation q disk).danteBase = some false)) = true
            · rw [if_pos hread, if_pos hread]
              rfl
            rw [if_neg hread, if_neg hread]
            by_cases hdante : (pass.invocation q disk).danteOut = some false
            · rw [if_pos hdante, if_pos hdante]
              rfl
            rw [if_neg hdante, if_neg hdante]
            by_cases hpac : (pass.invocation q disk).pacOut = some false
            · rw [if_pos hpac, if_pos hpac]
              rfl
            rw [if_neg hpac, if_neg hpac]
            exact congrArg (fun routes => Except.ok (some routes)) hroutes

/-- Whatever fails in a run and wherever it is cut off, the files it writes are new up
to some point, the next one is torn at most, and everything else is as it was. A run
that completes leaves all of them new, whatever earlier runs had left. -/
theorem run_tears_one_file (printable : Nat → Bool) (start : Disk) (history : List Pass)
    (pass : Pass) (h : pass.Separate) :
    ∃ wrote rest,
      pass.jobs (pass.compiled printable).artifacts
        ((pass.sockd (pass.compiled printable).artifacts.danteRoutes
          (diskAfter printable start history)).getD []) = wrote ++ rest ∧
      Reached (diskAfter printable start history)
        (diskAfter printable start (history ++ [pass])) wrote rest ∧
      ∀ out, (pass.run printable (diskAfter printable start history)).2 = .ok (some out) →
        rest = [] := by
  rw [diskAfter, diskAfter, List.foldl_append, List.foldl_cons, List.foldl_nil]
  exact pass.run_reached h printable _

section Include

variable {printable : Nat → Bool} {path : Bytes}

/-- The values the run would insert into the include are plain words. -/
structure Pass.Plain (pass : Pass) : Prop where
  helper : ∀ b ∈ pass.helperPath, Squid.white b = false ∧ b ≠ 92
  hosts : ∀ ps, pass.reads.listProfiles = .ok ps → ∀ p ∈ ps.rows, Kept (tunnelOf p).peerHost

/-- No include, or a beginning of one that was rendered from plain words. -/
def IncludeOrPart (text : Option Bytes) : Prop :=
  text = none ∨ ∃ helperPath tunnels part, text = some part ∧
    part <+: renderSquidInclude helperPath tunnels ∧
    (∀ b ∈ helperPath, Squid.white b = false ∧ b ≠ 92) ∧
    ∀ t ∈ tunnels, Kept t.name ∧ Kept t.peerHost

theorem kept_tunnels {profiles : List VPNProfile}
    (h : ∀ p ∈ profiles, Kept (tunnelOf p).peerHost) :
    ∀ t ∈ resolveTunnels profiles, Kept t.name ∧ Kept t.peerHost := by
  intro t ht
  obtain ⟨p, hp, -, rfl⟩ := mem_resolveTunnels.mp ht
  refine ⟨fun b hb => ?_, h p hp⟩
  have htag : ∀ b ∈ lit "tun_", keptRune b.toNat = true := by decide
  rcases List.mem_append.mp hb with hb | hb
  · exact htag b hb
  · exact sanitizeToken_kept p.name b hb

theorem Pass.Plain.rendered {pass : Pass} (h : pass.Plain)
    (hok : (pass.compiled printable).err = none) :
    ∃ tunnels, (pass.compiled printable).artifacts.squidInclude =
        renderSquidInclude pass.helperPath tunnels ∧
      ∀ t ∈ tunnels, Kept t.name ∧ Kept t.peerHost := by
  rcases Engine.compileAll_cases printable (Engine.new pass.helperPath pass.pacProxy)
    pass.reads with ⟨text, hfail, -⟩ | ⟨ps, ts, dRoutes, routes, hps, -, -, hout⟩
  · rw [Pass.compiled, hfail] at hok
    cases hok
  · exact ⟨_, by rw [Pass.compiled, hout]; rfl, kept_tunnels (h.hosts ps hps)⟩

theorem mem_asked {p : Bytes} {fate : Fate} {contents : Bytes} {job : Job Bytes UInt8}
    (h : job ∈ asked p fate contents) : job = ⟨p, contents, fate⟩ := by
  unfold asked at h
  split at h
  · cases h
  · exact List.mem_singleton.mp h

theorem Pass.include_job {pass : Pass} {arts : Artifacts} {sockd : Bytes} {job : Job Bytes UInt8}
    (h : job ∈ pass.jobs arts sockd) (hown : job.path ∉ [pass.danteOut, pass.pacOut]) :
    job.contents = arts.squidInclude := by
  rcases List.mem_append.mp h with h | h
  · rw [mem_asked h]
  · refine absurd ?_ hown
    rcases List.mem_append.mp h with h | h
    · rw [mem_asked h]
      exact List.mem_cons_self
    · rw [mem_asked h]
      exact List.mem_cons_of_mem _ List.mem_cons_self

theorem IncludeOrPart.run {pass : Pass} {disk : Disk} (h : IncludeOrPart (disk path))
    (hs : pass.Separate) (hp : pass.Plain) (hown : path ∉ [pass.danteOut, pass.pacOut]) :
    IncludeOrPart ((pass.run printable disk).1 path) := by
  rcases pass.run_cases printable disk with ⟨hsame, -⟩ | ⟨herr, hdisk, -⟩
  · rw [hsame]
    exact h
  · obtain ⟨tunnels, hinclude, hkept⟩ := hp.rendered herr
    obtain ⟨wrote, rest, hjobs, hreached, -⟩ :=
      pass.deploy_reached hs (pass.compiled printable).artifacts disk
    rw [hdisk]
    by_cases hmem : path ∈ (wrote ++ rest).map Job.path
    · obtain ⟨job, hjob, rfl⟩ := List.mem_map.mp hmem
      rcases hreached.torn_at hjob with hold | ⟨part, hpart, hnew⟩
      · rw [hold]
        exact h
      · rw [Pass.include_job (hjobs ▸ hjob) hown, hinclude] at hpart
        exact .inr ⟨pass.helperPath, tunnels, part, hnew, hpart, hp.helper, hkept⟩
    · rw [hreached.others path hmem]
      exact h

/-- The configuration Squid reads with this file, or none, at the include. -/
def configuration : Option Bytes → Bytes
  | none => Squid.withoutInclude
  | some text => Squid.assembled text

theorem includeOrPart_diskAfter {start : Disk} (hstart : IncludeOrPart (start path))
    {history : List Pass} (h : ∀ pass ∈ history, pass.Separate ∧ pass.Plain ∧
      path ∉ [pass.danteOut, pass.pacOut]) :
    IncludeOrPart (diskAfter printable start history path) := by
  unfold diskAfter
  induction history generalizing start with
  | nil => exact hstart
  | cons pass rest ih =>
    obtain ⟨hs, hp, hown⟩ := h pass List.mem_cons_self
    exact ih (hstart.run hs hp hown) fun x hx => h x (List.mem_cons_of_mem pass hx)

/-- Over every history of compiler runs, complete, failed or cut off inside a write, a
proxy that reads the include as it then is allows a request from another host only with
the helper's OK, and does not let that request go direct. -/
theorem include_closed_throughout (printable : Nat → Bool) (path : Bytes) (start : Disk)
    (hstart : start path = none) (history : List Pass)
    (hhistory : ∀ pass ∈ history, pass.Separate ∧ pass.Plain ∧
      path ∉ [pass.danteOut, pass.pacOut])
    (r : Squid.Request) (hl : r.localhost = false) :
    Squid.httpAccess (configuration (diskAfter printable start history path)) r = .deny ∨
      (SafePort r.port ∧ ¬ ConnectOutsideSSL r ∧ r.manager = false ∧ r.helperOK = true) ∧
        Squid.neverDirect (configuration (diskAfter printable start history path)) r =
          .allow := by
  have hpart : IncludeOrPart (diskAfter printable start history path) :=
    includeOrPart_diskAfter (.inl hstart) hhistory
  rcases hpart with hnone | ⟨helperPath, tunnels, part, hsome, hcut, hh, ht⟩
  · rw [hnone]
    exact .inl (Action.ne_allow_iff.mp (withoutInclude_denies hl))
  · rw [hsome]
    cases hallow : Squid.httpAccess (configuration (some part)) r with
    | deny => exact .inl rfl
    | allow => exact .inr (partial_closed hh ht hcut hl hallow)

end Include

/-- One run for one profile, cut off or not while it writes the include. -/
def euPass (fate : Fate) : Pass where
  dsn := lit "postgres://helix"
  squidOut := lit "conf.d/vpn.squid"
  pacOut := lit "proxy.pac"
  reads :=
    { listProfiles := .ok ⟨[{ id := lit "p1", name := lit "eu" }], List.nodup_singleton _,
        List.nodup_singleton _⟩
      listTargets := .ok []
      listTiers := fun _ => .ok [] }
  squidFate := fate

theorem euPass_separate (fate : Fate) : (euPass fate).Separate where
  outputs := by
    change ([lit "conf.d/vpn.squid", [], lit "proxy.pac"].filter (· ≠ [])).Nodup
    decide
  base _ := rfl

theorem euPass_plain (fate : Fate) : (euPass fate).Plain where
  helper := by
    change ∀ b ∈ lit "/usr/lib/helix-proxy/acl-helper", Squid.white b = false ∧ b ≠ 92
    decide
  hosts ps hps p hp := by
    obtain rfl := Except.ok.inj hps
    obtain rfl := List.mem_singleton.mp hp
    decide

theorem run_tears_one_file_eu : (euPass (.cut 700)).Separate ∧
    ∃ wrote rest,
      (euPass (.cut 700)).jobs ((euPass (.cut 700)).compiled fun _ => true).artifacts
        (((euPass (.cut 700)).sockd ((euPass (.cut 700)).compiled fun _ => true).artifacts.danteRoutes
          (diskAfter (fun _ => true) (fun _ => none) [euPass .done])).getD []) = wrote ++ rest ∧
      Reached (diskAfter (fun _ => true) (fun _ => none) [euPass .done])
        (diskAfter (fun _ => true) (fun _ => none) ([euPass .done] ++ [euPass (.cut 700)]))
        wrote rest := by
  refine ⟨euPass_separate _, ?_⟩
  obtain ⟨wrote, rest, hjobs, hreached, -⟩ := run_tears_one_file (fun _ => true) (fun _ => none)
    [euPass .done] (euPass (.cut 700)) (euPass_separate _)
  exact ⟨wrote, rest, hjobs, hreached⟩

theorem include_closed_throughout_eu :
    Squid.httpAccess (configuration (diskAfter (fun _ => true) (fun _ => none)
        [euPass .done, euPass (.cut 700)] (lit "conf.d/vpn.squid"))) lanRequest = .deny ∨
      (SafePort 443 ∧ ¬ ConnectOutsideSSL lanRequest ∧ false = false ∧ true = true) ∧
        Squid.neverDirect (configuration (diskAfter (fun _ => true) (fun _ => none)
          [euPass .done, euPass (.cut 700)] (lit "conf.d/vpn.squid"))) lanRequest = .allow := by
  refine include_closed_throughout _ _ _ rfl _ (fun pass hpass => ?_) lanRequest rfl
  have hown : lit "conf.d/vpn.squid" ∉ [[], lit "proxy.pac"] := by decide
  rcases List.mem_pair.mp hpass with rfl | rfl
  · exact ⟨euPass_separate _, euPass_plain _, hown⟩
  · exact ⟨euPass_separate _, euPass_plain _, hown⟩

end HelixProxy.Compiler
