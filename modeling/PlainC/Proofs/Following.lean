import PlainC.Proofs.Stages

/-!
# Following an action through the stages

The tools that an action starts are followed through the stages, whether the action fails or not. A
failure between two runs leaves the trail where it stands, which is never its end if files keep what is
written to them.
-/

namespace PlainC

open Action FileTree Path

namespace Canonicalization

/-- A place in a trail from which there is still something to do, or at which a tool has failed. -/
def Unfinished (stage : Option Stage) : Prop := ∀ text, stage ≠ some (.finished text)

namespace Job

variable {α β : Type} {job : Job} {kept : Prop} {world : World} {stage : Option Stage}

/-- That the tools of an action make a trail, which is unfinished if the action fails. -/
def Follows (job : Job) (kept : Prop) (action : Action α) (world : World) (stage : Option Stage)
    (post : α → Option Stage → World → Prop) : Prop :=
  ∃ runs last, (action.run world).2.runs = world.runs ++ runs ∧ job.Trail kept stage runs last ∧
    (∀ error, (action.run world).1 = .error error → kept → Unfinished last) ∧
    ∀ value, (action.run world).1 = .ok value → post value last (action.run world).2

variable {post : α → Option Stage → World → Prop} {behind : β → Option Stage → World → Prop}

theorem Follows.done {action : Action α} {value : α} {after : World}
    (hyields : action.Yields world value after) (hruns : after.runs = world.runs)
    (h : post value stage after) : job.Follows kept action world stage post := by
  rw [Yields] at hyields
  rw [Follows, hyields]
  refine ⟨[], stage, ?_, .here stage, ?_, ?_⟩
  · rw [hruns, List.append_nil]
  · intro error herror
    cases herror
  · rintro _ ⟨⟩
    exact h

theorem Follows.fail {action : Action α} {error : Error} {after : World}
    (hfail : action.run world = (.error error, after)) (hruns : after.runs = world.runs)
    (hstage : kept → Unfinished stage) : job.Follows kept action world stage post := by
  rw [Follows, hfail]
  refine ⟨[], stage, ?_, .here stage, fun _ _ => hstage, ?_⟩
  · rw [hruns, List.append_nil]
  · intro value hvalue
    cases hvalue

theorem Follows.pure {value : α} (h : post value stage world) :
    job.Follows kept (pure value) world stage post := .done rfl rfl h

theorem Follows.throw {error : Error} (hstage : Unfinished stage) :
    job.Follows kept (throw error) world stage post := .fail rfl rfl fun _ => hstage

theorem Follows.mono {action : Action α} {other : α → Option Stage → World → Prop}
    (h : job.Follows kept action world stage post)
    (hother : ∀ value last after, post value last after → other value last after) :
    job.Follows kept action world stage other := by
  obtain ⟨runs, last, hruns, htrail, hfail, hnext⟩ := h
  refine ⟨runs, last, hruns, htrail, hfail, ?_⟩
  intro value hvalue
  exact hother value last _ (hnext value hvalue)

theorem Follows.bind {action : Action α} {next : α → Action β}
    (h : job.Follows kept action world stage fun value last between =>
      action.Yields world value between → job.Follows kept (next value) between last behind) :
    job.Follows kept (action >>= next) world stage behind := by
  obtain ⟨runs, middle, hruns, htrail, hfail, hnext⟩ := h
  rcases run_cases action world with ⟨error, after, hrun⟩ | ⟨value, between, hyields⟩
  · -- What follows is never begun, and the trail stays where the action left it.
    refine ⟨runs, middle, ?_, htrail, ?_, ?_⟩
    · rw [run_bind_of_error hrun]
      rwa [hrun] at hruns
    · intro _ _
      apply hfail error
      rw [hrun]
    · intro value hvalue
      rw [run_bind_of_error hrun] at hvalue
      cases hvalue
  · have hresult : (action.run world).1 = .ok value := by rw [hyields]
    have hafter : (action.run world).2 = between := by rw [hyields]
    have hmore := hnext value hresult
    rw [hafter] at hmore hruns
    obtain ⟨more, last, hmoreRuns, hmoreTrail, hmoreFail, hmoreNext⟩ := hmore hyields
    rw [← run_bind_of_yields hyields next] at hmoreRuns hmoreFail hmoreNext
    refine ⟨runs ++ more, last, ?_, htrail.trans hmoreTrail, hmoreFail, hmoreNext⟩
    rw [hmoreRuns, hruns, List.append_assoc]

theorem Follows.lift {result : Except Error α}
    (hfail : ∀ error, result = .error error → Unfinished stage)
    (hnext : ∀ value, result = .ok value → post value stage world) :
    job.Follows kept (liftM result) world stage post := by
  cases result with
  | error error => exact .throw (hfail error rfl)
  | ok value => exact .pure (hnext value rfl)

theorem Follows.placed {result : Except Misplaced α}
    (hfail : ∀ token, result = .error token → Unfinished stage)
    (hnext : ∀ value, result = .ok value → post value stage world) :
    job.Follows kept (placed result) world stage post := by
  cases result with
  | error token => exact .throw (hfail token rfl)
  | ok value => exact .pure (hnext value rfl)

theorem Follows.noted {action : Action α} {value : α} (h : action.Settles world (some value))
    (hnext : ∀ between, world.Spares ∅ between → post value stage between) :
    job.Follows kept action world stage post := by
  obtain ⟨between, hyields, hruns, hspares⟩ := h.yields
  exact .done hyields hruns (hnext between hspares)

/-- A stage may be left for the one with the text that is found, which is the same if files keep what
is written to them. -/
theorem Follows.withText {action : Action α} {here : Stage} {text : Text}
    (hsame : kept → here.withText text = here)
    (h : job.Follows kept action world (some (here.withText text)) post) :
    job.Follows kept action world (some here) post := by
  by_cases hkept : kept
  · rwa [hsame hkept] at h
  · obtain ⟨runs, last, hruns, htrail, hfail, hnext⟩ := h
    exact ⟨runs, last, hruns, .other text hkept htrail, hfail, hnext⟩

/-- An action with one tool goes on by one stage. The tool sees what the file holds, unless the log is
kept there. -/
theorem Follows.of_asksOnce {action : Action α} {invocation : Invocation} {answer : Run → Option α}
    {here : Stage} {file : Path} {text : Text} (h : action.AsksOnce world invocation answer)
    (hhere : Unfinished (some here)) (hhome : world.home = job.home)
    (hread : world.readText file = .ok text)
    (hclear : kept → placeOf job.home file ∉ world.logPlaces)
    (hasks : ∀ run, run.invocation = invocation → run.Sees job.home file text → job.Asks here run)
    (hfail : ∀ run, answer run = none → Unfinished (here.next? job.home run))
    (hnext : ∀ run value between, answer run = some value → world.Spares ∅ between →
      post value (here.next? job.home run) between) :
    job.Follows kept action world (some here) post := by
  rw [World.readText_eq_ok_iff, hhome] at hread
  rcases h.outcome with ⟨hruns, hresult⟩ | ⟨run, hruns, hinvocation, htree, hresult⟩
  · refine ⟨[], some here, ?_, .here _, fun _ _ _ => hhere, ?_⟩
    · rw [hruns, List.append_nil]
    · intro value hvalue
      rw [hvalue] at hresult
      cases hresult
  · obtain ⟨tree, hseen, hsame⟩ : ∃ tree : FileTree,
        tree.read job.home file = .ok (Text.toBytes text) ∧ (kept → tree = run.tree) := by
      by_cases hkept : kept
      · exact ⟨run.tree, htree.read hread (hclear hkept), fun _ => rfl⟩
      · exact ⟨world.tree, hread, fun hkept' => absurd hkept' hkept⟩
    have hstep : job.Asks here { run with tree := tree } := hasks _ hinvocation hseen
    refine ⟨[run], _, hruns, .step tree hstep hsame (.here _), ?_, ?_⟩
    · intro error herror _
      apply hfail
      rw [← hresult, herror]
      rfl
    · intro value hvalue
      apply hnext run value _ ?_ h.spares
      rw [← hresult, hvalue]
      rfl

/-- A branch that comes back to the main way. -/
theorem Follows.detour {noted : Prop} [Decidable noted] {action next : Action α}
    (haction : (∀ between, world.Spares ∅ between → job.Follows kept next between stage post) →
      job.Follows kept action world stage post)
    (hnext : ∀ between, world.Spares ∅ between → job.Follows kept next between stage post) :
    job.Follows kept (if noted then action else next) world stage post := by
  split
  · exact haction hnext
  · exact hnext world (.refl world)

theorem Follows.writeText {path : Path} {text : Text} {post : Unit → Option Stage → World → Prop}
    (hstage : Unfinished stage)
    (hnext : ∀ after, world.writeText path text = .ok after → post () stage after) :
    job.Follows kept (writeText path text) world stage post := by
  rcases writeText_cases path text world with ⟨error, hfail⟩ | ⟨after, hwrite, hyields⟩
  · exact .fail hfail rfl fun _ => hstage
  · exact .done hyields (World.readText_of_writeText hwrite).2 (hnext after hwrite)

theorem Follows.adapt {action : Action α} (h : job.Follows kept action world stage post)
    (rename : Error → Error) : job.Follows kept (ExceptT.adapt rename action) world stage post := by
  obtain ⟨runs, last, hruns, htrail, hfail, hnext⟩ := h
  have hresult : (ExceptT.run (ExceptT.adapt rename action) world).1 =
      (action.run world).1.mapError rename := rfl
  refine ⟨runs, last, hruns, htrail, ?_, ?_⟩
  · intro error herror
    rw [hresult] at herror
    cases haction : (action.run world).1 with
    | error cause => exact hfail cause haction
    | ok value =>
        rw [haction] at herror
        cases herror
  · intro value hvalue
    rw [hresult] at hvalue
    cases haction : (action.run world).1 with
    | error cause =>
        rw [haction] at hvalue
        cases hvalue
    | ok other =>
        rw [haction] at hvalue
        cases hvalue
        exact hnext value haction

variable (job) in
/-- The files that are written outside of scratch directories. -/
def derived : List Path := if job.names.isEmpty then [job.output] else [job.source, job.output]

/-- A world in which a job works in a scratch directory. The log is elsewhere if files keep what is
written to them. -/
structure WorksIn (job : Job) (kept : Prop) (dir : Path) (world : World) : Prop where
  home : world.home = job.home
  log : kept → ∀ location ∈ world.logPlaces, location ∉ below (placeOf job.home dir)

/-- A copy in a scratch directory is not where the log is kept. -/
theorem Follows.copy {dir : Path} {name text : Text} {post : Path → Option Stage → World → Prop}
    (hname : IsName name) (hslash : '/' ∉ name) (hworks : job.WorksIn kept dir world)
    (hstage : Unfinished stage)
    (hnext : ∀ between, between.readText (Path.join dir name) = .ok text →
      (kept → placeOf job.home (Path.join dir name) ∉ between.logPlaces) →
      world.Spares (below (placeOf job.home dir)) between →
      post (Path.join dir name) stage between) :
    job.Follows kept (Scratch.write dir name text) world stage post := by
  have hplace : placeOf job.home (Path.join dir name) ∈ below (placeOf job.home dir) := by
    rw [placeOf_join hname hslash]
    exact List.prefix_append _ _
  rw [Scratch.write]
  apply Follows.bind
  apply Follows.writeText hstage
  intro written hwrite _
  have hspares : world.Spares (below (placeOf job.home dir)) written := by
    apply (World.spares_writeText hwrite).mono
    rwa [hworks.home, Set.singleton_subset_iff]
  apply Follows.pure
  apply hnext written (World.readText_of_writeText hwrite).1 ?_ hspares
  rw [hspares.logPlaces_eq]
  intro hkept hmem
  exact hworks.log hkept _ hmem hplace

end Job

end Canonicalization

end PlainC
