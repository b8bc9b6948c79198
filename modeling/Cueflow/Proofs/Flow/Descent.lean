import Mathlib
import Cueflow.Proofs.Choice.Settling
import Cueflow.Proofs.Flow.Bookkeeping
import Cueflow.Proofs.Flow.HandOver
import Cueflow.Proofs.Schedule.Aiming
/-!
# Flows that end

Where everything that a flow leads to was prepared, it is a tree, and a director goes down in it.

> `prebuilt_chains_end`: what a director installs after a start stands along one path into the
> flow, so that nothing is installed twice. There are as many hand-overs as interpreters that
> ended, which is no more than the flow is deep, and after the last one the director is idle.

An interpreter is told by its place: the targets through which it is reached (`Flow.at?`). A step
that suspends leaves all targets alone, and one that ends its flow hands over what one of them
resolves to (`Flow.step_cases`), which is less deep.
-/

namespace Cueflow

variable {T H K C : Type}

/-! ## Trees of interpreters -/

/-- Nothing has to be built on demand. -/
def Target.Ready : Target K C → Prop
  | .stop | .handOver _ => True
  | .build _ => False

/-- What is ready comes to what was prepared. -/
theorem Target.resolve_of_ready [Builder K H C] {target : Target K C} (hready : target.Ready)
    (h : H) : (target.resolve h).1 = target.prepared := by
  cases target with
  | stop => rfl
  | handOver next => rfl
  | build key => exact hready.elim

namespace Flow

/-- Where a flow leads: the target of a playback, if it has one, or those of the branches. -/
def targets : Flow T H K → List (Target K (Flow T H K))
  | .playback p => p.target.toList
  | .junction j => j.branches.map (·.target)

/-- What was prepared at a target. -/
def nextAt (c : Flow T H K) (i : ℕ) : Option (Flow T H K) :=
  c.targets[i]?.bind Target.prepared

/-- What stands at a place: the flow itself, or what was prepared at one target after another. -/
def at? : Flow T H K → List ℕ → Option (Flow T H K)
  | c, [] => some c
  | c, i :: path => (c.nextAt i).bind fun next => next.at? path

theorem prepared_eq (c : Flow T H K) : c.prepared = c.targets.filterMap Target.prepared := by
  cases c with
  | playback p =>
    show (p.target.bind Target.prepared).toList = p.target.toList.filterMap Target.prepared
    cases p.target with
    | none => rfl
    | some target => cases htarget : target.prepared <;> simp [htarget]
  | junction j =>
    show (j.branches.flatMap fun b => b.target.prepared.toList) =
      (j.branches.map (·.target)).filterMap Target.prepared
    rw [List.filterMap_map]
    exact (List.filterMap_eq_flatMap_toList _ _).symm

theorem mem_prepared_of_nextAt {c next : Flow T H K} {i : ℕ} (hnext : c.nextAt i = some next) :
    next ∈ c.prepared := by
  obtain ⟨target, htarget, hprepared⟩ := Option.bind_eq_some_iff.1 hnext
  rw [prepared_eq]
  exact List.mem_filterMap.2 ⟨target, List.mem_of_getElem? htarget, hprepared⟩

/-- Everything that the flow leads to was prepared, to any depth. -/
inductive Prebuilt : Flow T H K → Prop where
  | intro {c : Flow T H K} : (∀ target ∈ c.targets, target.Ready) →
      (∀ next ∈ c.prepared, Prebuilt next) → Prebuilt c

theorem sizeOf_lt_of_mem_targets {c : Flow T H K} {target : Target K (Flow T H K)}
    (htarget : target ∈ c.targets) : sizeOf target < sizeOf c := by
  cases c with
  | playback p =>
    obtain ⟨timeline, aim, phase, currentTime, cursor, active⟩ := p
    obtain rfl : aim = some target := Option.mem_toList.1 htarget
    simp only [Flow.playback.sizeOf_spec, Playback.mk.sizeOf_spec, Option.some.sizeOf_spec]
    omega
  | junction j =>
    obtain ⟨name, branches, logic, phase, taken, ticks⟩ := j
    obtain ⟨⟨label, invert, condition, aim⟩, hb, rfl⟩ := List.mem_map.1 htarget
    have hlt := List.sizeOf_lt_of_mem hb
    simp only [Branch.mk.sizeOf_spec] at hlt
    simp only [Flow.junction.sizeOf_spec, Junction.mk.sizeOf_spec]
    omega

theorem sizeOf_lt_of_mem_prepared {c next : Flow T H K} (hnext : next ∈ c.prepared) :
    sizeOf next < sizeOf c := by
  rw [prepared_eq] at hnext
  obtain ⟨target, htarget, hprepared⟩ := List.mem_filterMap.1 hnext
  refine Nat.lt_trans ?_ (sizeOf_lt_of_mem_targets htarget)
  cases target with
  | stop => cases hprepared
  | build key => cases hprepared
  | handOver prepared =>
    obtain rfl : prepared = some next := hprepared
    simp only [Target.handOver.sizeOf_spec, Option.some.sizeOf_spec]
    omega

/-- One more than the depth of the deepest of the flows that were prepared. -/
def depth (c : Flow T H K) : ℕ :=
  1 + (c.prepared.attach.map fun next => next.1.depth).foldr max 0
termination_by sizeOf c
decreasing_by exact sizeOf_lt_of_mem_prepared next.2

theorem depth_eq (c : Flow T H K) : c.depth = 1 + (c.prepared.map depth).foldr max 0 := by
  rw [depth, List.map_attach_eq_pmap, List.pmap_eq_map]

theorem depth_pos (c : Flow T H K) : 0 < c.depth := by
  rw [depth_eq]
  omega

theorem depth_lt {c next : Flow T H K} (hnext : next ∈ c.prepared) : next.depth < c.depth := by
  have hle : next.depth ≤ (c.prepared.map depth).foldr max 0 :=
    List.le_max_of_le (List.mem_map_of_mem hnext) le_rfl
  rw [depth_eq c]
  omega

namespace Prebuilt

variable {c next : Flow T H K}

theorem ready (hc : c.Prebuilt) : ∀ target ∈ c.targets, target.Ready := by
  cases hc with
  | intro hready _ => exact hready

theorem prepared (hc : c.Prebuilt) : ∀ next ∈ c.prepared, next.Prebuilt := by
  cases hc with
  | intro _ hprepared => exact hprepared

theorem nextAt (hc : c.Prebuilt) {i : ℕ} (hnext : c.nextAt i = some next) : next.Prebuilt :=
  hc.prepared next (mem_prepared_of_nextAt hnext)

end Prebuilt

end Flow

/-! ## Steps -/

section Steps

variable [Scalar T] [Host H T]

/-- A step of a playback leaves the target alone, or ends the playback and resolves it. -/
theorem Playback.step_cases [Builder K H C] (p : Playback T H K C) (h : H) :
    (p.step h).1 = .suspend ∧ (p.step h).2.1.target = p.target ∨
    ∃ next, (p.step h).1 = .done next ∧
      ∀ c, next = some c → ∃ (target : Target K C) (h' : H),
        p.target = some target ∧ (target.resolve h').1 = some c := by
  by_cases hover : p.phase.isTerminal = true
  · rw [step_of_isTerminal hover]
    exact Or.inr ⟨none, rfl, fun c hc => nomatch hc⟩
  · have hstep : p.step h = aimStep p.target ((p.aim (none : Option (Target K C))).step h) :=
      step_aim (by simpa using hover) p.target h
    rw [hstep]
    rcases (p.aim (none : Option (Target K C))).step h with ⟨_ | end?, p', h'⟩
    · exact Or.inl ⟨rfl, rfl⟩
    · refine Or.inr ⟨_, rfl, fun c hc => ?_⟩
      cases htarget : p.target with
      | none =>
        rw [htarget] at hc
        cases hc
      | some target =>
        rw [htarget] at hc
        exact ⟨target, h', rfl, hc⟩

/-- A step of a junction leaves the targets alone, or ends the junction and resolves one. -/
theorem Junction.step_cases [Builder K H C] (j : Junction T H K C) (h : H) :
    (j.step h).1 = .suspend ∧ (j.step h).2.1.branches.map (·.target) = j.branches.map (·.target) ∨
    ∃ next, (j.step h).1 = .done next ∧
      ∀ c, next = some c → ∃ (i : ℕ) (target : Target K C) (h' : H),
        (j.branches.map (·.target))[i]? = some target ∧ (target.resolve h').1 = some c := by
  rcases j.phase_cases with hrun | hover
  · have htargets := targets_of_heading (heading_settle j h)
    rw [step_eq_leave hrun]
    rcases settle_cases hrun h with hphase | ⟨hphase, i, hi, htaken⟩
    · rw [leave_of_running hphase]
      exact Or.inl ⟨rfl, htargets⟩
    · rw [leave_of_taken hphase htaken]
      refine Or.inr ⟨_, rfl, fun c hc => ?_⟩
      have hlt : i < (j.branches.map (·.target)).length := by rwa [List.length_map]
      obtain ⟨target, htarget⟩ : ∃ target, (j.branches.map (·.target))[i]? = some target :=
        ⟨_, List.getElem?_eq_getElem hlt⟩
      refine ⟨i, target, (j.settle h).2, htarget, ?_⟩
      rw [← htargets] at htarget
      rw [← (resolveAt_eq htarget (j.settle h).2).1]
      exact hc
  · rw [step_of_over hover]
    exact Or.inr ⟨none, rfl, fun c hc => nomatch hc⟩

variable [Builder K H (Flow T H K)]

/-- A step of a flow suspends and leaves the targets alone, or it ends and hands over what was
prepared at one of them, if nothing has to be built. -/
theorem Flow.step_cases {c : Flow T H K} (hready : ∀ target ∈ c.targets, target.Ready) (h : H) :
    (c.step h).1 = .suspend ∧ (c.step h).2.1.targets = c.targets ∨
    ∃ next, (c.step h).1 = .done next ∧ ∀ n, next = some n → ∃ i, c.nextAt i = some n := by
  have hnext : ∀ (i : ℕ) (target : Target K (Flow T H K)) (h' : H) (n : Flow T H K),
      c.targets[i]? = some target → (target.resolve h').1 = some n → c.nextAt i = some n := by
    intro i target h' n htarget hresolve
    rw [Target.resolve_of_ready (hready target (List.mem_of_getElem? htarget))] at hresolve
    rw [Flow.nextAt, htarget]
    exact hresolve
  cases c with
  | playback p =>
    rcases p.step_cases h with ⟨hsuspend, htarget⟩ | ⟨next, hdone, hresolve⟩
    · exact Or.inl ⟨hsuspend, congrArg Option.toList htarget⟩
    · refine Or.inr ⟨next, hdone, fun n hn => ?_⟩
      obtain ⟨target, h', htarget, hn⟩ := hresolve n hn
      refine ⟨0, hnext 0 target h' n ?_ hn⟩
      show p.target.toList[0]? = some target
      rw [htarget]
      rfl
  | junction j =>
    rcases j.step_cases h with ⟨hsuspend, htargets⟩ | ⟨next, hdone, hresolve⟩
    · exact Or.inl ⟨hsuspend, htargets⟩
    · refine Or.inr ⟨next, hdone, fun n hn => ?_⟩
      obtain ⟨i, target, h', htarget, hn⟩ := hresolve n hn
      exact ⟨i, hnext i target h' n htarget hn⟩

end Steps

/-! ## Runs -/

/-- Time passes: a tick, or something happens to the host. -/
def Command.Passing : Command C H → Prop
  | .tick | .outside _ => True
  | .abort | .start _ | .redirect _ => False

theorem Command.Passing.installs {command : Command C H} (h : command.Passing) :
    command.installs = none := by
  cases command with
  | tick => rfl
  | outside f => rfl
  | abort => exact h.elim
  | start flow => exact h.elim
  | redirect next => exact h.elim

namespace Director

variable [StatusBoard H]

/-- A director that is idle stays so until something is installed. -/
theorem idle_after [Interpreter C H] {x : Director C × H} (hidle : x.1.current = none)
    {commands : List (Command C H)} (hcommands : ∀ command ∈ commands, command.installs = none) :
    outcomes commands x = [] ∧ (after commands x).1.current = none ∧
      (after commands x).1.transitions = x.1.transitions := by
  induction commands generalizing x with
  | nil => exact ⟨rfl, hidle, rfl⟩
  | cons command commands ih =>
    obtain ⟨hcommand, hrest⟩ := List.forall_mem_cons.1 hcommands
    have hobeyed : outcome x command = [] ∧ (obey x command).1 = x.1 := by
      cases command with
      | tick => exact ⟨by rw [outcome, hidle]; rfl, by rw [obey, tick_of_idle hidle]⟩
      | abort => exact ⟨rfl, by rw [obey, abort_of_idle hidle]⟩
      | outside f => exact ⟨rfl, rfl⟩
      | start flow => cases hcommand
      | redirect next => cases hcommand
    obtain ⟨hnone, hsame⟩ := hobeyed
    have hidle' : (obey x command).1.current = none := by rw [hsame, hidle]
    obtain ⟨houtcomes, hcurrent, htransitions⟩ := ih hidle' hrest
    rw [hsame] at htransitions
    exact ⟨by rw [outcomes, hnone, houtcomes]; rfl, hcurrent, htransitions⟩

/-- A director that was running `origin` has installed this since, along this path, and its
hand-overs are those of all interpreters on the path but the one that is still running. -/
structure Descends (origin : Flow T H K) (before : Director (Flow T H K))
    (installed : List (Flow T H K)) (after : Director (Flow T H K)) (path : List ℕ) : Prop where
  installed : (origin :: installed).map some = path.inits.map origin.at?
  shallow : path.length < origin.depth
  transitions : after.transitions + after.current.toList.length =
    before.transitions + path.length + 1

variable {origin next : Flow T H K} {d d' : Director (Flow T H K)}

omit [StatusBoard H] in
/-- Nothing was installed: the flow still runs, or it ended and handed over nothing. -/
theorem Descends.here (h : d'.transitions + d'.current.toList.length = d.transitions + 1) :
    Descends origin d [] d' [] where
  installed := rfl
  shallow := origin.depth_pos
  transitions := h

omit [StatusBoard H] in
/-- One interpreter deeper. -/
theorem Descends.cons {i : ℕ} {installed : List (Flow T H K)} {path : List ℕ}
    (hnext : origin.nextAt i = some next) (hd : d.transitions = d'.transitions + 1)
    {final : Director (Flow T H K)} (h : Descends next d installed final path) :
    Descends origin d' (next :: installed) final (i :: path) where
  installed := by
    have hplaces : origin.at? ∘ List.cons i = next.at? := by
      funext p
      show (origin.nextAt i).bind _ = _
      rw [hnext]
      rfl
    calc (origin :: next :: installed).map some
        = origin.at? [] :: path.inits.map next.at? := congrArg (some origin :: ·) h.installed
      _ = (i :: path).inits.map origin.at? := by
        rw [List.inits_cons, List.map_cons, List.map_map, hplaces]
  shallow := by
    have hless := Flow.depth_lt (Flow.mem_prepared_of_nextAt hnext)
    have := h.shallow
    rw [List.length_cons]
    omega
  transitions := by
    rw [h.transitions, hd, List.length_cons]
    omega

variable [Scalar T] [Host H T] [Builder K H (Flow T H K)]

/-- A tick leaves the targets alone, or it installs what was prepared at one of them, if that is
anything. -/
theorem tick_cases {c : Flow T H K} (hready : ∀ target ∈ c.targets, target.Ready)
    {x : Director (Flow T H K) × H} (hx : x.1.current = some c) :
    (∃ c', outcome x .tick = [.suspend] ∧ (obey x .tick).1.current = some c' ∧
      (obey x .tick).1.transitions = x.1.transitions ∧ c'.targets = c.targets) ∨
    ∃ next, outcome x .tick = [.done next] ∧ (obey x .tick).1.current = next ∧
      (obey x .tick).1.transitions = x.1.transitions + 1 ∧
      ∀ n, next = some n → ∃ i, c.nextAt i = some n := by
  rcases Flow.step_cases hready x.2 with ⟨hsuspend, hsame⟩ | ⟨next, hdone, hnext⟩
  · obtain ⟨houtcome, hobey⟩ := tick_of_suspend hx hsuspend
    exact Or.inl ⟨_, houtcome, congrArg (·.1.current) hobey, by rw [hobey], hsame⟩
  · obtain ⟨houtcome, hobey⟩ := tick_of_done hx hdone
    exact Or.inr ⟨next, houtcome, by rw [hobey], by rw [hobey], hnext⟩

/-- Ticks lead down, however the host changes between them. -/
theorem descends_after {commands : List (Command (Flow T H K) H)}
    (hcommands : ∀ command ∈ commands, command.Passing) {c : Flow T H K}
    {x : Director (Flow T H K) × H} (horigin : origin.Prebuilt) (htargets : c.targets = origin.targets)
    (hx : x.1.current = some c) :
    ∃ path, Descends origin x.1 ((outcomes commands x).filterMap StepResult.next?)
      (after commands x).1 path := by
  induction commands generalizing origin c x with
  | nil => exact ⟨[], .here (by rw [after, List.foldl_nil, hx]; rfl)⟩
  | cons command commands ih =>
    obtain ⟨hcommand, hrest⟩ := List.forall_mem_cons.1 hcommands
    cases command with
    | abort => exact hcommand.elim
    | start flow => exact hcommand.elim
    | redirect next => exact hcommand.elim
    | outside f => exact ih (x := (x.1, f x.2)) hrest horigin htargets hx
    | tick =>
      have hready : ∀ target ∈ c.targets, target.Ready := by
        rw [htargets]
        exact horigin.ready
      rcases tick_cases hready hx with
        ⟨c', houtcome, hcurrent, hkept, hsame⟩ | ⟨next, houtcome, hcurrent, hcounted, hnext⟩
      all_goals rw [outcomes, houtcome]
      · obtain ⟨path, hpath⟩ := ih hrest horigin (hsame.trans htargets) hcurrent
        exact ⟨path, hpath.installed, hpath.shallow, hpath.transitions.trans (by rw [hkept])⟩
      · cases next with
        | none =>
          obtain ⟨hnone, hidle, htransitions⟩ := idle_after hcurrent
            fun command hmem => (hrest command hmem).installs
          rw [hnone]
          refine ⟨[], .here ?_⟩
          show (after commands (obey x .tick)).1.transitions +
            (after commands (obey x .tick)).1.current.toList.length = _
          rw [htransitions, hidle, hcounted]
          rfl
        | some n =>
          obtain ⟨i, hn⟩ := hnext n rfl
          have hn' : origin.nextAt i = some n := by rwa [Flow.nextAt, ← htargets]
          obtain ⟨path, hpath⟩ := ih hrest (horigin.nextAt hn') rfl hcurrent
          exact ⟨i :: path, hpath.cons hn' hcounted⟩

/-- Each prefix of a path is a place of its own. -/
theorem nodup_inits (path : List ℕ) : path.inits.Nodup := by
  induction path with
  | nil => exact List.nodup_singleton []
  | cons i path ih =>
    rw [List.inits_cons, List.nodup_cons]
    refine ⟨fun hmem => ?_, ih.map List.cons_injective⟩
    obtain ⟨p, -, hp⟩ := List.mem_map.1 hmem
    cases hp

omit [StatusBoard H] [Scalar T] [Host H T] [Builder K H (Flow T H K)] in
/-- What stands along a path has different labels where all places have. -/
theorem nodup_of_places {flow : Flow T H K} {path : List ℕ} {installed : List (Flow T H K)}
    {L : Type} {label : Flow T H K → L}
    (hinstalled : installed.map some = path.inits.map flow.at?)
    (hlabel : ∀ p q c c', flow.at? p = some c → flow.at? q = some c' → label c = label c' →
      p = q) : (installed.map label).Nodup := by
  have hplace : ∀ p ∈ path.inits, ∃ c, flow.at? p = some c := by
    intro p hp
    have hmem := List.mem_map_of_mem hp (f := flow.at?)
    rw [← hinstalled] at hmem
    obtain ⟨c, -, hc⟩ := List.mem_map.1 hmem
    exact ⟨c, hc.symm⟩
  have hlabels : (installed.map label).map some =
      path.inits.map fun p => (flow.at? p).map label := by
    have := congrArg (List.map (Option.map label)) hinstalled
    rw [List.map_map, List.map_map] at this
    rw [List.map_map]
    exact this
  refine List.Nodup.of_map some ?_
  rw [hlabels]
  refine List.Nodup.map_on (fun p hp q hq heq => ?_) (nodup_inits path)
  obtain ⟨c, hc⟩ := hplace p hp
  obtain ⟨c', hc'⟩ := hplace q hq
  rw [hc, hc'] at heq
  exact hlabel p q c c' hc hc' (Option.some.inj heq)

/-- A flow to which everything was prepared ends. From its start on, however long the ticks are and
whatever its callbacks and tests do, the interpreters that are installed stand one below the other
along one path into the flow, each at its own place, so that no two of them have the same label if
the interpreters of the flow have different ones. The hand-overs are as many as interpreters were
installed, less the one that is still running, and no more than the flow is deep. Once there have
been as many as the path is long the director is idle, and then it stays idle, without further
hand-overs, until it is started or redirected. -/
theorem prebuilt_chains_end {flow : Flow T H K} (hflow : flow.Prebuilt)
    (x : Director (Flow T H K) × H) {commands : List (Command (Flow T H K) H)}
    (hcommands : ∀ command ∈ commands, command.Passing) :
    let started := obey x (.start flow)
    let final := after commands started
    let installed := flow :: (outcomes commands started).filterMap StepResult.next?
    (∃ path : List ℕ, installed.map some = path.inits.map flow.at?) ∧
    (∀ {L : Type} (label : Flow T H K → L),
      (∀ p q c c', flow.at? p = some c → flow.at? q = some c' → label c = label c' → p = q) →
      (installed.map label).Nodup) ∧
    final.1.transitions ≤ x.1.transitions + flow.depth ∧
    (final.1.current = none ↔ final.1.transitions = x.1.transitions + installed.length) ∧
    (final.1.current = none → ∀ later : List (Command (Flow T H K) H),
      (∀ command ∈ later, command.installs = none) →
        (after later final).1.current = none ∧
          (after later final).1.transitions = final.1.transitions) := by
  intro started final installed
  obtain ⟨path, hpath⟩ := descends_after (x := started) hcommands hflow rfl rfl
  have hinstalled : installed.map some = path.inits.map flow.at? := hpath.installed
  have hlength : installed.length = path.length + 1 := by
    have := congrArg List.length hinstalled
    rwa [List.length_map, List.length_map, List.length_inits] at this
  have htransitions : final.1.transitions + final.1.current.toList.length =
      x.1.transitions + path.length + 1 := hpath.transitions
  have hshallow := hpath.shallow
  refine ⟨⟨path, hinstalled⟩, ?_, ?_, ?_, fun hidle later hlater => ?_⟩
  · exact fun label hlabel => nodup_of_places hinstalled hlabel
  · omega
  · cases hcurrent : final.1.current with
    | none =>
      rw [hcurrent, Option.toList_none, List.length_nil] at htransitions
      exact ⟨fun _ => by omega, fun _ => rfl⟩
    | some c =>
      rw [hcurrent, Option.toList_some, List.length_singleton] at htransitions
      exact ⟨(nomatch ·), fun h => absurd h (by omega)⟩
  · exact (idle_after hidle hlater).2

/-- A timeline that leads to a gate, which leads to another timeline: three ticks end the chain, and
a fourth does nothing. -/
theorem prebuilt_chains_end_of_gate :
    let outro : Flow Float32 World Empty := .playback (.opening ⟨"outro", []⟩ none)
    let gate : Flow Float32 World Empty := .junction (.ofBranches "gate" []
      [.when (.bound "no" fun _ => false) .stop, .when .always (.goto outro)])
    let intro : Flow Float32 World Empty :=
      .playback (.opening ⟨"intro", [.call 1 id]⟩ (some (.goto gate)))
    let started := obey (idle "main" (World.ofSeed none)) (.start intro)
    let final := after [.outside (·.beginTick 1), .tick, .tick, .tick] started
    intro.Prebuilt ∧ intro.depth = 3 ∧ final.1.current = none ∧ final.1.transitions = 3 ∧
    (after [.tick] final).1.transitions = 3 := by
  intro outro gate start started final
  have houtro : outro.Prebuilt := .intro (fun _ h => nomatch h) fun _ h => nomatch h
  have hgate : gate.Prebuilt := by
    refine .intro ?_ (List.forall_mem_singleton.2 houtro)
    exact List.forall_mem_cons.2 ⟨trivial, List.forall_mem_singleton.2 trivial⟩
  have hstart : start.Prebuilt := .intro (List.forall_mem_singleton.2 trivial)
    (List.forall_mem_singleton.2 hgate)
  have hdepth : start.depth = 3 := by
    have hless : outro.depth = 1 := outro.depth_eq
    have hgate : gate.depth = 1 + max outro.depth 0 := gate.depth_eq
    have hstart : start.depth = 1 + max gate.depth 0 := start.depth_eq
    rw [hstart, hgate, hless]
    rfl
  have hcommands : ∀ command ∈ ([.outside (·.beginTick 1), .tick, .tick, .tick] :
      List (Command (Flow Float32 World Empty) World)), command.Passing := by
    simp [Command.Passing]
  obtain ⟨-, -, -, -, hstays⟩ := prebuilt_chains_end hstart (idle "main" (World.ofSeed none))
    hcommands
  have hthree : final.1.transitions = 3 := by decide +kernel
  have hidle : final.1.current = none := Option.isNone_iff_eq_none.1 (by decide +kernel)
  exact ⟨hstart, hdepth, hidle, hthree, (hstays hidle [.tick]
    (List.forall_mem_singleton.2 rfl)).2.trans hthree⟩

end Director

end Cueflow
