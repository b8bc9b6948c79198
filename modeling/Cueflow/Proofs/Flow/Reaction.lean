import Cueflow.Player.Show
import Cueflow.Proofs.Flow.Dependencies
/-!
# Reacting in the same tick

Two directors on one world, of which one is ticked first and the other runs a junction that
leaves when the first one stops.

> `reacts_in_same_tick`: whatever the first director is told to do, no tick of the world ends
> with the junction still waiting for it and the first director idle.

A director posts its status in its own tick, and the junction asks for it when it is its turn, so
that a director which stops is found out before the tick is over. `Unless` says that a branch of
the junction is there to do so: a step leaves the junction if the machine is idle by then
(`Unless.step_or`), and otherwise keeps the branch as it is (`Unless.step_undisturbed`). `Minds`
is what holds between two ticks of the world, and `Minds.after` that it holds until the junction
is left.
-/

namespace Cueflow

variable {T H K C : Type}

namespace Junction

/-- Branch `b` is open unless the machine of this dependency is running. -/
structure Unless (b : Nat) (d : Dependency) (branches : List (Branch T H K C)) : Prop where
  inverted : (branches.map Branch.heading)[b]?.map (·.2.1) = some true
  node : nodeAt branches b [] = some (.dependency d)

namespace Unless

variable {b : Nat} {d : Dependency} {branches : List (Branch T H K C)}

theorem of_branch {br : Branch T H K C} (hbranch : branches[b]? = some br)
    (hinvert : br.invert = true) (hcond : br.condition = .dependency d) :
    Unless b d branches where
  inverted := by
    rw [List.getElem?_map, hbranch]
    exact congrArg some hinvert
  node := by
    unfold nodeAt
    rw [hbranch]
    exact congrArg some hcond

variable [Host H T]

/-- Starting looks the machine up. -/
theorem startBranches (hb : Unless b d branches) (h : H) :
    Unless b { d with handle := (Host.lookup (T := T) d.name (startsAt branches b [] h)).1 }
      (startBranches branches h).1 where
  inverted := by
    rw [heading_startBranches]
    exact hb.inverted
  node := by
    rw [nodeAt_startBranches, hb.node]
    rfl

variable [Scalar T]

/-- Evaluating keeps it. -/
theorem turnBranches (hb : Unless b d branches) (k : Nat) (h : H) :
    Unless b d (turnBranches k branches h).1 where
  inverted := by
    rw [heading_turnBranches]
    exact hb.inverted
  node := by
    rw [nodeAt_turnBranches, hb.node]
    split <;> rfl

/-- The branch is open when the machine is not running. -/
theorem opensAt_iff (hb : Unless b d branches) (h : H) :
    OpensAt branches h b ↔ d.isMet (Junction.turnBranches b branches h).2 = false := by
  obtain ⟨br, hbranch, hcond⟩ := Option.bind_eq_some_iff.1 hb.node
  have hcond : br.condition = .dependency d := Option.some.inj hcond
  have hinvert : br.invert = true := by
    have hheading := hb.inverted
    rw [List.getElem?_map, hbranch] at hheading
    exact Option.some.inj hheading
  have hmet : ∀ h, (br.condition.isMet h).1 = d.isMet h := by
    intro h
    rw [hcond]
    rfl
  constructor
  · rintro ⟨br', hbranch', hopen⟩
    rw [hbranch] at hbranch'
    cases hbranch'
    rw [hmet, hinvert] at hopen
    exact Bool.eq_false_iff.2 hopen
  · intro hstopped
    refine ⟨br, hbranch, ?_⟩
    rw [hmet, hinvert, hstopped]
    exact Bool.false_ne_true

variable [Builder K H C] {j : Junction T H K C}

/-- A step evaluates all branches, finds this one not open and waits on, or it leaves. -/
theorem step_or (hrun : j.phase = .notStarted ∨ j.phase = .running) {h : H}
    (hb : Unless b d (j.start h).1.branches) :
    let opened := (j.start h).1.branches
    let updated := runLogic Background.update j.logic (j.start h).2
    let turned := Junction.turnBranches opened.length opened updated
    (j.step h = (.suspend, { j with branches := turned.1, phase := .running, ticks := j.ticks + 1 },
      turned.2) ∧ ¬ OpensAt opened updated b) ∨
    ((∃ next, (j.step h).1 = .done next) ∧ (j.step h).2.1.phase = .taken) := by
  intro opened updated turned
  have hlt : b < opened.length := by
    obtain ⟨br, hbranch, -⟩ := Option.bind_eq_some_iff.1 hb.node
    exact (List.getElem?_eq_some_iff.1 hbranch).1
  rcases first_or_none opened updated with ⟨i, hopen, hbefore⟩ | hnone
  · rw [step_of_first hrun hopen hbefore]
    exact Or.inr ⟨⟨_, rfl⟩, rfl⟩
  · exact Or.inl ⟨step_of_none hrun hnone, hnone b hlt⟩

omit [Scalar T] [Builder K H C] in
/-- The branches of a junction that starts, when the name stands for this machine. -/
theorem start (hb : Unless b d j.branches) (hfresh : j.phase = .notStarted) {h : H}
    {handle : Handle}
    (hfound : (Host.lookup (T := T) d.name (startsAt j.branches b [] h)).1 = some handle) :
    Unless b ⟨d.name, some handle⟩ (j.start h).1.branches := by
  have hstarted := hb.startBranches h
  rw [hfound] at hstarted
  unfold Junction.start
  rw [hfresh]
  exact hstarted

/-- As long as the junction runs, the machine is the one that had the name when it started. -/
theorem play (hb : Unless b d j.branches) (hfresh : j.phase = .notStarted) {h : H}
    {handle : Handle}
    (hfound : (Host.lookup (T := T) d.name (startsAt j.branches b [] h)).1 = some handle)
    (past : List (Move H))
    (hrun : (Junction.play (.step :: past) j h).1.phase = .running) :
    Unless b ⟨d.name, some handle⟩ (Junction.play (.step :: past) j h).1.branches := by
  have hkept : ∀ {j : Junction T H K C} {h : H}, (j.phase = .notStarted ∨ j.phase = .running) →
      Unless b ⟨d.name, some handle⟩ (j.start h).1.branches →
      (j.step h).2.1.phase ≠ .notStarted ∧ ((j.step h).2.1.phase = .running →
        Unless b ⟨d.name, some handle⟩ (j.step h).2.1.branches) := by
    intro j h hrun hb
    rcases step_or hrun hb with ⟨hstep, -⟩ | ⟨-, hphase⟩
    · rw [hstep]
      exact ⟨JunctionPhase.noConfusion, fun _ => hb.turnBranches _ _⟩
    · rw [hphase]
      exact ⟨JunctionPhase.noConfusion, fun hrunning => nomatch hrunning⟩
  -- a junction that is not running stays so, and one that runs keeps its branches
  refine (Move.run_keeps (I := fun j : Junction T H K C => j.phase ≠ .notStarted ∧
    (j.phase = .running → Unless b ⟨d.name, some handle⟩ j.branches)) ?_ ?_ past
    (hkept (Or.inl hfresh) (hb.start hfresh hfound)) _).2 hrun
  · rintro j h ⟨hopened, hbranches⟩
    rcases j.phase_cases with hlive | hover
    · have hrunning : j.phase = .running := hlive.resolve_left hopened
      refine hkept hlive ?_
      rw [start_of_running hrunning]
      exact hbranches hrunning
    · rw [step_of_over hover]
      exact ⟨hopened, hbranches⟩
  · rintro j h ⟨hopened, hbranches⟩
    by_cases hrunning : j.phase = .running
    · rw [abort_of_running hrunning]
      exact ⟨JunctionPhase.noConfusion, fun hrunning => nomatch hrunning⟩
    · rw [abort_of_ne_running hrunning]
      exact ⟨hopened, hbranches⟩

/-- A junction that waits on has found the machine running. -/
theorem step_undisturbed [StatusBoard H] (hrun : j.phase = .notStarted ∨ j.phase = .running)
    {h : H} {name : String} {handle : Handle}
    (hb : Unless b ⟨name, some handle⟩ (j.start h).1.branches)
    (hj : j.Respects (.undisturbed handle)) :
    ((j.step h).1 = .suspend ∧ (j.step h).2.1.phase = .running ∧
      Unless b ⟨name, some handle⟩ (j.step h).2.1.branches ∧
      Host.isRunning handle h = true ∧ (Conduct.undisturbed handle).rel h (j.step h).2.2) ∨
    ((∃ next, (j.step h).1 = .done next) ∧ (j.step h).2.1.phase = .taken) := by
  rcases step_or hrun hb with ⟨hstep, hclosed⟩ | hdone
  · obtain ⟨hopened, hstart⟩ := hj.start h
    have hupdated : (Conduct.undisturbed handle).rel h
        (runLogic Background.update j.logic (j.start h).2) :=
      (Conduct.undisturbed handle).trans hopened
        (rel_runLogic (fun l hl => (hj.logic l hl).update) _)
    -- the branch was evaluated after those before it, and these leave the status alone
    have hbefore := (hstart.branches.turn b
      (runLogic Background.update j.logic (j.start h).2)).1
    have hmet : Host.isRunning handle (Junction.turnBranches b (j.start h).1.branches
        (runLogic Background.update j.logic (j.start h).2)).2 = true := by
      by_contra hstopped
      exact hclosed ((hb.opensAt_iff _).2 (Bool.eq_false_iff.2 hstopped))
    rw [hstep]
    refine Or.inl ⟨rfl, rfl, hb.turnBranches _ _, ?_, ?_⟩
    · rw [← hupdated.2, ← hbefore.2]
      exact hmet
    · exact (Conduct.undisturbed handle).trans hupdated (hstart.branches.turn _ _).1
  · exact Or.inr hdone

end Unless

end Junction

/-! ## Two directors on one world -/

/-- A director that anybody may command, one that is only ticked, and the world they share. -/
structure Duo (C K : Type) where
  lead : Director C
  main : Director (Flow Float32 World K)
  world : World

/-- A tick of the world: the lead is ticked, and the main director after it. The lead may be
commanded, and anything else may happen, before either of them. -/
structure Round (C : Type) where
  before : List (Command C World)
  deltaTime : Float32
  between : List (Command C World)

/-- All that happens in a round until it is the main director's turn. -/
def Round.commands (r : Round C) : List (Command C World) :=
  r.before ++ .outside (·.beginTick r.deltaTime) :: .tick :: r.between

/-- What is brought by the commands of a round keeps to the conduct. -/
def Round.Allowed (P : C → Prop) (k : Conduct World) (r : Round C) : Prop :=
  ∀ command ∈ r.before ++ r.between, Director.Allowed P k command

theorem Round.Allowed.commands {P : C → Prop} {handle : Handle} {r : Round C}
    (hr : r.Allowed P (.undisturbed handle)) :
    ∀ command ∈ r.commands, Director.Allowed P (.undisturbed handle) command := by
  obtain ⟨hbefore, hbetween⟩ := List.forall_mem_append.1 hr
  have hbegin : ∀ w : World, (Conduct.undisturbed handle).rel w (w.beginTick r.deltaTime) :=
    fun _ => World.undisturbed_of_statuses rfl handle
  exact List.forall_mem_append.2
    ⟨hbefore, List.forall_mem_cons.2 ⟨hbegin, List.forall_mem_cons.2 ⟨trivial, hbetween⟩⟩⟩

namespace Duo

variable [Interpreter C World] [Builder K World (Flow Float32 World K)]

omit [Builder K World (Flow Float32 World K)] in
/-- The lead, and the world, when it is the main director's turn. -/
def led (s : Duo C K) (r : Round C) : Director C × World :=
  Director.after r.commands (s.lead, s.world)

/-- The duo after a round, and what the main director reported in it. -/
def play (s : Duo C K) (r : Round C) : Tick (Flow Float32 World K) × Duo C K :=
  let (lead, world) := s.led r
  let (tick, main, world) := s.main.tick world
  (tick, { lead, main, world })

/-- The duo after these rounds. -/
def after (rounds : List (Round C)) (s : Duo C K) : Duo C K :=
  rounds.foldl (fun s r => (s.play r).2) s

/-- The main director never counts back. -/
theorem transitions_le_play (s : Duo C K) (r : Round C) :
    s.main.transitions ≤ (s.play r).2.main.transitions := by
  show s.main.transitions ≤ (s.main.tick (s.led r).2).2.1.transitions
  cases hmain : s.main.current with
  | none => rw [Director.tick_of_idle hmain]
  | some c =>
    rw [Director.tick_of_some hmain]
    cases (Interpreter.step c (s.led r).2).1 with
    | suspend => exact Nat.le_refl _
    | done next => exact Nat.le_succ _

theorem transitions_le_after (rounds : List (Round C)) (s : Duo C K) :
    s.main.transitions ≤ (after rounds s).main.transitions := by
  induction rounds generalizing s with
  | nil => exact Nat.le_refl _
  | cons r rounds ih => exact Nat.le_trans (transitions_le_play s r) (ih (s.play r).2)

/-- Between two rounds, the main director is at this junction, which runs and has a branch that
leaves when the lead stops, and the lead's status is true. -/
structure Minds (P : C → Prop) (b : Nat) (name : String) (handle : Handle)
    (j : Junction Float32 World K (Flow Float32 World K)) (s : Duo C K) : Prop where
  reporting : Director.Reporting P handle (s.lead, s.world)
  current : s.main.current = some (.junction j)
  running : j.phase = .running
  branch : Junction.Unless b ⟨name, some handle⟩ j.branches
  respects : j.Respects (.undisturbed handle)

section Rounds

variable {P : C → Prop} {b : Nat} {name : String} {handle : Handle} {s : Duo C K}
  {j : Junction Float32 World K (Flow Float32 World K)}

/-- What a round comes to for a main director at this junction: it waits on, which it does only
if the lead is running after the round, or it leaves. -/
def Heeds (P : C → Prop) (b : Nat) (name : String) (handle : Handle)
    (j : Junction Float32 World K (Flow Float32 World K)) (s : Duo C K) (r : Round C) : Prop :=
  ∃ j', (s.play r).1.stepped = some (.junction j') ∧ j'.ticks = j.ticks + 1 ∧
    ((Minds P b name handle j' (s.play r).2 ∧ (s.play r).2.lead.isRunning = true ∧
        (s.play r).2.main.transitions = s.main.transitions) ∨
      (j'.phase = .taken ∧ (s.play r).2.main.transitions = s.main.transitions + 1))

/-- One round with the main director at a junction that has such a branch once it is started. -/
theorem heeds_of_start (hlead : Director.Reporting P handle (s.lead, s.world))
    (hdiscreet : Director.Discreet P (.undisturbed handle : Conduct World)) {r : Round C}
    (hr : r.Allowed P (.undisturbed handle)) (hmain : s.main.current = some (.junction j))
    (hrun : j.phase = .notStarted ∨ j.phase = .running)
    (hb : Junction.Unless b ⟨name, some handle⟩ (j.start (s.led r).2).1.branches)
    (hj : j.Respects (.undisturbed handle)) : Heeds P b name handle j s r := by
  have hled : Director.Reporting P handle (s.led r) := hlead.after hdiscreet hr.commands
  have hticks : (j.step (s.led r).2).2.1.ticks = j.ticks + 1 := by
    have hlive : ¬ (j.phase = .taken ∨ j.phase = .aborted) := by
      rcases hrun with hphase | hphase <;> simp [hphase]
    rw [Junction.ticks_step, if_neg hlive]
  have htick := Director.tick_of_some hmain (s.led r).2
  have hstep : Interpreter.step (Flow.junction j) (s.led r).2 =
      ((j.step (s.led r).2).1, .junction (j.step (s.led r).2).2.1, (j.step (s.led r).2).2.2) := rfl
  rw [hstep] at htick
  refine ⟨(j.step (s.led r).2).2.1, ?_, hticks, ?_⟩
  · show (s.main.tick (s.led r).2).1.stepped = _
    rw [htick]
    cases (j.step (s.led r).2).1 <;> rfl
  · -- the junction has found the lead running, which holds to the end of the round, or it leaves
    rcases hb.step_undisturbed hrun hj with
      ⟨hsuspend, hphase, hbranch, hrunning, hrel⟩ | ⟨⟨next, hdone⟩, hphase⟩
    · have hplay : (s.play r).2 = ⟨(s.led r).1,
          { s.main with
            current := some (.junction (j.step (s.led r).2).2.1), ticks := s.main.ticks + 1 },
          (j.step (s.led r).2).2.2⟩ := by
        unfold play
        dsimp only
        rw [htick, hsuspend]
      rw [hplay]
      refine Or.inl ⟨⟨hled.undisturbed hrel, rfl, hphase, hbranch, hj.step _⟩, ?_, rfl⟩
      exact hled.reports.symm.trans hrunning
    · refine Or.inr ⟨hphase, ?_⟩
      show (s.main.tick (s.led r).2).2.1.transitions = _
      rw [htick, hdone]

theorem Minds.heeds (hs : Minds P b name handle j s)
    (hdiscreet : Director.Discreet P (.undisturbed handle : Conduct World)) {r : Round C}
    (hr : r.Allowed P (.undisturbed handle)) : Heeds P b name handle j s r := by
  refine heeds_of_start hs.reporting hdiscreet hr hs.current (Or.inr hs.running) ?_ hs.respects
  rw [Junction.start_of_running hs.running]
  exact hs.branch

/-- As long as the main director has not handed over, it is at the same junction. -/
theorem Minds.after (hs : Minds P b name handle j s)
    (hdiscreet : Director.Discreet P (.undisturbed handle : Conduct World))
    {rounds : List (Round C)} (hrounds : ∀ r ∈ rounds, r.Allowed P (.undisturbed handle))
    (hstays : (Duo.after rounds s).main.transitions = s.main.transitions) :
    ∃ j', Minds P b name handle j' (Duo.after rounds s) ∧ j'.ticks = j.ticks + rounds.length := by
  induction rounds generalizing s j with
  | nil => exact ⟨j, hs, rfl⟩
  | cons r rounds ih =>
    obtain ⟨hr, hrest⟩ := List.forall_mem_cons.1 hrounds
    have hlater := transitions_le_after rounds (s.play r).2
    have hstays : (Duo.after rounds (s.play r).2).main.transitions = s.main.transitions := hstays
    obtain ⟨j', -, hticks, ⟨hs', -, hsame⟩ | ⟨-, hover⟩⟩ := hs.heeds hdiscreet hr
    · obtain ⟨j'', hs'', hticks'⟩ := ih hs' hrest (hstays.trans hsame.symm)
      refine ⟨j'', hs'', ?_⟩
      rw [hticks', hticks, List.length_cons]
      omega
    · -- a junction that left has been counted as a transition
      omega

/-- The last of any number of rounds, of which the first is one with such a junction. -/
theorem heeds_last {first last : Round C} {rounds : List (Round C)}
    (hfirst : Heeds P b name handle j s first)
    (hdiscreet : Director.Discreet P (.undisturbed handle : Conduct World))
    (hrounds : ∀ r ∈ rounds ++ [last], r.Allowed P (.undisturbed handle))
    (hstays : (after (first :: rounds) s).main.transitions = s.main.transitions) :
    ∃ j', Heeds P b name handle j' (after (first :: rounds) s) last ∧
      j'.ticks = j.ticks + (first :: rounds).length := by
  obtain ⟨hbefore, hlast⟩ := List.forall_mem_append.1 hrounds
  have hlater := transitions_le_after rounds (s.play first).2
  have hstays : (after rounds (s.play first).2).main.transitions = s.main.transitions := hstays
  obtain ⟨j', -, hticks, ⟨hs', -, hsame⟩ | ⟨-, hover⟩⟩ := hfirst
  · obtain ⟨j'', hs'', hticks'⟩ := hs'.after hdiscreet hbefore (hstays.trans hsame.symm)
    refine ⟨j'', hs''.heeds hdiscreet (hlast last List.mem_cons_self), ?_⟩
    rw [hticks', hticks, List.length_cons]
    omega
  · omega

/-- What the dependency of branch `b` finds under its name if the junction is started on this
world. -/
def found (made : Junction Float32 World K (Flow Float32 World K)) (b : Nat) (d : Dependency)
    (w : World) : Option Handle :=
  (Junction.startsAt made.branches b [] w).machines.get? d.name

/-- Let a director, after any history, be the lead, and let the main director run a junction with
a branch, at any place, that is open unless the machine with some name is running; and let this
have been the lead's name when the junction was started, be that in the first of these rounds or
before them, whatever has happened since. Then after every round in which the main director
steps the junction: if the junction still runs, so does the lead; and if the lead does not, the
junction has taken a branch, and the main director has left it in the same round. Between its
ticks the lead may be told to run anything, to stop, or to run nothing, and anything may happen
to the world, names included, as long as only the lead posts its status. -/
theorem reacts_in_same_tick {title : String} {w₀ : World} {history : List (Command C World)}
    (hlead : (s.lead, s.world) = Director.after history (Director.idle title w₀))
    (hdiscreet : Director.Discreet P (.undisturbed s.lead.status : Conduct World))
    (hhistory : ∀ c ∈ history, Director.Allowed P (.undisturbed s.lead.status) c)
    {made : Junction Float32 World K (Flow Float32 World K)} (hfresh : made.phase = .notStarted)
    {br : Branch Float32 World K (Flow Float32 World K)} (hbranch : made.branches[b]? = some br)
    (hinvert : br.invert = true) {d : Dependency} (hcond : br.condition = .dependency d)
    (hmade : made.Respects (.undisturbed s.lead.status))
    (hmain : s.main.current = some (.junction j)) {rounds : List (Round C)} {last : Round C}
    (hrounds : ∀ r ∈ rounds ++ [last], r.Allowed P (.undisturbed s.lead.status))
    (hregistered :
      (j = made ∧ ∀ first ∈ (rounds ++ [last]).head?,
        found made b d (s.led first).2 = some s.lead.status) ∨
      (j.phase = .running ∧ ∃ past w, j = (Junction.play (.step :: past) made w).1 ∧
        found made b d w = some s.lead.status))
    (hstays : (after rounds s).main.transitions = s.main.transitions) :
    let ended := (after rounds s).play last
    ∃ j', ended.1.stepped = some (.junction j') ∧ j'.ticks = j.ticks + rounds.length + 1 ∧
      (j'.phase = .running → ended.2.lead.isRunning = true) ∧
      (ended.2.lead.isRunning = false →
        j'.phase = .taken ∧ ended.2.main.transitions = s.main.transitions + 1) := by
  intro ended
  have hreporting : Director.Reporting P s.lead.status (s.lead, s.world) := by
    have hstatus : s.lead.status = (Director.idle (C := C) title w₀).1.status := by
      rw [← Director.status_after history (Director.idle title w₀), ← hlead]
    rw [hstatus] at hdiscreet hhistory ⊢
    rw [hlead]
    exact (Director.Reporting.idle P title w₀).after hdiscreet hhistory
  have hunless : Junction.Unless b d made.branches := .of_branch hbranch hinvert hcond
  have hrun : j.phase = .notStarted ∨ j.phase = .running := by
    rcases hregistered with ⟨rfl, -⟩ | ⟨hrunning, -⟩
    · exact Or.inl hfresh
    · exact Or.inr hrunning
  have hj : j.Respects (.undisturbed s.lead.status) := by
    rcases hregistered with ⟨rfl, -⟩ | ⟨-, past, w, rfl, -⟩
    · exact hmade
    · exact Move.run_keeps (I := Junction.Respects _) (fun _ h hj => hj.step h)
        (fun _ h hj => hj.abort h) (.step :: past) hmade w
  have hopened : ∀ first ∈ (rounds ++ [last]).head?,
      Junction.Unless b ⟨d.name, some s.lead.status⟩ (j.start (s.led first).2).1.branches := by
    intro first hfirst
    rcases hregistered with ⟨rfl, hfound⟩ | ⟨hrunning, past, w, rfl, hfound⟩
    · exact hunless.start hfresh (hfound first hfirst)
    · rw [Junction.start_of_running hrunning]
      exact hunless.play hfresh hfound past hrunning
  have hheeds : ∃ j', Heeds P b d.name s.lead.status j' (after rounds s) last ∧
      j'.ticks = j.ticks + rounds.length := by
    cases rounds with
    | nil =>
      have hlast := hrounds last List.mem_cons_self
      exact ⟨j, heeds_of_start hreporting hdiscreet hlast hmain hrun (hopened last rfl) hj, rfl⟩
    | cons first rounds =>
      obtain ⟨hr, hrest⟩ := List.forall_mem_cons.1 hrounds
      exact heeds_last (heeds_of_start hreporting hdiscreet hr hmain hrun (hopened first rfl) hj)
        hdiscreet hrest hstays
  obtain ⟨j', ⟨j'', hstepped, hticks, hround⟩, hticks'⟩ := hheeds
  refine ⟨j'', hstepped, by omega, fun hrunning => ?_, fun hstopped => ?_⟩
  · rcases hround with ⟨-, hlead, -⟩ | ⟨htaken, -⟩
    · exact hlead
    · rw [hrunning] at htaken
      cases htaken
  · rcases hround with ⟨-, hlead, -⟩ | ⟨htaken, hover⟩
    · exact absurd (hlead.symm.trans hstopped) Bool.noConfusion
    · exact ⟨htaken, hover.trans (congrArg (· + 1) hstays)⟩

end Rounds

/-- A guard that is there for two seconds, and a director that waits for five, or until the guard
leaves: the second tick, in which the guard leaves, is the one in which the waiting ends. -/
theorem reacts_in_same_tick_of_guard :
    let watch : Flow Float32 World Empty := .playback (.ofTimeline ⟨"watch", [.call 2 id]⟩)
    let made : Junction Float32 World Empty (Flow Float32 World Empty) :=
      .ofBranches "wait" [] [.when (.wait ⟨5, 5, 5⟩) .stop,
        .whenNot (.dependency (.on "guard")) .stop]
    let history : List (Command (Flow Float32 World Empty) World) :=
      [.start watch, .outside fun w => w.register "guard" ⟨0⟩,
        .outside fun w => (w.newStatus false).2, .outside fun w => w.post ⟨1⟩ true]
    let x := Director.after history (Director.idle "guard" (World.ofSeed none))
    let s : Duo (Flow Float32 World Empty) Empty :=
      ⟨x.1, ⟨"main", some (.junction made), ⟨1⟩, 0, 0⟩, x.2⟩
    let second : Round (Flow Float32 World Empty) := ⟨[], 1, []⟩
    let ended := (after [second] s).play second
    (after [second] s).lead.isRunning = true ∧ ended.2.lead.isRunning = false ∧
    ∃ j', ended.1.stepped = some (.junction j') ∧ j'.ticks = 2 ∧ j'.phase = .taken ∧
      ended.2.main.transitions = 1 := by
  intro watch made history x s second ended
  let k : Conduct World := .undisturbed ⟨0⟩
  have hsame : ∀ f : World → World, (∀ w, (f w).statuses = w.statuses) → ∀ w, k.rel w (f w) :=
    fun f hf w => World.undisturbed_of_statuses (hf w) ⟨0⟩
  have hwatch : watch.Respects k :=
    .playback (List.forall_mem_singleton.2 (Event.respects_call k.refl))
      fun next hnext => absurd hnext List.not_mem_nil
  have hdiscreet : Director.Discreet (Flow.Respects k) k :=
    Director.discreet_flows (fun key : Empty => key.elim) fun key : Empty => key.elim
  have hhistory : ∀ c ∈ history, Director.Allowed (Flow.Respects k) k c :=
    List.forall_mem_cons.2 ⟨hwatch, List.forall_mem_cons.2 ⟨hsame _ fun _ => rfl,
      List.forall_mem_cons.2 ⟨World.undisturbed_newStatus ⟨0⟩,
        List.forall_mem_singleton.2 (World.undisturbed_post (by decide) true)⟩⟩⟩
  have hwait : (Condition.wait ⟨5, 5, 5⟩ : Condition Float32 World).Respects k :=
    .wait (hsame _ (World.statuses_draw 5 5))
  have hmade : made.Respects k := by
    refine ⟨List.forall_mem_cons.2 ⟨hwait, List.forall_mem_singleton.2 (.dependency k.refl)⟩, ?_⟩
    exact fun l hl => absurd hl List.not_mem_nil
  have hrounds : ∀ r ∈ [second] ++ [second], r.Allowed (Flow.Respects k) k := by
    have hsecond : second.Allowed (Flow.Respects k) k :=
      fun command hcommand => absurd hcommand List.not_mem_nil
    exact List.forall_mem_cons.2 ⟨hsecond, List.forall_mem_singleton.2 hsecond⟩
  have hfound : ∀ first ∈ ([second] ++ [second]).head?,
      found made 1 (.on "guard") (s.led first).2 = some s.lead.status := by
    rintro first hfirst
    cases hfirst
    decide
  have hstays : (after [second] s).main.transitions = s.main.transitions := by decide
  have hstopped : ended.2.lead.isRunning = false := by decide
  have hfresh : made.phase = .notStarted := rfl
  have hmain : s.main.current = some (.junction made) := rfl
  have hbranch : made.branches[1]? = some (.whenNot (.dependency (.on "guard")) .stop) := rfl
  obtain ⟨j', hstepped, hticks, -, htaken⟩ := reacts_in_same_tick (s := s) rfl hdiscreet hhistory
    hfresh hbranch rfl rfl hmade hmain hrounds (Or.inl ⟨rfl, hfound⟩) hstays
  obtain ⟨hphase, htransitions⟩ := htaken hstopped
  exact ⟨by decide, hstopped, j', hstepped, hticks, hphase, htransitions⟩

end Duo

/-- A step of the show is a round in which nobody commands the ambience. -/
theorem Show.step_eq_play (s : Show) :
    let played := Duo.play ⟨s.ambience, s.main, s.world⟩ ⟨[], s.clock.stepDelta, []⟩
    s.step = { s with
      world := played.2.world, ambience := played.2.lead, main := played.2.main
      steps := s.steps + 1 } := rfl

end Cueflow
