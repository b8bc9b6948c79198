import Cueflow.Proofs.Flow.Recording
import Cueflow.Proofs.Flow.Conduct
import Cueflow.Proofs.World.Statuses
/-!
# What a director keeps account of

The status that a director posts, its counters, and which interpreter each tick steps.

> `bookkeeping`: after any commands, the status under the director's handle is whether something
> is installed; the counters are those of the ticks that found something installed and of their
> steps that ended; and a tick steps what was installed, once, and installs what comes of it.

A handle is for reading, and only the director itself posts under its own. On a host that is one
state with everything in it, this is what all others are held to: the interpreters that it runs
(`Discreet`), which may else do as they like, and whatever happens to the host from outside.

To see which interpreter a director steps, and how often, it is given interpreters with a place
(`Seated`) that note every step and every abort made of them; a `Logbook` is such a director.
-/

namespace Cueflow

variable {T H C : Type}

/-! ## Running a director -/

namespace Director

section Running

variable [StatusBoard H] [Interpreter C H]

/-- The outcome of the step that is made when this command is obeyed: a tick makes one if it
finds something installed, and nothing else does. -/
def outcome (x : Director C × H) : Command C H → List (StepResult C)
  | .tick => x.1.current.toList.map fun c => (Interpreter.step c x.2).1
  | .abort | .start _ | .redirect _ | .outside _ => []

/-- The outcomes of the steps that are made when these commands are obeyed. -/
def outcomes : List (Command C H) → Director C × H → List (StepResult C)
  | [], _ => []
  | command :: commands, x => outcome x command ++ outcomes commands (obey x command)

/-- What a tick does while something is installed. -/
theorem tick_of_some {d : Director C} {c : C} (hd : d.current = some c) (h : H) :
    let step := Interpreter.step c h
    d.tick h = match step.1 with
      | .suspend => (⟨true, some step.2.1⟩,
          { d with current := some step.2.1, ticks := d.ticks + 1 }, step.2.2)
      | .done next => (⟨next.isSome, some step.2.1⟩,
          { d with current := next, ticks := d.ticks + 1, transitions := d.transitions + 1 },
          StatusBoard.post d.status next.isSome step.2.2) := by
  unfold tick
  rw [hd]
  dsimp only
  rcases Interpreter.step c h with ⟨result, c', h'⟩
  cases result <;> rfl

/-- A tick in which the step suspends. -/
theorem tick_of_suspend {x : Director C × H} {c : C} (hx : x.1.current = some c)
    (hstep : (Interpreter.step c x.2).1 = .suspend) :
    outcome x .tick = [.suspend] ∧ obey x .tick =
      ({ x.1 with current := some (Interpreter.step c x.2).2.1, ticks := x.1.ticks + 1 },
        (Interpreter.step c x.2).2.2) := by
  constructor
  · rw [outcome, hx]
    exact congrArg (fun result => [result]) hstep
  · rw [obey, tick_of_some hx, hstep]

/-- A tick in which the step ends what is installed. -/
theorem tick_of_done {x : Director C × H} {c : C} (hx : x.1.current = some c) {next : Option C}
    (hstep : (Interpreter.step c x.2).1 = .done next) :
    outcome x .tick = [.done next] ∧ obey x .tick =
      ({ x.1 with
          current := next, ticks := x.1.ticks + 1, transitions := x.1.transitions + 1 },
        StatusBoard.post x.1.status next.isSome (Interpreter.step c x.2).2.2) := by
  constructor
  · rw [outcome, hx]
    exact congrArg (fun result => [result]) hstep
  · rw [obey, tick_of_some hx, hstep]

theorem abort_of_some {d : Director C} {c : C} (hd : d.current = some c) (h : H) :
    let stopped := Interpreter.abort c h
    d.abort h = (some stopped.1, { d with current := none },
      StatusBoard.post d.status false stopped.2) := by
  unfold abort
  rw [hd]
  rfl

/-- A tick steps what is installed, installs what comes of that, and posts it if it is new. -/
theorem tick_hands_over {d : Director C} {c : C} (hd : d.current = some c) (h : H) :
    let step := Interpreter.step c h
    let tick := d.tick h
    tick.1.stepped = some step.2.1 ∧
    (step.1 = .suspend → tick.2.1.current = some step.2.1 ∧ tick.2.2 = step.2.2) ∧
    ∀ next, step.1 = .done next → tick.2.1.current = next ∧
      tick.2.2 = StatusBoard.post d.status next.isSome step.2.2 := by
  intro step tick
  have htick : tick = match step.1 with
      | .suspend => _
      | .done next => _ := tick_of_some hd h
  refine ⟨?_, fun hstep => ?_, fun next hstep => ?_⟩
  · rw [htick]
    cases step.1 <;> rfl
  · rw [htick, hstep]
    exact ⟨rfl, rfl⟩
  · rw [htick, hstep]
    exact ⟨rfl, rfl⟩

/-- A director keeps its handle. -/
theorem status_obey (x : Director C × H) (command : Command C H) :
    (obey x command).1.status = x.1.status := by
  cases command with
  | tick =>
    unfold obey
    cases hd : x.1.current with
    | none => rw [tick_of_idle hd]
    | some c =>
      rw [tick_of_some hd]
      cases (Interpreter.step c x.2).1 <;> rfl
  | abort =>
    unfold obey
    cases hd : x.1.current with
    | none => rw [abort_of_idle hd]
    | some c => rw [abort_of_some hd]
  | start flow => rfl
  | redirect next => rfl
  | outside f => rfl

theorem status_after (commands : List (Command C H)) (x : Director C × H) :
    (after commands x).1.status = x.1.status := by
  induction commands generalizing x with
  | nil => rfl
  | cons command commands ih => exact (ih (obey x command)).trans (status_obey x command)

/-! ### Counters -/

/-- A command counts the step that it makes, and the hand-over if that step ended. -/
theorem counters_obey (x : Director C × H) (command : Command C H) :
    (obey x command).1.ticks = x.1.ticks + (outcome x command).length ∧
      (obey x command).1.transitions =
        x.1.transitions + (outcome x command).countP StepResult.isDone := by
  cases command with
  | tick =>
    unfold obey outcome
    cases hd : x.1.current with
    | none =>
      rw [tick_of_idle hd]
      exact ⟨rfl, rfl⟩
    | some c =>
      rw [tick_of_some hd]
      rcases hstep : Interpreter.step c x.2 with ⟨result, c', h'⟩
      cases result <;> simp [hstep, StepResult.isDone]
  | abort =>
    unfold obey
    cases hd : x.1.current with
    | none =>
      rw [abort_of_idle hd]
      exact ⟨rfl, rfl⟩
    | some c =>
      rw [abort_of_some hd]
      exact ⟨rfl, rfl⟩
  | start flow => exact ⟨rfl, rfl⟩
  | redirect next => exact ⟨rfl, rfl⟩
  | outside f => exact ⟨rfl, rfl⟩

/-- The counters go up by the steps made and by those of them that ended. -/
theorem counters_after (commands : List (Command C H)) (x : Director C × H) :
    (after commands x).1.ticks = x.1.ticks + (outcomes commands x).length ∧
      (after commands x).1.transitions =
        x.1.transitions + (outcomes commands x).countP StepResult.isDone := by
  induction commands generalizing x with
  | nil => exact ⟨rfl, rfl⟩
  | cons command commands ih =>
    obtain ⟨hticks, htransitions⟩ := ih (obey x command)
    obtain ⟨hticks', htransitions'⟩ := counters_obey x command
    rw [hticks', Nat.add_assoc] at hticks
    rw [htransitions', Nat.add_assoc] at htransitions
    rw [outcomes, List.length_append, List.countP_append]
    exact ⟨hticks, htransitions⟩

end Running

/-! ## The posted status -/

section Posting

variable [Host H T] [StatusBoard H] [Interpreter C H]

/-- Interpreters that keep to the conduct, and lead to such alone. -/
structure Discreet (P : C → Prop) (k : Conduct H) : Prop where
  step : ∀ c h, P c → k.rel h (Interpreter.step c h).2.2
  abort : ∀ c h, P c → k.rel h (Interpreter.abort c h).2
  stepped : ∀ c h, P c → P (Interpreter.step c h).2.1
  next : ∀ c h n, P c → (Interpreter.step c h).1 = .done (some n) → P n

omit [StatusBoard H] in
/-- Flows of which all callbacks keep to the conduct are discreet. -/
theorem discreet_flows {K : Type} [Scalar T] [Builder K H (Flow T H K)] {k : Conduct H}
    (hbuild : k.AllowsBuilding K (Flow T H K))
    (hbuilds : Builds K H fun c : Flow T H K => c.Respects k) :
    Discreet (Flow.Respects (T := T) (K := K) k) k where
  step _ h hc := hc.rel_step hbuild h
  abort _ h hc := hc.rel_abort h
  stepped _ h hc := hc.step hbuilds h
  next _ h _ hc hnext := hc.next hbuilds h (congrArg StepResult.next? hnext)

/-- What the command brings keeps to the conduct. -/
def Allowed (P : C → Prop) (k : Conduct H) : Command C H → Prop
  | .start flow => P flow
  | .redirect next => ∀ flow, next = some flow → P flow
  | .outside f => ∀ h, k.rel h (f h)
  | .tick | .abort => True

section Conducted

variable {P : C → Prop} {k : Conduct H} {x : Director C × H}

/-- All that a command does to the host keeps to the conduct, if posting a status does. -/
theorem Discreet.rel_obey (hdiscreet : Discreet P k)
    (hpost : ∀ handle running h, k.rel h (StatusBoard.post handle running h))
    (hx : ∀ c, x.1.current = some c → P c) {command : Command C H}
    (hcommand : Allowed P k command) :
    k.rel x.2 (obey x command).2 ∧ ∀ c, (obey x command).1.current = some c → P c := by
  cases command with
  | tick =>
    cases hd : x.1.current with
    | none =>
      rw [obey, tick_of_idle hd]
      exact ⟨k.refl x.2, hx⟩
    | some c =>
      have hc := hx c hd
      have hrel := hdiscreet.step c x.2 hc
      cases hstep : (Interpreter.step c x.2).1 with
      | suspend =>
        rw [(tick_of_suspend hd hstep).2]
        refine ⟨hrel, fun n hn => ?_⟩
        rw [← Option.some.inj hn]
        exact hdiscreet.stepped c x.2 hc
      | done next =>
        rw [(tick_of_done hd hstep).2]
        refine ⟨k.trans hrel (hpost _ _ _), fun n hn => hdiscreet.next c x.2 n hc ?_⟩
        rw [hstep]
        exact congrArg StepResult.done hn
  | abort =>
    cases hd : x.1.current with
    | none =>
      rw [obey, abort_of_idle hd]
      exact ⟨k.refl x.2, hx⟩
    | some c =>
      rw [obey, abort_of_some hd]
      exact ⟨k.trans (hdiscreet.abort c x.2 (hx c hd)) (hpost _ _ _), fun n hn => nomatch hn⟩
  | start flow =>
    refine ⟨hpost _ _ _, fun n hn => ?_⟩
    rw [← Option.some.inj hn]
    exact hcommand
  | redirect next => exact ⟨hpost _ _ _, hcommand⟩
  | outside f => exact ⟨hcommand x.2, hx⟩

/-- So does all that any commands do to it. -/
theorem Discreet.rel_after (hdiscreet : Discreet P k)
    (hpost : ∀ handle running h, k.rel h (StatusBoard.post handle running h))
    (hx : ∀ c, x.1.current = some c → P c) {commands : List (Command C H)}
    (hcommands : ∀ command ∈ commands, Allowed P k command) :
    k.rel x.2 (after commands x).2 := by
  induction commands generalizing x with
  | nil => exact k.refl x.2
  | cons command commands ih =>
    obtain ⟨hcommand, hrest⟩ := List.forall_mem_cons.1 hcommands
    obtain ⟨hrel, hinstalled⟩ := hdiscreet.rel_obey hpost hx hcommand
    exact k.trans hrel (ih hinstalled hrest)

end Conducted

/-- A director with this handle, under which it is posted whether something is installed. -/
structure Reporting (P : C → Prop) (handle : Handle) (x : Director C × H) : Prop where
  status : x.1.status = handle
  holds : Holds handle x.2
  reports : Host.isRunning handle x.2 = x.1.isRunning
  installed : ∀ c, x.1.current = some c → P c

namespace Reporting

variable {P : C → Prop} {handle : Handle} {x : Director C × H}

omit [Interpreter C H] in
theorem idle [LawfulBoard H] (P : C → Prop) (name : String) (h : H) :
    Reporting P (Director.idle (C := C) name h).1.status (Director.idle name h) where
  status := rfl
  holds := LawfulBoard.holds_newStatus h
  reports := LawfulBoard.isRunning_newStatus h
  installed _ hc := nomatch hc

omit [Interpreter C H] in
/-- What is held to leave the status alone does so. -/
theorem undisturbed (hx : Reporting P handle x) {h : H}
    (hrel : (Conduct.undisturbed handle).rel x.2 h) : Reporting P handle (x.1, h) :=
  ⟨hx.status, hrel.1 hx.holds, hrel.2.trans hx.reports, hx.installed⟩

omit [Interpreter C H] in
/-- Installing posts what is true of the director afterwards. -/
theorem install [LawfulBoard H] {d : Director C} {h : H} (hstatus : d.status = handle)
    (hholds : Holds handle h) {next : Option C} (hnext : ∀ c, next = some c → P c) :
    Reporting P handle (d.install next h) := by
  refine ⟨hstatus, ?_, ?_, hnext⟩
  · exact LawfulBoard.holds_post hholds d.status next.isSome
  · show Host.isRunning handle (StatusBoard.post d.status next.isSome h) = next.isSome
    rw [hstatus]
    exact hholds next.isSome

/-- Every command keeps the posted status true. -/
theorem obey [LawfulBoard H] (hx : Reporting P handle x)
    (hdiscreet : Discreet P (Conduct.undisturbed (H := H) handle)) {command : Command C H}
    (hcommand : Allowed P (.undisturbed handle) command) :
    Reporting P handle (obey x command) := by
  cases command with
  | tick =>
    unfold Director.obey
    cases hd : x.1.current with
    | none =>
      rw [tick_of_idle hd]
      exact hx
    | some c =>
      have hc := hx.installed c hd
      have hrel := hdiscreet.step c x.2 hc
      have hstepped := hdiscreet.stepped c x.2 hc
      have hnext := fun n => hdiscreet.next c x.2 n hc
      rw [tick_of_some hd]
      rcases hstep : Interpreter.step c x.2 with ⟨result, c', h'⟩
      rw [hstep] at hrel hstepped hnext
      cases result with
      | suspend =>
        have hrunning : x.1.isRunning = true := by rw [isRunning, hd]; rfl
        refine ⟨hx.status, hrel.1 hx.holds, ?_, fun n hn => ?_⟩
        · exact (hrel.2.trans hx.reports).trans hrunning
        · rw [← Option.some.inj hn]
          exact hstepped
      | done next =>
        have hholds : Holds handle h' := hrel.1 hx.holds
        exact install
          (d := { x.1 with ticks := x.1.ticks + 1, transitions := x.1.transitions + 1 })
          hx.status hholds fun n hn => hnext n (congrArg StepResult.done hn)
  | abort =>
    unfold Director.obey
    cases hd : x.1.current with
    | none =>
      rw [abort_of_idle hd]
      exact hx
    | some c =>
      have hrel := hdiscreet.abort c x.2 (hx.installed c hd)
      rw [abort_of_some hd]
      exact install (d := x.1) hx.status (hrel.1 hx.holds) fun n hn => by cases hn
  | start flow =>
    refine install hx.status hx.holds fun n hn => ?_
    rw [← Option.some.inj hn]
    exact hcommand
  | redirect next => exact install hx.status hx.holds hcommand
  | outside f => exact hx.undisturbed (hcommand x.2)

/-- After every command the posted status is true. -/
theorem after [LawfulBoard H] (hx : Reporting P handle x)
    (hdiscreet : Discreet P (Conduct.undisturbed (H := H) handle)) {commands : List (Command C H)}
    (hcommands : ∀ c ∈ commands, Allowed P (.undisturbed handle) c) :
    Reporting P handle (after commands x) := by
  induction commands generalizing x with
  | nil => exact hx
  | cons command commands ih =>
    obtain ⟨hcommand, hrest⟩ := List.forall_mem_cons.1 hcommands
    exact ih (hx.obey hdiscreet hcommand) hrest

end Reporting

end Posting

end Director

/-! ## Which interpreter is stepped -/

namespace Place

theorem le_refl (l : Place) : l ≤ l := le_iff.2 (Or.inr ⟨rfl, Nat.le_refl _⟩)

theorem le_next {l m : Place} (h : l ≤ m) : l ≤ m.next := by
  rw [le_iff] at h ⊢
  show l.run < m.run ∨ l.run = m.run ∧ l.position ≤ m.position + 1
  omega

theorem le_newRun {l m : Place} (h : l ≤ m) : l ≤ ⟨m.run + 1, 0⟩ := by
  rw [le_iff] at h ⊢
  show l.run < m.run + 1 ∨ l.run = m.run + 1 ∧ l.position ≤ 0
  omega

end Place

/-- What a director can do to what it runs, and the place of that. -/
inductive Deed where
  | step (l : Place)
  | abort (l : Place)
deriving DecidableEq

def Deed.place : Deed → Place
  | .step l | .abort l => l

/-- An interpreter with its place. -/
structure Seated (C : Type) where
  place : Place
  interpreter : C

/-- A step and an abort note themselves, and a continuation gets the next place. -/
instance [Interpreter C H] : Interpreter (Seated C) (Journaled Deed H) where
  name c := Interpreter.name c.interpreter
  step c s :=
    let (result, interpreter, host) := Interpreter.step c.interpreter s.host
    (result.map (Seated.mk c.place.next), { c with interpreter },
      ⟨host, s.journal ++ [.step c.place]⟩)
  abort c s :=
    let (interpreter, host) := Interpreter.abort c.interpreter s.host
    ({ c with interpreter }, ⟨host, s.journal ++ [.abort c.place]⟩)

theorem step_seated [Interpreter C H] (l : Place) (c : C) (s : Journaled Deed H) :
    Interpreter.step (Seated.mk l c) s =
      ((Interpreter.step c s.host).1.map (Seated.mk l.next),
        ⟨l, (Interpreter.step c s.host).2.1⟩,
        ⟨(Interpreter.step c s.host).2.2, s.journal ++ [.step l]⟩) := rfl

/-- A director that notes what it does. -/
structure Logbook (C H : Type) where
  /-- How often the director was started or redirected. -/
  run : Nat
  director : Director (Seated C)
  host : Journaled Deed H

namespace Logbook

variable [StatusBoard H]

/-- An idle director that has done nothing. -/
def idle (name : String) (h : H) : Logbook C H :=
  let (director, host) := Director.idle name ⟨h, []⟩
  ⟨0, director, host⟩

variable [Interpreter C H]

/-- The logbook after a command. What is started or redirected to is the first of a new run. -/
def obey (r : Logbook C H) : Command C H → Logbook C H
  | .tick =>
    let (_, director, host) := r.director.tick r.host
    { r with director, host }
  | .abort =>
    let (_, director, host) := r.director.abort r.host
    { r with director, host }
  | .start flow =>
    let (director, host) := r.director.start ⟨⟨r.run + 1, 0⟩, flow⟩ r.host
    { run := r.run + 1, director, host }
  | .redirect next =>
    let (director, host) := r.director.redirect (next.map (Seated.mk ⟨r.run + 1, 0⟩)) r.host
    { run := r.run + 1, director, host }
  | .outside f => { r with host := r.host.act f }

/-- The logbook of this director, which has come to place `l` and has done nothing later. -/
structure Keeps (x : Director C × H) (l : Place) (r : Logbook C H) : Prop where
  run : r.run = l.run
  director : r.director = x.1.map (Seated.mk l)
  host : r.host.host = x.2
  past : ∀ deed ∈ r.host.journal, deed.place ≤ l

variable {x : Director C × H} {l : Place} {r : Logbook C H}

omit [Interpreter C H] in
theorem Keeps.idle (name : String) (h : H) :
    Keeps (Director.idle (C := C) name h) ⟨0, 0⟩ (Logbook.idle name h) where
  run := rfl
  director := rfl
  host := rfl
  past _ hdeed := absurd hdeed List.not_mem_nil

omit [StatusBoard H] in
/-- What a director at place `l` does to what it runs when it obeys this command. -/
def deeds (x : Director C × H) (l : Place) : Command C H → List Deed
  | .tick => x.1.current.toList.map fun _ => .step l
  | .abort => x.1.current.toList.map fun _ => .abort l
  | .start _ | .redirect _ | .outside _ => []

omit [StatusBoard H] in
/-- The place that the director comes to: it goes on by one if it makes a step that ends. -/
def placeAfter (x : Director C × H) (l : Place) : Command C H → Place
  | .tick => if (Director.outcome x .tick).any StepResult.isDone then l.next else l
  | .start _ | .redirect _ => ⟨l.run + 1, 0⟩
  | .abort | .outside _ => l

/-- A command adds what the director does to the logbook. -/
theorem Keeps.obey (hr : Keeps x l r) (command : Command C H) :
    Keeps (Director.obey x command) (placeAfter x l command) (r.obey command) ∧
      (r.obey command).host.journal = r.host.journal ++ deeds x l command := by
  obtain ⟨hrun, hdirector, hhost, hpast⟩ := hr
  obtain ⟨run, director, host, journal⟩ := r
  obtain rfl : run = l.run := hrun
  obtain rfl : director = x.1.map (Seated.mk l) := hdirector
  obtain rfl : host = x.2 := hhost
  have hpast : ∀ deed ∈ journal, deed.place ≤ l := hpast
  cases command with
  | tick =>
    unfold Logbook.obey Director.obey placeAfter deeds Director.outcome
    cases hd : x.1.current with
    | none =>
      have hd' : (x.1.map (Seated.mk l)).current = none :=
        congrArg (Option.map (Seated.mk l)) hd
      rw [Director.tick_of_idle hd, Director.tick_of_idle hd']
      exact ⟨⟨rfl, rfl, rfl, hpast⟩, (List.append_nil _).symm⟩
    | some c =>
      have hd' : (x.1.map (Seated.mk l)).current = some ⟨l, c⟩ :=
        congrArg (Option.map (Seated.mk l)) hd
      have hdeeds : ∀ deed ∈ journal ++ [.step l], deed.place ≤ l :=
        List.forall_mem_append.2 ⟨hpast, List.forall_mem_singleton.2 l.le_refl⟩
      rw [Director.tick_of_some hd, Director.tick_of_some hd', step_seated]
      rcases hstep : Interpreter.step c x.2 with ⟨result, c', h'⟩
      simp only [Option.toList_some, List.map_cons, List.map_nil, List.any_cons, List.any_nil,
        Bool.or_false, hstep]
      cases result with
      | suspend => exact ⟨⟨rfl, rfl, rfl, hdeeds⟩, rfl⟩
      | done next =>
        refine ⟨⟨rfl, rfl, ?_, fun deed hdeed => Place.le_next (hdeeds deed hdeed)⟩, rfl⟩
        cases next <;> rfl
  | abort =>
    unfold Logbook.obey Director.obey placeAfter deeds
    cases hd : x.1.current with
    | none =>
      have hd' : (x.1.map (Seated.mk l)).current = none :=
        congrArg (Option.map (Seated.mk l)) hd
      rw [Director.abort_of_idle hd, Director.abort_of_idle hd']
      exact ⟨⟨rfl, rfl, rfl, hpast⟩, (List.append_nil _).symm⟩
    | some c =>
      have hd' : (x.1.map (Seated.mk l)).current = some ⟨l, c⟩ :=
        congrArg (Option.map (Seated.mk l)) hd
      rw [Director.abort_of_some hd, Director.abort_of_some hd']
      exact ⟨⟨rfl, rfl, rfl,
        List.forall_mem_append.2 ⟨hpast, List.forall_mem_singleton.2 l.le_refl⟩⟩, rfl⟩
  | start flow =>
    exact ⟨⟨rfl, rfl, rfl, fun deed hdeed => Place.le_newRun (hpast deed hdeed)⟩,
      (List.append_nil _).symm⟩
  | redirect next =>
    refine ⟨⟨rfl, rfl, ?_, fun deed hdeed => Place.le_newRun (hpast deed hdeed)⟩,
      (List.append_nil _).symm⟩
    cases next <;> rfl
  | outside f => exact ⟨⟨rfl, rfl, rfl, hpast⟩, (List.append_nil _).symm⟩

/-- Whatever the commands, the logbook is that of the director. -/
theorem Keeps.after (hr : Keeps x l r) (commands : List (Command C H)) :
    ∃ m, Keeps (Director.after commands x) m (commands.foldl Logbook.obey r) := by
  induction commands generalizing x l r with
  | nil => exact ⟨l, hr⟩
  | cons command commands ih => exact ih (hr.obey command).1

end Logbook

/-! ## Main result -/

namespace Director

variable [Host H T] [StatusBoard H] [Interpreter C H]

/-- After any commands, whatever the interpreters, as long as nobody else writes under the
director's handle:

* the status under every handle that the director had says whether something is installed;
* the counters are those of the ticks that found something installed, and of their steps that
  ended;
* a command makes the steps and aborts that `Logbook.deeds` says, of what is installed: a tick
  one step, and no command one of a continuation that is installed by it;
* a tick reports whether something is installed after it;
* a tick that finds something installed installs what its step leaves or hands over, and does
  nothing more to the host than the step and the posting;
* a tick or an abort that finds nothing installed changes nothing. -/
theorem bookkeeping [LawfulBoard H] {P : C → Prop} {name : String} {h : H}
    (hdiscreet : Discreet P (Conduct.undisturbed (idle (C := C) name h).1.status))
    {commands : List (Command C H)}
    (hcommands : ∀ command ∈ commands,
      Allowed P (.undisturbed (idle (C := C) name h).1.status) command) :
    let fresh := idle (C := C) name h
    let ran := after commands fresh
    let steps := outcomes commands fresh
    let kept := commands.foldl Logbook.obey (Logbook.idle name h)
    (∀ earlier later, commands = earlier ++ later →
      Host.isRunning (after earlier fresh).1.status ran.2 = ran.1.isRunning) ∧
    (ran.1.isRunning = true ↔ ∃ c, ran.1.current = some c) ∧
    ran.1.ticks = steps.length ∧
    ran.1.transitions = steps.countP StepResult.isDone ∧
    ran.1.transitions ≤ ran.1.ticks ∧
    (∃ l, Logbook.Keeps ran l kept ∧ ∀ command,
      Logbook.Keeps (obey ran command) (Logbook.placeAfter ran l command) (kept.obey command) ∧
      (kept.obey command).host.journal = kept.host.journal ++ Logbook.deeds ran l command) ∧
    (ran.1.tick ran.2).1.running = (ran.1.tick ran.2).2.1.isRunning ∧
    (∀ c, ran.1.current = some c →
      let step := Interpreter.step c ran.2
      let tick := ran.1.tick ran.2
      tick.1.stepped = some step.2.1 ∧
      (step.1 = .suspend → tick.2.1.current = some step.2.1 ∧ tick.2.2 = step.2.2) ∧
      ∀ next, step.1 = .done next → tick.2.1.current = next ∧
        tick.2.2 = StatusBoard.post ran.1.status next.isSome step.2.2) ∧
    (ran.1.current = none →
      ran.1.tick ran.2 = (⟨false, none⟩, ran) ∧ ran.1.abort ran.2 = (none, ran)) := by
  intro fresh ran steps kept
  have hfresh : Reporting P fresh.1.status fresh := Reporting.idle P name h
  have hran : Reporting P fresh.1.status ran := hfresh.after hdiscreet hcommands
  obtain ⟨hticks, htransitions⟩ := counters_after commands fresh
  have hticks : ran.1.ticks = steps.length := hticks.trans (Nat.zero_add _)
  have htransitions : ran.1.transitions = steps.countP StepResult.isDone :=
    htransitions.trans (Nat.zero_add _)
  refine ⟨?_, Option.isSome_iff_exists, hticks, htransitions, ?_, ?_, running_tick ran.1 ran.2,
    ?_, ?_⟩
  · intro earlier later _
    rw [status_after]
    exact hran.reports
  · rw [hticks, htransitions]
    exact List.countP_le_length
  · obtain ⟨l, hkept⟩ := (Logbook.Keeps.idle (C := C) name h).after commands
    exact ⟨l, hkept, hkept.obey⟩
  · exact fun c hc => tick_hands_over hc ran.2
  · intro hnone
    exact ⟨tick_of_idle hnone ran.2, abort_of_idle hnone ran.2⟩

/-- An empty timeline, then one with a call: each ends in a tick of its own, and the third tick
finds the director idle. -/
theorem bookkeeping_of_chain :
    let w := (World.ofSeed (some 3)).beginTick 1
    let second : Flow Float32 World Empty := .playback (.ofTimeline
      ⟨"second", [.call 1 (World.onBoard fun board => (board.add "second" 1).2)]⟩)
    let first : Flow Float32 World Empty := .playback
      ((Playback.ofTimeline (.empty "first")).andThen (.goto second))
    let commands : List (Command (Flow Float32 World Empty) World) :=
      [.start first, .tick, .tick, .tick]
    let fresh := idle (C := Flow Float32 World Empty) "main" w
    let ran := after commands fresh
    let k : Conduct World := .undisturbed fresh.1.status
    Discreet (C := Flow Float32 World Empty) (Flow.Respects k) k ∧
    (∀ command ∈ commands, Allowed (Flow.Respects k) k command) ∧
    ran.1.ticks = 2 ∧ ran.1.transitions = 2 ∧
    Host.isRunning fresh.1.status ran.2 = false ∧
    ran.1.tick ran.2 = (⟨false, none⟩, ran) := by
  intro w second first commands fresh ran k
  have hcall : ∀ w : World, k.rel w (w.onBoard fun board => (board.add "second" 1).2) :=
    fun _ => World.undisturbed_of_statuses rfl fresh.1.status
  have hsecond : second.Respects k :=
    .playback (List.forall_mem_singleton.2 (Event.respects_call hcall))
      fun next hnext => absurd hnext List.not_mem_nil
  have hfirst : first.Respects k := by
    refine .playback (fun e he => absurd he List.not_mem_nil) (List.forall_mem_singleton.2 hsecond)
  have hdiscreet : Discreet (Flow.Respects k) k :=
    discreet_flows (fun key : Empty => key.elim) fun key : Empty => key.elim
  have hcommands : ∀ command ∈ commands, Allowed (Flow.Respects k) k command :=
    List.forall_mem_cons.2 ⟨hfirst, by simp [Allowed]⟩
  obtain ⟨hstatus, -, hticks, htransitions, -, -, -, -, hidle⟩ :=
    bookkeeping hdiscreet hcommands
  have hnone : ran.1.current = none := by decide
  refine ⟨hdiscreet, hcommands, hticks.trans (by decide), htransitions.trans (by decide), ?_,
    (hidle hnone).1⟩
  exact (hstatus [] commands rfl).trans (congrArg Option.isSome hnone)

end Director

end Cueflow
