import Cueflow.Flow.Director
import Cueflow.Proofs.Flow.Soundness
/-!
# Recorded flows and directors

A director that notes every callback of whatever it runs, each with the *place* of the
interpreter that made it.

> `Flow.step_traced`, `Flow.abort_traced`: the recorded step and the recorded abort are the
> plain ones with a list of calls added to the journal, all at the place of the flow.

A place is a run, which begins when the director is started or redirected, and a position in
the chain of that run, which grows with every hand-over. So two interpreters that the director
runs one after the other have different places, and the order of places is the order in which
they run. A traced flow keeps its continuations untraced: they get their place when they are
handed over.
-/

namespace Cueflow

variable {T H K : Type}

/-! ## Places -/

/-- Which of the interpreters that a director runs. -/
structure Place where
  /-- The starts and redirections of the director before it. -/
  run : Nat
  /-- The hand-overs before it in the same run. -/
  position : Nat
deriving DecidableEq

namespace Place

/-- The place that a hand-over leads to. -/
def next (l : Place) : Place := ⟨l.run, l.position + 1⟩

/-- Places are in the order in which directors come to them. -/
instance : LE Place where
  le l m := l.run < m.run ∨ l.run = m.run ∧ l.position ≤ m.position

theorem le_iff {l m : Place} :
    l ≤ m ↔ l.run < m.run ∨ l.run = m.run ∧ l.position ≤ m.position := Iff.rfl

end Place

/-- A call and the place that it was made from. -/
structure Entry (T : Type) where
  place : Place
  call : Call T

/-- The calls from one place, in order. -/
def callsAt (l : Place) (journal : List (Entry T)) : List (Call T) :=
  journal.filterMap fun e => if e.place = l then some e.call else none

theorem callsAt_append (l : Place) (xs ys : List (Entry T)) :
    callsAt l (xs ++ ys) = callsAt l xs ++ callsAt l ys := List.filterMap_append

/-- Calls from one place are found there. -/
theorem callsAt_map_self (l : Place) (calls : List (Call T)) :
    callsAt l (calls.map (Entry.mk l)) = calls := by
  have hall : (fun e : Entry T => if e.place = l then some e.call else none) ∘ Entry.mk l = some :=
    funext fun _ => if_pos rfl
  rw [callsAt, List.filterMap_map, hall, List.filterMap_some]

/-- Nothing is found at a place that no entry has. -/
theorem callsAt_eq_nil {l : Place} {journal : List (Entry T)}
    (hne : ∀ e ∈ journal, e.place ≠ l) : callsAt l journal = [] :=
  List.filterMap_eq_nil_iff.2 fun e he => if_neg (hne e he)

theorem place_of_mem_map {l : Place} {calls : List (Call T)} {e : Entry T}
    (he : e ∈ calls.map (Entry.mk l)) : e.place = l := by
  obtain ⟨call, -, rfl⟩ := List.mem_map.1 he
  rfl

/-- Calls from one place are not found at another one. -/
theorem callsAt_map_of_ne {l m : Place} (hne : m ≠ l) (calls : List (Call T)) :
    callsAt m (calls.map (Entry.mk l)) = [] :=
  callsAt_eq_nil fun _ he heq => hne (heq.symm.trans (place_of_mem_map he))

/-! ## Traced flows -/

/-- A flow on a host with a journal, and its place. -/
inductive Traced (T H K : Type) where
  | playback (l : Place)
      (p : Playback T (Journaled (Entry T) H) (Noted (Entry T) K) (Flow T H K))
  | junction (l : Place)
      (j : Junction T (Journaled (Entry T) H) (Noted (Entry T) K) (Flow T H K))

/-- The flow at a place, noting its calls. -/
def Flow.traced [Scalar T] (l : Place) : Flow T H K → Traced T H K
  | .playback p => .playback l (p.recorded (Entry.mk l))
  | .junction j => .junction l (j.recorded (Entry.mk l))

/-- The outcome of a step with its continuation changed. -/
def StepResult.map {C C' : Type} (f : C → C') : StepResult C → StepResult C'
  | .suspend => .suspend
  | .done next => .done (next.map f)

namespace Traced

def name : Traced T H K → String
  | .playback _ p => p.timeline.name
  | .junction _ j => j.name

def abort : Traced T H K → Journaled (Entry T) H → Traced T H K × Journaled (Entry T) H
  | .playback l p, s => let (p, s) := p.abort s; (.playback l p, s)
  | .junction l j, s => let (j, s) := j.abort s; (.junction l j, s)

variable [Scalar T] [Host H T] [Builder K H (Flow T H K)]

/-- One step of the playback or the junction; the continuation gets the next place. -/
def step : Traced T H K → Journaled (Entry T) H →
    StepResult (Traced T H K) × Traced T H K × Journaled (Entry T) H
  | .playback l p, s => let (r, p, s) := p.step s; (r.map (Flow.traced l.next), .playback l p, s)
  | .junction l j, s => let (r, j, s) := j.step s; (r.map (Flow.traced l.next), .junction l j, s)

end Traced

instance [Scalar T] [Host H T] [Builder K H (Flow T H K)] :
    Interpreter (Traced T H K) (Journaled (Entry T) H) where
  name := Traced.name
  step := Traced.step
  abort := Traced.abort

namespace Flow

variable [Scalar T]

/-- Nothing is left to do for the flow. -/
def Over : Flow T H K → Prop
  | .playback p => p.phase.isTerminal = true
  | .junction j => j.phase = .taken ∨ j.phase = .aborted

/-- What a step of a flow can do. -/
inductive Stepped : Flow T H K → (log : List (Call T)) → (ends : Bool) →
    Flow T H K → Prop where
  | playback {p p' : Playback T H K (Flow T H K)} {log : List (Call T)} {ends : Bool}
      (now : T) : p.phase.isTerminal = false → (p.atTime now).Stepped log ends p' →
      Stepped (.playback p) log ends (.playback p')
  | junction {j j' : Junction T H K (Flow T H K)} {log : List (Call T)} {ends : Bool} :
      j.phase = .notStarted ∨ j.phase = .running → j.Stepped log ends j' →
      Stepped (.junction j) log ends (.junction j')
  | rest {c : Flow T H K} : c.Over → Stepped c [] true c

/-- What an abort of a flow can do. -/
inductive Stopped : Flow T H K → (log : List (Call T)) → Flow T H K → Prop where
  | playback {p : Playback T H K (Flow T H K)} : p.phase.isTerminal = false →
      Stopped (.playback p) (Playback.closes p.active) (.playback p.aborted)
  | junction {j j' : Junction T H K (Flow T H K)} : j.phase = .running →
      Junction.SameShape j j' → j'.phase = .aborted →
      Stopped (.junction j) j.closing (.junction j')
  | unopened {j : Junction T H K (Flow T H K)} : j.phase = .notStarted →
      Stopped (.junction j) [] (.junction j)
  | rest {c : Flow T H K} : c.Over → Stopped c [] c

/-- The recorded abort is the plain abort with a log that `Stopped` allows. -/
theorem abort_traced (l : Place) {c : Flow T H K} (hc : c.Sound)
    (s : Journaled (Entry T) H) :
    ∃ log,
      (c.traced l).abort s =
        ((c.abort s.host).1.traced l,
          ⟨(c.abort s.host).2, s.journal ++ log.map (Entry.mk l)⟩) ∧
      Stopped c log (c.abort s.host).1 := by
  cases hc with
  | @playback p hp _ =>
    by_cases hover : p.phase.isTerminal = true
    · have hover' : (p.recorded (Entry.mk l)).phase.isTerminal = true := hover
      refine ⟨[], ?_, ?_⟩
      · simp only [traced, Traced.abort, abort, Playback.abort_of_isTerminal hover,
          Playback.abort_of_isTerminal hover', List.map_nil, List.append_nil]
      · simp only [abort, Playback.abort_of_isTerminal hover]
        exact .rest hover
    · have hrun : p.phase.isTerminal = false := by simpa using hover
      obtain ⟨hplain, hlog⟩ := Playback.abort_recorded (Entry.mk l) hp hrun s
      refine ⟨Playback.closes p.active, ?_, ?_⟩
      · simp only [traced, Traced.abort, abort, hlog]
        rw [hplain]
      · simp only [abort]
        rw [hplain]
        exact .playback hrun
  | @junction j _ =>
    by_cases hrun : j.phase = .running
    · obtain ⟨hlog, hshape, hphase, -⟩ := Junction.abort_recorded (Entry.mk l) hrun s
      refine ⟨j.closing, ?_, .junction hrun hshape hphase⟩
      simp only [traced, Traced.abort, abort, hlog]
    · have hrun' : (j.recorded (Entry.mk l)).phase ≠ .running := hrun
      refine ⟨[], ?_, ?_⟩
      · simp only [traced, Traced.abort, abort, Junction.abort_of_ne_running hrun,
          Junction.abort_of_ne_running hrun', List.map_nil, List.append_nil]
      · simp only [abort, Junction.abort_of_ne_running hrun]
        rcases j.phase_cases with (hphase | hphase) | hover
        · exact .unopened hphase
        · exact absurd hphase hrun
        · exact .rest hover

/-- The recorded step is the plain step with a log that `Stepped` allows. -/
theorem step_traced [Host H T] [Builder K H (Flow T H K)] (l : Place)
    {c : Flow T H K} (hc : c.Sound) (s : Journaled (Entry T) H) :
    ∃ log,
      (c.traced l).step s =
        ((c.step s.host).1.map (Flow.traced l.next), (c.step s.host).2.1.traced l,
          ⟨(c.step s.host).2.2, s.journal ++ log.map (Entry.mk l)⟩) ∧
      Stepped c log (c.step s.host).1.isDone (c.step s.host).2.1 := by
  cases hc with
  | @playback p hp _ =>
    by_cases hover : p.phase.isTerminal = true
    · have hover' : (p.recorded (Entry.mk l)).phase.isTerminal = true := hover
      refine ⟨[], ?_, ?_⟩
      · simp only [traced, Traced.step, step, Playback.step_of_isTerminal hover,
          Playback.step_of_isTerminal hover', List.map_nil, List.append_nil]
      · simp only [step, Playback.step_of_isTerminal hover]
        exact .rest hover
    · have hrun : p.phase.isTerminal = false := by simpa using hover
      obtain ⟨log, hlog, hstepped⟩ := Playback.step_recorded (Entry.mk l) hp hrun s
      refine ⟨log, ?_, .playback _ hrun hstepped⟩
      simp only [traced, Traced.step, step, hlog]
  | @junction j _ =>
    rcases j.phase_cases with hrun | hover
    · obtain ⟨log, hlog, hstepped⟩ := Junction.step_recorded (Entry.mk l) hrun s
      refine ⟨log, ?_, .junction hrun hstepped⟩
      simp only [traced, Traced.step, step, hlog]
    · have hover' : (j.recorded (Entry.mk l)).phase = .taken ∨
          (j.recorded (Entry.mk l)).phase = .aborted := hover
      refine ⟨[], ?_, ?_⟩
      · simp only [traced, Traced.step, step, Junction.step_of_over hover,
          Junction.step_of_over hover', List.map_nil, List.append_nil]
      · simp only [step, Junction.step_of_over hover]
        exact .rest hover

end Flow

/-! ## Recorded directors -/

/-- The same director running something else. -/
def Director.map {C C' : Type} (f : C → C') (d : Director C) : Director C' where
  name := d.name
  current := d.current.map f
  status := d.status
  transitions := d.transitions
  ticks := d.ticks

/-- What a director can do with the flow that it runs at place `l`: what that notes, and the
place and the flow, if there is one, that come of it. -/
inductive Flow.Turn [Scalar T] (c : Flow T H K) (l : Place) :
    (log : List (Call T)) → Place → Option (Flow T H K) → Prop where
  | stay {log : List (Call T)} {c' : Flow T H K} : c.Stepped log false c' → c'.Sound →
      Turn c l log l (some c')
  | handOver {log : List (Call T)} {c' : Flow T H K} {next : Option (Flow T H K)} :
      c.Stepped log true c' → (∀ n, next = some n → n.Sound) → Turn c l log l.next next
  | stop {log : List (Call T)} {c' : Flow T H K} : c.Stopped log c' → Turn c l log l none

/-- No turn leaves the run. -/
theorem Flow.Turn.run_eq [Scalar T] {c : Flow T H K} {l l' : Place} {log : List (Call T)}
    {current : Option (Flow T H K)} (h : c.Turn l log l' current) : l'.run = l.run := by
  cases h <;> rfl

namespace Director

variable [Scalar T] [Host H T] [StatusBoard H] [Builder K H (Flow T H K)]

/-- A recorded tick is the plain tick with a log, which is a turn of the flow. -/
theorem tick_traced (hbuild : Builds K H fun c : Flow T H K => c.Sound)
    {d : Director (Flow T H K)} {c : Flow T H K} (hd : d.current = some c) (hc : c.Sound)
    (l : Place) (s : Journaled (Entry T) H) :
    ∃ log l',
      ((d.map (Flow.traced l)).tick s).2 =
        ((d.tick s.host).2.1.map (Flow.traced l'),
          ⟨(d.tick s.host).2.2, s.journal ++ log.map (Entry.mk l)⟩) ∧
      c.Turn l log l' (d.tick s.host).2.1.current := by
  obtain ⟨log, hlog, hstepped⟩ := Flow.step_traced l hc s
  have hsound := hc.step hbuild s.host
  have hnext : ∀ n, (c.step s.host).1.next? = some n → n.Sound :=
    fun _ => hc.next hbuild s.host
  have htraced : (d.map (Flow.traced l)).current = some (c.traced l) := by
    simp [Director.map, hd]
  -- the director knows its flow as an interpreter only
  have hstep : Interpreter.step (c.traced l) s = _ := hlog
  have hplain : Interpreter.step c s.host = c.step s.host := rfl
  unfold tick
  rw [hd, htraced]
  dsimp only
  rw [hstep, hplain]
  rcases hr : c.step s.host with ⟨result, c', h⟩
  rw [hr] at hstepped hsound hnext
  cases result with
  | suspend => exact ⟨log, l, rfl, .stay hstepped hsound⟩
  | done next =>
    refine ⟨log, l.next, ?_, .handOver hstepped hnext⟩
    cases next <;> rfl

/-- A recorded abort is the plain abort with a log, which is a turn of the flow. -/
theorem abort_traced {d : Director (Flow T H K)} {c : Flow T H K}
    (hd : d.current = some c) (hc : c.Sound) (l : Place) (s : Journaled (Entry T) H) :
    ∃ log,
      ((d.map (Flow.traced l)).abort s).2 =
        ((d.abort s.host).2.1.map (Flow.traced l),
          ⟨(d.abort s.host).2.2, s.journal ++ log.map (Entry.mk l)⟩) ∧
      c.Turn l log l (d.abort s.host).2.1.current := by
  obtain ⟨log, hlog, hstopped⟩ := Flow.abort_traced l hc s
  have htraced : (d.map (Flow.traced l)).current = some (c.traced l) := by
    simp [Director.map, hd]
  have habort : Interpreter.abort (c.traced l) s = _ := hlog
  have hplain : Interpreter.abort c s.host = c.abort s.host := rfl
  unfold abort
  rw [hd, htraced]
  dsimp only
  rw [habort, hplain]
  exact ⟨log, rfl, .stop hstopped⟩

omit [Scalar T] [Host H T] [Builder K H (Flow T H K)] in
theorem current_abort {C : Type} [Interpreter C H] (d : Director C) (h : H) :
    (d.abort h).2.1.current = none := by
  unfold abort
  split
  · next hd => exact hd
  · rfl

end Director

/-! ## Commands -/

/-- What can happen to a director and its host from outside. -/
inductive Command (C H : Type) where
  | tick
  | abort
  | start (flow : C)
  | redirect (next : Option C)
  /-- Something else happens to the host: a tick of another length begins, say. -/
  | outside (f : H → H)

namespace Director

variable {C : Type} [StatusBoard H] [Interpreter C H]

/-- The director and its host after a command. -/
def obey (x : Director C × H) : Command C H → Director C × H
  | .tick => (x.1.tick x.2).2
  | .abort => (x.1.abort x.2).2
  | .start flow => x.1.start flow x.2
  | .redirect next => x.1.redirect next x.2
  | .outside f => (x.1, f x.2)

/-- The director and its host after these commands. -/
def after (commands : List (Command C H)) (x : Director C × H) : Director C × H :=
  commands.foldl obey x

end Director

/-- The flow that a command brings is sound. -/
def Command.Sound : Command (Flow T H K) H → Prop
  | .start flow => flow.Sound
  | .redirect next => ∀ flow, next = some flow → flow.Sound
  | .tick | .abort | .outside _ => True

/-! ### Recorded -/

/-- A director that notes calls, with the run that it is in. -/
structure Recorder (T H K : Type) where
  /-- How often the director was started or redirected. -/
  run : Nat
  /-- The director, running a traced flow. -/
  director : Director (Traced T H K)
  /-- The host, with what was noted so far. -/
  host : Journaled (Entry T) H

/-- An idle director that has noted nothing. -/
def Recorder.idle [StatusBoard H] (name : String) (h : H) : Recorder T H K :=
  let (director, host) := Director.idle name ⟨h, []⟩
  ⟨0, director, host⟩

namespace Command

variable [Scalar T] [Host H T] [StatusBoard H] [Builder K H (Flow T H K)]

/-- The recorder after a command. What is started or redirected to is the first of a new run. -/
def record (r : Recorder T H K) : Command (Flow T H K) H → Recorder T H K
  | .tick =>
    let (_, director, host) := r.director.tick r.host
    { r with director, host }
  | .abort =>
    let (_, director, host) := r.director.abort r.host
    { r with director, host }
  | .start flow =>
    let (director, host) := r.director.start (flow.traced ⟨r.run + 1, 0⟩) r.host
    { run := r.run + 1, director, host }
  | .redirect next =>
    let (director, host) := r.director.redirect (next.map (Flow.traced ⟨r.run + 1, 0⟩)) r.host
    { run := r.run + 1, director, host }
  | .outside f => { r with host := r.host.act f }

end Command

end Cueflow
