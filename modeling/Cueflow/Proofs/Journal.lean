import Cueflow.Schedule.Event
import Cueflow.Flow.Host
import Cueflow.Flow.Target
/-!
# Journals — what a flow called, in order

Callbacks act on the host and leave no other trace, so a statement about *which* callbacks
run needs a host that remembers them. `Journaled E H` is a host `H` with a list of entries
beside it. A callback of `H` is lifted to it in two ways: `Journaled.act` and `Journaled.ask`
run the callback on the host alone, and `Journaled.note` adds an entry. A flow on `H` is
recorded by lifting every callback so that it acts on the host as before and then notes
itself; the playbacks, junctions and directors that run the recorded flow are the ones that
run the flow itself.

Nothing reads the journal: the recorded run keeps the host of the plain run. That is proved
for each kind of interpreter next to its recording, and is part of every statement about
journals.
-/

namespace Cueflow

/-- A host with a journal. -/
structure Journaled (E H : Type) where
  host : H
  /-- What was noted, the latest last. -/
  journal : List E

namespace Journaled

variable {E H A : Type}

def note (es : List E) (s : Journaled E H) : Journaled E H :=
  { s with journal := s.journal ++ es }

/-- Acts on the host. -/
def act (f : H → H) (s : Journaled E H) : Journaled E H := { s with host := f s.host }

/-- Acts on the host and answers. -/
def ask (f : H → A × H) (s : Journaled E H) : A × Journaled E H :=
  ((f s.host).1, { s with host := (f s.host).2 })

@[simp] theorem host_note (es : List E) (s : Journaled E H) : (s.note es).host = s.host := rfl

@[simp] theorem journal_note (es : List E) (s : Journaled E H) :
    (s.note es).journal = s.journal ++ es := rfl

@[simp] theorem host_act (f : H → H) (s : Journaled E H) : (s.act f).host = f s.host := rfl

@[simp] theorem journal_act (f : H → H) (s : Journaled E H) :
    (s.act f).journal = s.journal := rfl

end Journaled

/-- The host answers as it does without the journal. -/
instance {E H T : Type} [Host H T] : Host (Journaled E H) T where
  deltaTime s := Host.deltaTime s.host
  draw lo hi := Journaled.ask (Host.draw lo hi)
  lookup name := Journaled.ask (Host.lookup name)
  isRunning handle s := Host.isRunning handle s.host

instance {E H : Type} [StatusBoard H] : StatusBoard (Journaled E H) where
  newStatus := Journaled.ask StatusBoard.newStatus
  post handle running := Journaled.act (StatusBoard.post handle running)

/-! ## Targets that note when they are resolved -/

/-- A key with the entry that is made when it is built. -/
structure Noted (E K : Type) where
  entry : E
  key : K

/-- The entry comes first: whatever building does to the host is done afterwards. -/
instance {E K H C : Type} [Builder K H C] : Builder (Noted E K) (Journaled E H) C where
  build k s := (s.note [k.entry]).ask (Builder.build k.key)

namespace Target

variable {E K H C : Type}

/-- The same target, noting `entry` when something is built for it. Handing over what was
prepared acts on no host and is not noted. -/
def recorded (entry : E) : Target K C → Target (Noted E K) C
  | .stop => .stop
  | .handOver next => .handOver next
  | .build key => .build ⟨entry, key⟩

/-- What resolving a target notes. -/
def trail (entry : E) : Target K C → List E
  | .build _ => [entry]
  | .stop | .handOver _ => []

/-- Resolving a recorded target comes to the same and leaves its trail. -/
theorem resolve_recorded [Builder K H C] (entry : E) (target : Target K C)
    (s : Journaled E H) :
    (target.recorded entry).resolve s =
      ((target.resolve s.host).1, (target.resolve s.host).2.1.recorded entry,
        ⟨(target.resolve s.host).2.2, s.journal ++ target.trail entry⟩) := by
  cases target with
  | stop => simp [recorded, resolve, trail]
  | handOver next => simp [recorded, resolve, trail]
  | build key => rfl

/-- At most one entry is made. -/
theorem trail_cases (entry : E) (target : Target K C) :
    target.trail entry = [] ∨ target.trail entry = [entry] := by
  cases target with
  | build key => exact Or.inr rfl
  | stop => exact Or.inl rfl
  | handOver next => exact Or.inl rfl

/-- The trail of a mapped entry is the mapped trail. -/
theorem map_trail {E' : Type} (f : E → E') (entry : E) (target : Target K C) :
    (target.trail entry).map f = target.trail (f entry) := by
  cases target <;> rfl

end Target

/-! ## What is noted -/

/-- A callback of an event. -/
inductive EventCall (T : Type) where
  /-- It was triggered and answered. -/
  | trigger (answer : EventStatus)
  /-- It was updated after this time and answered. -/
  | update (elapsed : T) (answer : EventStatus)
  /-- It was closed. -/
  | close
deriving DecidableEq

/-- Whether this is the closing of an event. -/
def EventCall.isClose {T : Type} : EventCall T → Bool
  | .close => true
  | .trigger _ | .update _ _ => false

/-- A callback of a condition in a session, or of background logic. -/
inductive SessionCall where
  /-- The session was opened; the logic was started. -/
  | start
  /-- The condition was evaluated; the logic was updated. -/
  | turn
  /-- The session was closed; the logic was finished. -/
  | finish
deriving DecidableEq, Repr

/-- A callback of a playback or a junction. -/
inductive Call (T : Type) where
  /-- To the event with this index. -/
  | event (index : Nat) (call : EventCall T)
  /-- To the condition at this place of the tree of this branch. -/
  | condition (branch : Nat) (path : List Nat) (call : SessionCall)
  /-- To the logic with this index. -/
  | logic (index : Nat) (call : SessionCall)
  /-- To what a target builds. -/
  | resolve
deriving DecidableEq

namespace Call

variable {T : Type}

/-- The callbacks of one event, in order. -/
def ofEvent (i : Nat) (calls : List (Call T)) : List (EventCall T) :=
  calls.filterMap fun
    | .event j call => if j = i then some call else none
    | _ => none

/-- The callbacks of one condition, in order. -/
def ofCondition (branch : Nat) (path : List Nat) (calls : List (Call T)) :
    List SessionCall :=
  calls.filterMap fun
    | .condition b q call => if b = branch ∧ q = path then some call else none
    | _ => none

/-- The callbacks of one piece of background logic, in order. -/
def ofLogic (i : Nat) (calls : List (Call T)) : List SessionCall :=
  calls.filterMap fun
    | .logic j call => if j = i then some call else none
    | _ => none

end Call

/-! ## Runs of one interpreter -/

/-- What can happen to an interpreter and its host from outside. -/
inductive Move (H : Type) where
  | step
  | abort
  /-- Something else happens to the host: a tick of another length begins, say. -/
  | outside (f : H → H)

namespace Move

variable {A E H S S' : Type}

/-- Does one move, given what a step and an abort do. -/
def perform (step abort : S → H → S × H) (x : S × H) : Move H → S × H
  | .step => step x.1 x.2
  | .abort => abort x.1 x.2
  | .outside f => (x.1, f x.2)

/-- The interpreter and the host after these moves. -/
def run (step abort : S → H → S × H) (moves : List (Move H)) (x : S × H) : S × H :=
  moves.foldl (perform step abort) x

/-- Every step among these moves finds a host that satisfies `D`. -/
def Paced (D : H → Prop) (step abort : S → H → S × H) : List (Move H) → S × H → Prop
  | [], _ => True
  | .step :: moves, x => D x.2 ∧ Paced D step abort moves (step x.1 x.2)
  | .abort :: moves, x => Paced D step abort moves (abort x.1 x.2)
  | .outside f :: moves, x => Paced D step abort moves (x.1, f x.2)

/-- The host may be any. -/
theorem paced_true (step abort : S → H → S × H) (moves : List (Move H)) (x : S × H) :
    Paced (fun _ => True) step abort moves x := by
  induction moves generalizing x with
  | nil => trivial
  | cons move moves ih =>
    cases move with
    | step => exact ⟨trivial, ih _⟩
    | abort => exact ih _
    | outside f => exact ih _

/-- The same move on a host with a journal; what happens outside is not noted. -/
def journaled : Move H → Move (Journaled E H)
  | .step => .step
  | .abort => .abort
  | .outside f => .outside (Journaled.act f)

/-- If recorded steps and recorded aborts are the plain ones with a log, so is a recorded
run; and what each of them keeps of the interpreter and of everything noted holds along it. -/
theorem run_recorded {step abort : S → H → S × H}
    {step' abort' : S' → Journaled E H → S' × Journaled E H} (lift : S → S') (mark : A → E)
    {D : H → Prop} {I : S → List A → Prop}
    (hstep : ∀ (x : S) (calls : List A) (s : Journaled E H), I x calls → D s.host →
      ∃ log, step' (lift x) s = (lift (step x s.host).1,
          ⟨(step x s.host).2, s.journal ++ log.map mark⟩) ∧
        I (step x s.host).1 (calls ++ log))
    (habort : ∀ (x : S) (calls : List A) (s : Journaled E H), I x calls →
      ∃ log, abort' (lift x) s = (lift (abort x s.host).1,
          ⟨(abort x s.host).2, s.journal ++ log.map mark⟩) ∧
        I (abort x s.host).1 (calls ++ log))
    (moves : List (Move H)) {x : S} {calls : List A} (hI : I x calls) (s : Journaled E H)
    (hD : Paced D step abort moves (x, s.host)) :
    ∃ log, run step' abort' (moves.map journaled) (lift x, s) =
        (lift (run step abort moves (x, s.host)).1,
          ⟨(run step abort moves (x, s.host)).2, s.journal ++ log.map mark⟩) ∧
      I (run step abort moves (x, s.host)).1 (calls ++ log) := by
  induction moves generalizing x calls s with
  | nil =>
    refine ⟨[], by simp [run], ?_⟩
    rw [List.append_nil]
    exact hI
  | cons move moves ih =>
    -- the log of the later moves goes behind that of the first one
    have happend : ∀ {y : S × H} {log : List A}, I y.1 (calls ++ log) →
        Paced D step abort moves y →
        ∃ log', run step' abort' (moves.map journaled)
            (lift y.1, ⟨y.2, s.journal ++ log.map mark⟩) =
            (lift (run step abort moves y).1,
              ⟨(run step abort moves y).2, s.journal ++ log'.map mark⟩) ∧
          I (run step abort moves y).1 (calls ++ log') := by
      intro y log hI hD
      obtain ⟨log', hlog', hend⟩ := ih hI ⟨y.2, s.journal ++ log.map mark⟩ hD
      refine ⟨log ++ log', ?_, ?_⟩
      · rw [List.map_append, ← List.append_assoc]
        exact hlog'
      · rw [← List.append_assoc]
        exact hend
    cases move with
    | outside f => exact ih hI (s.act f) hD
    | step =>
      obtain ⟨log, hlog, hI⟩ := hstep x calls s hI hD.1
      simp only [run, List.map_cons, List.foldl_cons, perform, journaled, hlog]
      exact happend hI hD.2
    | abort =>
      obtain ⟨log, hlog, hI⟩ := habort x calls s hI
      simp only [run, List.map_cons, List.foldl_cons, perform, journaled, hlog]
      exact happend hI hD

/-- What steps and aborts keep of an interpreter holds of it after every run. -/
theorem run_keeps {step abort : S → H → S × H} {I : S → Prop}
    (hstep : ∀ x h, I x → I (step x h).1) (habort : ∀ x h, I x → I (abort x h).1)
    (moves : List (Move H)) {x : S} (hx : I x) (h : H) : I (run step abort moves (x, h)).1 := by
  induction moves generalizing x h with
  | nil => exact hx
  | cons move moves ih =>
    cases move with
    | step => exact ih (hstep x h hx) _
    | abort => exact ih (habort x h hx) _
    | outside f => exact ih hx _

/-! ### When nothing answers -/

/-- The host after these moves, if it is left alone by steps and aborts. -/
def drift : List (Move H) → H → H
  | [], h => h
  | .outside f :: moves, h => drift moves (f h)
  | .step :: moves, h | .abort :: moves, h => drift moves h

/-- Steps and aborts that do nothing leave the interpreter as it is, and the host to what
happens outside. -/
theorem run_of_idle {step abort : S → H → S × H} {x : S} (hstep : ∀ h, step x h = (x, h))
    (habort : ∀ h, abort x h = (x, h)) (moves : List (Move H)) (h : H) :
    run step abort moves (x, h) = (x, drift moves h) := by
  induction moves generalizing h with
  | nil => rfl
  | cons move moves ih =>
    cases move with
    | step =>
      rw [run, List.foldl_cons, perform, hstep]
      exact ih h
    | abort =>
      rw [run, List.foldl_cons, perform, habort]
      exact ih h
    | outside f => exact ih (f h)

/-- Steps and aborts alone leave the host where it was. -/
theorem drift_of_no_outside {moves : List (Move H)} (hmoves : ∀ f, .outside f ∉ moves) (h : H) :
    drift moves h = h := by
  induction moves with
  | nil => rfl
  | cons move moves ih =>
    have hrest : ∀ f, .outside f ∉ moves := fun f hf => hmoves f (List.mem_cons_of_mem _ hf)
    cases move with
    | step => exact ih hrest
    | abort => exact ih hrest
    | outside f => exact absurd List.mem_cons_self (hmoves f)

/-- What happens outside is not noted. -/
theorem drift_journaled (moves : List (Move H)) (s : Journaled E H) :
    drift (moves.map journaled) s = ⟨drift moves s.host, s.journal⟩ := by
  induction moves generalizing s with
  | nil => rfl
  | cons move moves ih =>
    cases move with
    | step => exact ih s
    | abort => exact ih s
    | outside f => exact ih (s.act f)

end Move

end Cueflow
