import Cueflow.World.Basic
import Cueflow.Proofs.Flow.CleanUp
/-!
# Clean hand-over

The callbacks of the interpreters that a director runs, one after the other.

> `clean_hand_over`: the calls of successive interpreters do not mix, and before the target of
> an interpreter is resolved, or the next one is called, everything that it opened was closed
> once. So it is after a final abort. Starting or redirecting a director calls nothing, and
> what was replaced is not called again.

`Tidy` says this of a journal. `Ledger` adds what is known of the flow that runs, and is kept
by every turn of it: the calls of a turn are appended at the place of the flow, complete up to
the resolution if the turn is the last one. A new run begins at a place that no entry has.
-/

namespace Cueflow

variable {T H K : Type}

/-- The interpreter at place `l` has nothing left to do when `e` is noted: `e` resolves its
target or comes from a later interpreter of the same run. -/
def Entry.Follows (e : Entry T) (l : Place) : Prop :=
  e = ⟨l, .resolve⟩ ∨ e.place.run = l.run ∧ l.position < e.place.position

/-- What was noted up to place `l` is in the order of places, and interpreters clean up:
whatever follows an interpreter comes after complete calls of it, with none of its calls later
on, and those that came before `l` in the same run are complete. -/
structure Tidy (l : Place) (journal : List (Entry T)) : Prop where
  ordered : journal.Pairwise fun x y => x.place ≤ y.place
  bounded : ∀ e ∈ journal, e.place ≤ l
  clean : ∀ before e after, journal = before ++ e :: after → ∀ m, e.Follows m →
    Complete (callsAt m before) ∧ callsAt m after = []
  past : ∀ m : Place, m.run = l.run → m.position < l.position → Complete (callsAt m journal)

/-- An entry of two lists in a row is in one of them. -/
theorem append_eq_append_cons {α : Type} {xs ys before after : List α} {e : α}
    (h : xs ++ ys = before ++ e :: after) :
    (∃ rest, xs = before ++ e :: rest ∧ after = rest ++ ys) ∨
      ∃ mid, before = xs ++ mid ∧ ys = mid ++ e :: after := by
  rcases List.append_eq_append_iff.1 h with ⟨mid, hbefore, hys⟩ | ⟨mid, hxs, hafter⟩
  · exact Or.inr ⟨mid, hbefore, hys⟩
  · cases mid with
    | nil =>
      rw [List.append_nil] at hxs
      exact Or.inr ⟨[], by rw [hxs, List.append_nil], by simpa using hafter.symm⟩
    | cons first rest =>
      obtain ⟨rfl, hrest⟩ := List.cons.inj hafter
      exact Or.inl ⟨rest, hxs, hrest⟩

/-- A resolution in the log of a turn is its last call. -/
theorem eq_of_resolve {acts trail before after : List (Call T)} (hacts : .resolve ∉ acts)
    (htrail : trail = [] ∨ trail = [.resolve])
    (h : acts ++ trail = before ++ .resolve :: after) :
    before = acts ∧ trail = [.resolve] ∧ after = [] := by
  rcases append_eq_append_cons h with ⟨rest, hmem, -⟩ | ⟨mid, hbefore, hmid⟩
  · rw [hmem] at hacts
    exact absurd (List.mem_append_right _ List.mem_cons_self) hacts
  · rcases htrail with rfl | rfl
    · simp at hmid
    · cases mid with
      | nil => exact ⟨hbefore.trans (List.append_nil _), rfl, (List.cons.inj hmid).2.symm⟩
      | cons first rest => simp at hmid

namespace Tidy

variable {l : Place} {journal : List (Entry T)}

theorem nil (l : Place) : Tidy l ([] : List (Entry T)) where
  ordered := .nil
  bounded e he := absurd he List.not_mem_nil
  clean before e after h := by simp at h
  past _ _ _ := complete_nil

/-- The calls of a turn are appended at the current place. If they end with a resolution, what
comes before it is complete. -/
theorem append (h : Tidy l journal) (hopen : ⟨l, .resolve⟩ ∉ journal)
    {acts trail : List (Call T)} (hacts : .resolve ∉ acts)
    (htrail : trail = [] ∨ trail = [.resolve])
    (hcomplete : trail = [.resolve] → Complete (callsAt l journal ++ acts)) :
    Tidy l (journal ++ (acts ++ trail).map (Entry.mk l)) where
  ordered := by
    have hplace : ∀ e ∈ (acts ++ trail).map (Entry.mk l), e.place = l :=
      fun e he => place_of_mem_map he
    refine List.pairwise_append.2 ⟨h.ordered, ?_, fun x hx y hy => ?_⟩
    · refine List.pairwise_of_forall_mem_list fun x hx y hy => ?_
      exact Or.inr (by rw [hplace x hx, hplace y hy]; exact ⟨rfl, Nat.le_refl _⟩)
    · rw [hplace y hy]
      exact h.bounded x hx
  bounded e he := by
    rcases List.mem_append.1 he with he | he
    · exact h.bounded e he
    · rw [place_of_mem_map he]
      exact Or.inr ⟨rfl, Nat.le_refl _⟩
  clean before e after hsplit m hfollows := by
    rcases append_eq_append_cons hsplit with ⟨rest, rfl, rfl⟩ | ⟨mid, rfl, hmid⟩
    · -- `e` was there before: it follows no interpreter at `l`, and nothing else is called now
      have he : e ∈ before ++ e :: rest := List.mem_append_right _ List.mem_cons_self
      obtain ⟨hbefore, hrest⟩ := h.clean before e rest rfl m hfollows
      have hm : m ≠ l := by
        rintro rfl
        rcases hfollows with rfl | ⟨hrun, hpos⟩
        · exact hopen he
        · rcases Place.le_iff.1 (h.bounded e he) with hlt | ⟨-, hle⟩ <;> omega
      refine ⟨hbefore, ?_⟩
      rw [callsAt_append, hrest, callsAt_map_of_ne hm]
      rfl
    · -- `e` is new: it resolves the target at `l`, or `m` is an earlier place of the run
      obtain ⟨before, rest, hlog, rfl, hrest⟩ := List.map_eq_append_iff.1 hmid
      obtain ⟨call, after, rfl, rfl, rfl⟩ := List.map_eq_cons_iff.1 hrest
      rcases hfollows with heq | ⟨hrun, hpos⟩
      · injection heq with hl hcall
        subst hl hcall
        obtain ⟨rfl, htrail, rfl⟩ := eq_of_resolve hacts htrail hlog
        rw [callsAt_append, callsAt_map_self]
        exact ⟨hcomplete htrail, rfl⟩
      · have hm : m ≠ l := fun heq => by rw [heq] at hpos; exact Nat.lt_irrefl _ hpos
        rw [callsAt_append, callsAt_map_of_ne hm, callsAt_map_of_ne hm, List.append_nil]
        exact ⟨h.past m hrun.symm hpos, rfl⟩
  past m hrun hm := by
    have hne : m ≠ l := fun heq => by rw [heq] at hm; exact Nat.lt_irrefl _ hm
    rw [callsAt_append, callsAt_map_of_ne hne, List.append_nil]
    exact h.past m hrun hm

/-- The next place of the run, once the calls of the current one are complete. -/
theorem next (h : Tidy l journal) (hcomplete : Complete (callsAt l journal)) :
    Tidy l.next journal where
  ordered := h.ordered
  bounded e he := by
    rcases Place.le_iff.1 (h.bounded e he) with hlt | ⟨heq, hle⟩
    · exact Or.inl hlt
    · exact Or.inr ⟨heq, Nat.le_succ_of_le hle⟩
  clean := h.clean
  past m hrun hm := by
    rcases Nat.lt_succ_iff_lt_or_eq.1 hm with hlt | heq
    · exact h.past m hrun hlt
    · have hml : m = l := by
        cases m
        cases l
        simp_all [Place.next]
      rw [hml]
      exact hcomplete

theorem renew (h : Tidy l journal) : Tidy ⟨l.run + 1, 0⟩ journal where
  ordered := h.ordered
  bounded e he := by
    have hle := Place.le_iff.1 (h.bounded e he)
    refine Or.inl ?_
    show e.place.run < l.run + 1
    omega
  clean := h.clean
  past m _ hm := absurd hm (Nat.not_lt_zero _)

end Tidy

/-! ## The ledger of a run -/

/-- What is known of a recorded director: its journal is tidy, no target was resolved yet at
its place, and what was noted there is accounted for by the flow that runs, or complete. -/
structure Ledger (l : Place) (current : Option (Flow T H K)) (journal : List (Entry T)) :
    Prop where
  tidy : Tidy l journal
  unresolved : ⟨l, .resolve⟩ ∉ journal
  sound : ∀ c, current = some c → c.Sound
  accounts : ∀ c, current = some c → c.Accounts (callsAt l journal)
  idle : current = none → Complete (callsAt l journal)

namespace Ledger

variable {l l' : Place} {c : Flow T H K} {current : Option (Flow T H K)}
  {journal : List (Entry T)} {log : List (Call T)}

/-- Whatever begins at a place that no entry has. -/
theorem enter (h : Tidy l journal) (hfresh : ∀ e ∈ journal, e.place ≠ l)
    (hsound : ∀ c, current = some c → c.Sound) : Ledger l current journal where
  tidy := h
  unresolved hmem := hfresh _ hmem rfl
  sound := hsound
  accounts c hc := by
    rw [callsAt_eq_nil hfresh]
    exact Flow.accounts_of_sound (hsound c hc)
  idle _ := by
    rw [callsAt_eq_nil hfresh]
    exact complete_nil

theorem renew (h : Ledger l current journal) {next : Option (Flow T H K)}
    (hnext : ∀ c, next = some c → c.Sound) : Ledger ⟨l.run + 1, 0⟩ next journal := by
  refine enter h.tidy.renew (fun e he heq => ?_) hnext
  have hle := Place.le_iff.1 (h.tidy.bounded e he)
  rw [heq] at hle
  have : l.run + 1 < l.run ∨ l.run + 1 = l.run ∧ 0 ≤ l.position := hle
  omega

theorem unresolved_append (h : Ledger l current journal) (hlog : .resolve ∉ log) :
    ⟨l, .resolve⟩ ∉ journal ++ log.map (Entry.mk l) := by
  intro hmem
  rcases List.mem_append.1 hmem with hmem | hmem
  · exact h.unresolved hmem
  · obtain ⟨call, hcall, heq⟩ := List.mem_map.1 hmem
    injection heq with _ hresolve
    rw [hresolve] at hcall
    exact hlog hcall

/-- A turn of the running flow keeps the ledger. -/
theorem turn [Scalar T] (h : Ledger l (some c) journal) (hturn : c.Turn l log l' current) :
    Ledger l' current (journal ++ log.map (Entry.mk l)) := by
  have haccounts := h.accounts c rfl
  have hcalls : ∀ log : List (Call T),
      callsAt l (journal ++ log.map (Entry.mk l)) = callsAt l journal ++ log := by
    intro log
    rw [callsAt_append, callsAt_map_self]
  cases hturn with
  | stay hstep hc' =>
    cases haccounts.stepped hstep with
    | going hlog hnext =>
      have htidy := h.tidy.append h.unresolved hlog (Or.inl rfl) fun htrail => nomatch htrail
      rw [List.append_nil] at htidy
      refine ⟨htidy, h.unresolved_append hlog, ?_, ?_, fun hnone => nomatch hnone⟩
      · rintro _ ⟨⟩
        exact hc'
      · rintro _ ⟨⟩
        rw [hcalls]
        exact hnext
  | handOver hstep hnext =>
    cases haccounts.stepped hstep with
    | ended hacts htrail hcomplete =>
      -- everything noted so far is complete, and the next place is a new one
      have htidy := h.tidy.append h.unresolved hacts htrail fun _ => hcomplete
      refine enter (htidy.next ?_) (fun e he heq => ?_) hnext
      · rw [hcalls, ← List.append_assoc]
        exact (complete_append_trail htrail).2 hcomplete
      · have hle := Place.le_iff.1 (htidy.bounded e he)
        rw [heq] at hle
        have : l.run < l.run ∨ l.run = l.run ∧ l.position + 1 ≤ l.position := hle
        omega
  | stop hstop =>
    obtain ⟨hlog, hcomplete⟩ := haccounts.stopped hstop
    have htidy := h.tidy.append h.unresolved hlog (Or.inl rfl) fun htrail => nomatch htrail
    rw [List.append_nil] at htidy
    refine ⟨htidy, h.unresolved_append hlog, fun _ hnone => (nomatch hnone),
      fun _ hnone => (nomatch hnone), fun _ => ?_⟩
    rw [hcalls]
    exact hcomplete

/-- Once nothing runs, all calls of the run are complete. -/
theorem complete (h : Ledger l (none : Option (Flow T H K)) journal) {m : Place}
    (hm : m.run = l.run) : Complete (callsAt m journal) := by
  rcases Nat.lt_trichotomy m.position l.position with hlt | heq | hgt
  · exact h.tidy.past m hm hlt
  · have hml : m = l := by
      cases m
      cases l
      simp_all
    rw [hml]
    exact h.idle rfl
  · rw [callsAt_eq_nil fun e he heq => ?_]
    · exact complete_nil
    · have hle := Place.le_iff.1 (h.tidy.bounded e he)
      rw [heq] at hle
      omega

end Ledger

/-! ## Recorded commands -/

variable [Scalar T]

/-- A recorder that has come to place `l` together with a plain director and its host. -/
structure Recorder.Tracks (r : Recorder T H K) (x : Director (Flow T H K) × H) (l : Place) :
    Prop where
  run : l.run = r.run
  director : r.director = x.1.map (Flow.traced l)
  host : r.host.host = x.2
  ledger : Ledger l x.1.current r.host.journal

/-- The recorder `r'` goes on from `r` at place `l` as the plain director and host to `x'`:
what it has noted meanwhile comes from `l`, and no run was left for an earlier one. -/
def Recorder.GoesOn (r : Recorder T H K) (l : Place) (r' : Recorder T H K)
    (x' : Director (Flow T H K) × H) : Prop :=
  ∃ l' es, r'.Tracks x' l' ∧ r'.host.journal = r.host.journal ++ es ∧
    (∀ e ∈ es, e.place = l) ∧ l.run ≤ l'.run

variable [Host H T] [StatusBoard H] [Builder K H (Flow T H K)]

namespace Recorder.Tracks

variable {r : Recorder T H K} {x : Director (Flow T H K) × H} {l : Place}

omit [Host H T] [Builder K H (Flow T H K)] in
theorem idle (name : String) (h : H) :
    (Recorder.idle name h : Recorder T H K).Tracks (Director.idle name h) ⟨0, 0⟩ where
  run := rfl
  director := rfl
  host := rfl
  ledger := .enter (.nil _) (fun _ he => absurd he List.not_mem_nil) fun _ hc => nomatch hc

omit [Host H T] [StatusBoard H] [Builder K H (Flow T H K)] in
/-- The recorded director is idle if the plain one is. -/
theorem idle_of_idle (h : r.Tracks x l) (hidle : x.1.current = none) :
    r.director.current = none := by
  rw [h.director]
  simp [Director.map, hidle]

omit [Host H T] [StatusBoard H] [Builder K H (Flow T H K)] in
theorem goesOn_of_eq {r' : Recorder T H K} {x' : Director (Flow T H K) × H} {l' : Place}
    (h : r'.Tracks x' l') (hjournal : r'.host.journal = r.host.journal) (hrun : l.run ≤ l'.run) :
    r.GoesOn l r' x' :=
  ⟨l', [], h, hjournal.trans (List.append_nil _).symm, fun _ he => absurd he List.not_mem_nil,
    hrun⟩

omit [Host H T] [StatusBoard H] [Builder K H (Flow T H K)] in
/-- A turn of the flow is noted. -/
theorem turn (h : r.Tracks x l) {c : Flow T H K} (hcurrent : x.1.current = some c)
    {x' : Director (Flow T H K) × H} {log : List (Call T)} {l' : Place}
    (hturn : c.Turn l log l' x'.1.current) :
    r.GoesOn l
      ⟨r.run, x'.1.map (Flow.traced l'), ⟨x'.2, r.host.journal ++ log.map (Entry.mk l)⟩⟩ x' := by
  have hledger := h.ledger
  rw [hcurrent] at hledger
  have hrun := hturn.run_eq
  exact ⟨l', log.map (Entry.mk l), ⟨hrun.trans h.run, rfl, rfl, hledger.turn hturn⟩, rfl,
    fun e he => place_of_mem_map he, Nat.le_of_eq hrun.symm⟩

theorem tick (hbuild : Builds K H fun c : Flow T H K => c.Sound) (h : r.Tracks x l) :
    r.GoesOn l (Command.record r .tick) (Director.obey x .tick) := by
  show r.GoesOn l ⟨r.run, (r.director.tick r.host).2.1, (r.director.tick r.host).2.2⟩
    (x.1.tick x.2).2
  cases hcurrent : x.1.current with
  | none =>
    rw [Director.tick_of_idle hcurrent, Director.tick_of_idle (h.idle_of_idle hcurrent)]
    exact goesOn_of_eq h rfl (Nat.le_refl _)
  | some c =>
    obtain ⟨log, l', hlog, hturn⟩ := Director.tick_traced hbuild hcurrent
      (h.ledger.sound c hcurrent) l r.host
    rw [← h.director, h.host] at hlog
    rw [h.host] at hturn
    rw [hlog]
    exact h.turn hcurrent hturn

theorem abort (h : r.Tracks x l) :
    r.GoesOn l (Command.record r .abort) (Director.obey x .abort) := by
  show r.GoesOn l ⟨r.run, (r.director.abort r.host).2.1, (r.director.abort r.host).2.2⟩
    (x.1.abort x.2).2
  cases hcurrent : x.1.current with
  | none =>
    rw [Director.abort_of_idle hcurrent, Director.abort_of_idle (h.idle_of_idle hcurrent)]
    exact goesOn_of_eq h rfl (Nat.le_refl _)
  | some c =>
    obtain ⟨log, hlog, hturn⟩ := Director.abort_traced hcurrent (h.ledger.sound c hcurrent) l
      r.host
    rw [← h.director, h.host] at hlog
    rw [h.host] at hturn
    rw [hlog]
    exact h.turn hcurrent hturn

/-- A redirection begins a run, and so does a start. -/
theorem redirect (h : r.Tracks x l) {next : Option (Flow T H K)}
    (hnext : ∀ flow, next = some flow → flow.Sound) :
    (Command.record r (.redirect next)).Tracks (Director.obey x (.redirect next))
      ⟨l.run + 1, 0⟩ where
  run := congrArg (· + 1) h.run
  director := by
    show { r.director with current := next.map (Flow.traced ⟨r.run + 1, 0⟩) } = _
    rw [h.director, h.run]
    rfl
  host := by
    show StatusBoard.post r.director.status _ r.host.host = _
    rw [h.director, h.host, Option.isSome_map]
    rfl
  ledger := h.ledger.renew hnext

/-- Every command is followed by the recorder. -/
theorem command (hbuild : Builds K H fun c : Flow T H K => c.Sound) (h : r.Tracks x l)
    {command : Command (Flow T H K) H} (hc : command.Sound) :
    r.GoesOn l (command.record r) (Director.obey x command) := by
  cases command with
  | tick => exact h.tick hbuild
  | abort => exact h.abort
  | start flow =>
    have hnext : ∀ c, some flow = some c → c.Sound := by
      rintro _ ⟨⟩
      exact hc
    exact goesOn_of_eq (h.redirect hnext) rfl (Nat.le_succ _)
  | redirect next => exact goesOn_of_eq (h.redirect hc) rfl (Nat.le_succ _)
  | outside f =>
    exact goesOn_of_eq ⟨h.run, h.director, congrArg f h.host, h.ledger⟩ rfl (Nat.le_refl _)

/-- Along a run of commands, the recorder stays with the plain director, and what is noted
comes from places of the current run or of later ones. -/
theorem commands (hbuild : Builds K H fun c : Flow T H K => c.Sound) (h : r.Tracks x l)
    (commands : List (Command (Flow T H K) H)) (hsound : ∀ c ∈ commands, c.Sound) :
    ∃ l' es, (commands.foldl Command.record r).Tracks (Director.after commands x) l' ∧
      (commands.foldl Command.record r).host.journal = r.host.journal ++ es ∧
      ∀ e ∈ es, l.run ≤ e.place.run := by
  induction commands generalizing r x l with
  | nil =>
    exact ⟨l, [], h, (List.append_nil _).symm, fun _ he => absurd he List.not_mem_nil⟩
  | cons first rest ih =>
    obtain ⟨l₁, es₁, h₁, hjournal₁, hplace, hle⟩ := h.command hbuild
      (hsound first List.mem_cons_self)
    obtain ⟨l', es, h', hjournal, hrun⟩ := ih h₁ fun c hc => hsound c (List.mem_cons_of_mem _ hc)
    refine ⟨l', es₁ ++ es, h', ?_, fun e he => ?_⟩
    · rw [List.foldl_cons, hjournal, hjournal₁, List.append_assoc]
    · rcases List.mem_append.1 he with he | he
      · exact Nat.le_of_eq (congrArg Place.run (hplace e he)).symm
      · exact Nat.le_trans hle (hrun e he)

end Recorder.Tracks

/-! ## Clean hand-over -/

/-- The flow that a command installs on a director, if it is one that does, with `none` for
nothing. -/
def Command.installs {C : Type} : Command C H → Option (Option C)
  | .start flow => some (some flow)
  | .redirect next => some next
  | .tick | .abort | .outside _ => none

/-- Whatever installs a flow is a redirection to it. -/
theorem Command.redirect_of_installs {command : Command (Flow T H K) H}
    {next : Option (Flow T H K)} (h : command.installs = some next) (hc : command.Sound) :
    (∀ x, Director.obey x command = Director.obey x (.redirect next)) ∧
      (∀ r, Command.record r command = Command.record r (.redirect next)) ∧
      ∀ flow, next = some flow → flow.Sound := by
  cases command with
  | start flow =>
    obtain rfl : some flow = next := Option.some.inj h
    refine ⟨fun _ => rfl, fun _ => rfl, ?_⟩
    rintro _ ⟨⟩
    exact hc
  | redirect _ =>
    obtain rfl := Option.some.inj h
    exact ⟨fun _ => rfl, fun _ => rfl, hc⟩
  | tick => exact nomatch h
  | abort => exact nomatch h
  | outside _ => exact nomatch h

/-- A director that is ticked, aborted, started and redirected in any order, with flows that
are prepared to any depth or built on demand, on a host that changes between ticks in any way.
What it has noted is tidy: the calls of successive interpreters do not mix, and everything that
an interpreter opened in a run was closed once before its target is resolved and before the
next one is called, and is when nothing runs any more, as after an abort. Starting or
redirecting posts the status of the director and does nothing else: no call is noted then, and
none from an earlier run is ever after. Keeping the journal changes nothing of the director. -/
theorem clean_hand_over (hbuild : Builds K H fun c : Flow T H K => c.Sound) (name : String)
    (h : H) (commands : List (Command (Flow T H K) H)) (hsound : ∀ c ∈ commands, c.Sound) :
    let plain := Director.after commands (Director.idle name h)
    let noted := commands.foldl Command.record (Recorder.idle name h)
    let stopped := Command.record noted .abort
    ∃ l : Place, l.run = noted.run ∧
      (noted.director = plain.1.map (Flow.traced l) ∧ noted.host.host = plain.2) ∧
      Tidy l noted.host.journal ∧
      (plain.1.current = none → Complete (callsAt l noted.host.journal)) ∧
      (∀ m, m.run = noted.run → Complete (callsAt m stopped.host.journal)) ∧
      ∀ command next, command.installs = some next → command.Sound →
        (Director.obey plain command).2 =
          StatusBoard.post plain.1.status next.isSome plain.2 ∧
        (Command.record noted command).host.journal = noted.host.journal ∧
        ∀ later : List (Command (Flow T H K) H), (∀ c ∈ later, c.Sound) →
          ∀ m, m.run ≤ noted.run →
            callsAt m (later.foldl Command.record (Command.record noted command)).host.journal =
              callsAt m noted.host.journal := by
  intro plain noted stopped
  obtain ⟨l, es, htracks, -, -⟩ := (Recorder.Tracks.idle name h).commands hbuild commands hsound
  refine ⟨l, htracks.run, ⟨htracks.director, htracks.host⟩, htracks.ledger.tidy,
    htracks.ledger.idle, fun m hm => ?_, fun command next hinstalls hcommand => ?_⟩
  · -- after an abort nothing runs
    obtain ⟨l', -, hstopped, -⟩ := htracks.abort
    have hnone : (Director.obey plain .abort).1.current = none := plain.1.current_abort plain.2
    have hledger := hstopped.ledger
    rw [hnone] at hledger
    exact hledger.complete (hm.trans hstopped.run.symm)
  · obtain ⟨hobey, hrecord, hnext⟩ := command.redirect_of_installs hinstalls hcommand
    rw [hobey, hrecord]
    refine ⟨rfl, rfl, fun later hlater m hm => ?_⟩
    -- whatever is noted later comes from the run that begins here, or from a later one
    obtain ⟨-, es, -, hjournal, hrun⟩ := (htracks.redirect hnext).commands hbuild later hlater
    have hnew : callsAt m es = [] := by
      refine callsAt_eq_nil fun e he heq => ?_
      have hle : l.run + 1 ≤ e.place.run := hrun e he
      have hlrun : l.run = noted.run := htracks.run
      rw [heq] at hle
      omega
    rw [hjournal, callsAt_append, hnew, List.append_nil]
    rfl

/-- Two ticks of a span that exits early lead to a gate that is built on demand; the span was
closed before the gate was built, and the abort closes the gate. -/
theorem clean_hand_over_at_gate :
    let gate : Flow Float32 World Unit := .junction (.ofBranches "gate" [.ofUpdate id]
      [.whenNot .always .stop])
    letI : Builder Unit World (Flow Float32 World Unit) := ⟨fun _ w => (some gate, w)⟩
    let walk : Flow Float32 World Unit := .playback (.opening
      ⟨"walk", [.span 0 5 fun _ w => w, .exitState 2]⟩ (some (.build ())))
    let w := (World.ofSeed none).beginTick 1
    let commands : List (Command (Flow Float32 World Unit) World) :=
      [.start walk, .tick, .tick, .tick]
    let noted := commands.foldl Command.record (Recorder.idle "main" w)
    (Builds Unit World fun c : Flow Float32 World Unit => c.Sound) ∧
    (∀ c ∈ commands, c.Sound) ∧
    callsAt ⟨1, 0⟩ noted.host.journal =
      [.event 0 (.trigger .ongoing), .event 1 (.trigger .exit), .event 0 .close, .resolve] ∧
    callsAt ⟨1, 1⟩ noted.host.journal =
      [.condition 0 [] .start, .logic 0 .start, .logic 0 .turn, .condition 0 [] .turn] ∧
    ∀ m, m.run = 1 → Complete (callsAt m (Command.record noted .abort).host.journal) := by
  intro gate
  let _ : Builder Unit World (Flow Float32 World Unit) := ⟨fun _ w => (some gate, w)⟩
  intro walk w commands noted
  have hgate : gate.Sound := .ofBranches _ _ _ fun _ hnext => absurd hnext List.not_mem_nil
  have hbuild : Builds Unit World fun c : Flow Float32 World Unit => c.Sound := by
    rintro ⟨⟩ _ _ ⟨⟩
    exact hgate
  have hwalk : walk.Sound := .opening _ _ fun _ hnext => absurd hnext List.not_mem_nil
  have hsound : ∀ c ∈ commands, c.Sound :=
    List.forall_mem_cons.2 ⟨hwalk, by simp [Command.Sound]⟩
  obtain ⟨l, -, -, -, -, hstopped, -⟩ := clean_hand_over hbuild "main" w commands hsound
  exact ⟨hbuild, hsound, by decide, by decide, hstopped⟩

end Cueflow
