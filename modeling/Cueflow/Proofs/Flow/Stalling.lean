import Cueflow.World.Basic
import Cueflow.Proofs.Choice.Countdown
import Cueflow.Proofs.Number.Gaps
import Cueflow.Proofs.Schedule.Completion
import Cueflow.Proofs.Schedule.Standing
/-!
# Time that stands still

The clock of a playback is a rounded sum of deltas, and what is left of a wait is a rounded
difference. So a tick may leave either of them where it is.

> `time_moves_unless_absorbed`: a tick of a positive length moves a clock, and a countdown, unless
> it is absorbed: unless it is at most half as long as the gap to the next number. If all ticks
> are longer than half of the gap above a bound, every event up to the bound is reached and every
> wait up to it is over after a number of ticks that can be given beforehand.

> `time_stalls_at_two_pow_nineteen`: at 2^19 seconds, which are six days, ticks of a 64th of a
> second are absorbed. An event or the end of a wait that lies further ahead is never reached.

The number of ticks comes from a rank: every number is a whole number of the smallest ones, and a
tick that moves a clock or a countdown moves it by one of those at least.
-/

namespace Cueflow

open Number Number.BinaryFormat Binary

variable {T H K C : Type} [Scalar T]

/-! ## The clock of a step -/

namespace Playback

section Clock

variable [Builder K H C]

/-- The clock of a running playback is not moved by what follows in a step, and the phase is left
or is that of an end. -/
theorem advance_keeps (p : Playback T H K C) (h : H) :
    (p.advance h).2.1.currentTime = p.currentTime ∧
      ((p.advance h).2.1.phase = p.phase ∨ (p.advance h).2.1.phase.isTerminal = true) := by
  unfold advance
  rcases triggerDue p.currentTime p.pending p.cursor p.active h with ⟨_ | _ | _, cursor, active, h'⟩
  · exact ⟨rfl, Or.inl rfl⟩
  · dsimp only
    split
    · rw [(finish_eq_ended _ _ _ _).2]
      exact ⟨rfl, Or.inr rfl⟩
    · exact ⟨rfl, Or.inl rfl⟩
  · dsimp only
    rw [(finish_eq_ended _ _ _ _).2]
    exact ⟨rfl, Or.inr rfl⟩

theorem proceed_keeps (p : Playback T H K C) (h : H) :
    (p.proceed h).2.1.currentTime = p.currentTime ∧
      ((p.proceed h).2.1.phase = p.phase ∨ (p.proceed h).2.1.phase.isTerminal = true) := by
  unfold proceed
  split
  · rcases updateOngoing p.timeline.events p.currentTime p.active h with ⟨_ | _, active, h'⟩
    · exact advance_keeps { p with active } h'
    · dsimp only
      rw [(finish_eq_ended _ _ _ _).2]
      exact ⟨rfl, Or.inr rfl⟩
  · exact advance_keeps p h

/-- A step moves the clock by the delta, and leaves the playback running or ends it. -/
theorem step_clock [Host H T] {p : Playback T H K C} (hrun : p.phase.isTerminal = false) (h : H) :
    (p.step h).2.1.currentTime = p.currentTime + Host.deltaTime h ∧
      ((p.step h).2.1.phase = .running ∨ (p.step h).2.1.phase.isTerminal = true) := by
  rw [step_eq_proceed hrun]
  exact proceed_keeps (p.atTime (p.currentTime + Host.deltaTime h)) h

end Clock

end Playback

/-! ## Ranks -/

namespace Binary

variable [Binary T] {bound least d x y : T} {n : ℕ}

/-- Numbers are at least one of the smallest apart. -/
theorem value_add_smallest_le (hx : Scalar.isFinite x = true) (hy : Scalar.isFinite y = true)
    (h : x < y) :
    value (read x) + 2 ^ (ofFormat (format T)).minExponent ≤ value (read y) := by
  have hgap := value_add_gap_le fractionBits_pos (written_read hx) (written_read hy)
    ((lt_iff_value hx hy).1 h)
  have := minGap_le (written_read hx)
  linarith

/-- The number is `n` of the smallest ones or more. -/
def Ranks (n : ℕ) (x : T) : Prop :=
  Scalar.isFinite x = true ∧ n * 2 ^ (ofFormat (format T)).minExponent ≤ value (read x)

/-- These ticks are finite, and longer than half of the gap above the bound. -/
structure Outpaces (bound least : T) : Prop where
  finiteBound : Scalar.isFinite bound = true
  finiteLeast : Scalar.isFinite least = true
  half : (ofFormat (format T)).gap (read bound) / 2 < value (read least)

theorem Outpaces.pos (h : Outpaces bound least) (hd : Scalar.isFinite d = true) (hle : least ≤ d) :
    0 < d ∧ (ofFormat (format T)).gap (read bound) / 2 < value (read d) := by
  have hhalf := h.half.trans_le ((le_iff_value h.finiteLeast hd).1 hle)
  have hgap := gap_pos (written_read h.finiteBound)
  refine ⟨(lt_iff_value isFinite_zero hd).2 ?_, hhalf⟩
  rw [value_read_zero]
  linarith

/-- A clock that has not reached the bound gains rank with a tick, unless it reaches it. -/
theorem Outpaces.gains (h : Outpaces bound least) (hd : Scalar.isFinite d = true)
    (hle : least ≤ d) (h0 : 0 ≤ x) (hx : bound ≤ x ∨ Ranks n x) :
    bound ≤ x + d ∨ Ranks (n + 1) (x + d) := by
  obtain ⟨hpos, hhalf⟩ := h.pos hd hle
  have hlater : x ≤ x + d := ClockLaws.le_add h0 (le_of_lt hpos)
  by_cases hreached : bound ≤ x
  · exact Or.inl (ClockLaws.le_trans hreached hlater)
  · obtain ⟨hfinite, hrank⟩ := hx.resolve_left hreached
    have hbefore : x ≤ bound :=
      le_of_lt (ClockLaws.lt_of_not_le (ClockLaws.le_self_of_isFinite h.finiteBound)
        (ClockLaws.le_self_of_isFinite hfinite) hreached)
    have hmoved := (lt_add_iff hfinite hd hpos).2.2
      (not_absorbs hfinite h.finiteBound h0 hbefore hhalf).1
    rcases cases_of_le hfinite hlater with hsum | hsum
    · refine Or.inr ⟨hsum, ?_⟩
      have := value_add_smallest_le hfinite hsum hmoved
      push_cast
      linarith
    · exact Or.inl (le_infinity (ClockLaws.le_self_of_isFinite h.finiteBound) hsum)

/-- What compares with something is defined. -/
theorem le_self_of_le_right (h : x ≤ y) : x ≤ x := by
  obtain ⟨a, -, ha, -, -⟩ := le_iff.1 h
  exact le_iff.2 ⟨a, a, ha, ha, le_rfl⟩

/-- A countdown that is not over after a tick has lost rank. -/
theorem Outpaces.loses (h : Outpaces bound least) (hd : Scalar.isFinite d = true)
    (hle : least ≤ d) (hx : Scalar.isFinite x = true) (hbound : x ≤ bound)
    (hleft : ¬ x - d ≤ 0) :
    Scalar.isFinite (x - d) = true ∧ x - d ≤ x ∧ 0 < value (read (x - d)) ∧
      value (read (x - d)) + 2 ^ (ofFormat (format T)).minExponent ≤ value (read x) := by
  obtain ⟨hpos, hhalf⟩ := h.pos hd hle
  obtain ⟨hless, hmoved⟩ := sub_lt_iff hx hd hpos
  have hzero : (0 : T) ≤ 0 := ClockLaws.zero_le_zero
  have habove : 0 < x - d := ClockLaws.lt_of_not_le (le_self_of_le_right hless) hzero hleft
  have h0 : 0 ≤ x := ClockLaws.le_trans (le_of_lt habove) hless
  have hfinite := isFinite_of_between isFinite_zero hx (le_of_lt habove) hless
  exact ⟨hfinite, hless, value_read_pos hfinite habove, value_add_smallest_le hfinite hx
    (hmoved.2 (not_absorbs hx h.finiteBound h0 hbound hhalf).2)⟩

/-- Every finite number has a rank that it does not exceed. -/
theorem exists_rank (x : T) :
    ∃ n : ℕ, value (read x) ≤ n * 2 ^ (ofFormat (format T)).minExponent := by
  obtain ⟨n, hn⟩ := exists_nat_ge (value (read x) / 2 ^ (ofFormat (format T)).minExponent)
  exact ⟨n, (div_le_iff₀ (by positivity)).1 hn⟩

end Binary

/-! ## Countdowns -/

/-- A countdown is over after as many ticks as its rank allows. -/
theorem Wait.true_mem_answersTo [Binary T] {bound least : T} (h : Outpaces bound least) {left : T}
    {deltas : List T} {n : ℕ} (hleft : Scalar.isFinite left = true) (hbound : left ≤ bound)
    (hdeltas : ∀ d ∈ deltas, Scalar.isFinite d = true ∧ least ≤ d)
    (hrank : value (read left) ≤ n * 2 ^ (ofFormat (format T)).minExponent)
    (hn : n < deltas.length) : true ∈ answersTo left deltas := by
  induction deltas generalizing left n with
  | nil => exact absurd hn (Nat.not_lt_zero n)
  | cons d deltas ih =>
    obtain ⟨⟨hd, hle⟩, hdeltas⟩ := List.forall_mem_cons.1 hdeltas
    by_cases hover : left - d ≤ 0
    · exact List.mem_cons.2 (Or.inl (decide_eq_true hover).symm)
    · obtain ⟨hfinite, hless, hpos, hlost⟩ := h.loses hd hle hleft hbound hover
      refine List.mem_cons_of_mem _ ?_
      cases n with
      | zero =>
        -- what has no rank cannot lose any
        rw [Nat.cast_zero, zero_mul] at hrank
        have : (0 : ℚ) < 2 ^ (ofFormat (format T)).minExponent := by positivity
        linarith
      | succ n =>
        push_cast at hrank
        exact ih hfinite (ClockLaws.le_trans hless hbound) hdeltas (by linarith)
          (Nat.lt_of_succ_lt_succ hn)

/-! ## Clocks -/

/-- Whether this is a step. -/
def Move.isStep : Move H → Bool
  | .step => true
  | .abort | .outside _ => false

namespace Playback

variable [Binary T] [Host H T] [Builder K H C] {bound least : T} {p : Playback T H K C}

/-- The playback is over, or `n` steps have made it run and brought its clock to the bound or to
this rank. -/
def Comes (bound : T) (n : ℕ) (p : Playback T H K C) : Prop :=
  p.phase.isTerminal = true ∨
    (0 < n → p.phase = .running) ∧ 0 ≤ p.currentTime ∧
      (bound ≤ p.currentTime ∨ Ranks n p.currentTime)

theorem Comes.step {n : ℕ} (hp : Comes bound n p) (h : Outpaces bound least) {w : H}
    (hd : Scalar.isFinite (Host.deltaTime w : T) = true) (hle : least ≤ Host.deltaTime w) :
    Comes bound (n + 1) (p.step w).2.1 := by
  by_cases hover : p.phase.isTerminal = true
  · rw [step_of_isTerminal hover]
    exact Or.inl hover
  · obtain ⟨-, h0, hx⟩ := hp.resolve_left hover
    obtain ⟨hclock, hphase⟩ := step_clock (p := p) (by simpa using hover) w
    refine hphase.elim (fun hrun => Or.inr ⟨fun _ => hrun, ?_⟩) Or.inl
    rw [hclock]
    exact ⟨ClockLaws.zero_le_add h0 (le_of_lt (h.pos hd hle).1), h.gains hd hle h0 hx⟩

omit [Host H T] [Builder K H C] in
theorem Comes.abort {n : ℕ} (w : H) : Comes bound n (p.abort w).1 := by
  refine Or.inl ?_
  unfold Playback.abort
  split
  next hover => exact hover
  · rfl

/-- A run gains a rank with every step. -/
theorem Comes.play (h : Outpaces bound least) (moves : List (Move H)) {n : ℕ}
    (hp : Comes bound n p) (w : H)
    (hpaced : Paced (fun d => Scalar.isFinite d = true ∧ least ≤ d) moves p w) :
    Comes bound (n + moves.countP Move.isStep) (Playback.play moves p w).1 := by
  induction moves generalizing n p w with
  | nil => exact hp
  | cons move moves ih =>
    cases move with
    | step =>
      obtain ⟨⟨hd, hle⟩, hrest⟩ := hpaced
      have hnext := ih (hp.step h hd hle) _ hrest
      rw [Nat.add_right_comm, Nat.add_assoc] at hnext
      rw [List.countP_cons_of_pos rfl]
      exact hnext
    | abort =>
      rw [List.countP_cons_of_neg (by simp [Move.isStep])]
      exact ih (Comes.abort w) _ hpaced
    | outside f =>
      rw [List.countP_cons_of_neg (by simp [Move.isStep])]
      exact ih hp (f w) hpaced

omit [Host H T] [Builder K H C] in
/-- A playback that runs with its clock at the bound has no event before the bound left to
trigger. -/
theorem Ahead.lt_cursor {t : Timeline T H} {calls : List (Call T)} (h : Ahead t p calls)
    (ht : t.Ordered) (hrun : p.phase = .running) (hbound : bound ≤ p.currentTime) {i : ℕ}
    {e : Event T H} (he : t.events[i]? = some e) (hle : e.time ≤ bound) : i < p.cursor := by
  by_contra hge
  have hsize : i < t.events.length := (List.getElem?_eq_some_iff.1 he).1
  have hcursor : p.cursor < t.events.length := by omega
  have hahead := h.next hrun _ (List.getElem?_eq_getElem hcursor)
  refine ClockLaws.not_le_of_lt hahead ?_
  refine ClockLaws.le_trans ?_ (ClockLaws.le_trans hle hbound)
  obtain rfl : t.events[i] = e := by
    rw [List.getElem?_eq_getElem hsize] at he
    exact Option.some.inj he
  rcases Nat.lt_or_eq_of_le (not_lt.1 hge) with hlt | heq
  · exact List.pairwise_iff_getElem.1 ht.sorted _ _ hcursor hsize hlt
  · simp only [heq]
    exact ht.defined _ (List.getElem_mem hsize)

/-- More steps than the rank of the bound reach every event up to it. -/
theorem reaches_bound (h : Outpaces bound least) {n : ℕ}
    (hrank : value (read bound) ≤ n * 2 ^ (ofFormat (format T)).minExponent) {name : String}
    {events : List (Event T H)} {t : Timeline T H} (ht : Timeline.ofEvents name events = .ok t)
    (target : Option (Target K C)) {moves : List (Move H)} {w : H}
    (hpaced : Paced (fun d => Scalar.isFinite d = true ∧ least ≤ d) moves (opening t target) w)
    (hn : n < moves.countP Move.isStep) :
    (play moves (opening t target) w).1.phase.isTerminal = true ∨
      (play moves (opening t target) w).1.phase = .running ∧
        ∀ i e, t.events[i]? = some e → e.time ≤ bound →
          i < (play moves (opening t target) w).1.cursor := by
  have hordered := Timeline.ordered_of_ofEvents ht
  obtain ⟨calls, -, -, hahead⟩ := play_recorded (id : Call T → Call T) (I := Ahead t)
    (fun hp hrun hI hd hstep => hI.stepped hordered hp hrun (le_of_lt (h.pos hd.1 hd.2).1) hstep)
    (fun _ _ hI => hI.aborted) moves (sound_opening t target) (Ahead.opening t target)
    (⟨w, []⟩ : Journaled (Call T) H) hpaced
  have hstart : Comes bound 0 (opening t target : Playback T H K C) := by
    refine Or.inr ⟨fun hpos => absurd hpos (Nat.lt_irrefl 0), ClockLaws.zero_le_zero, Or.inr ?_⟩
    refine ⟨isFinite_zero, ?_⟩
    rw [Nat.cast_zero, zero_mul]
    exact value_read_zero.ge
  rcases Comes.play h moves hstart w hpaced with hover | ⟨hrun, -, hclock⟩
  · exact Or.inl hover
  rw [Nat.zero_add] at hrun hclock
  have hrun := hrun (Nat.zero_lt_of_lt hn)
  refine Or.inr ⟨hrun, fun i e he hle => hahead.lt_cursor hordered hrun ?_ he hle⟩
  rcases hclock with hclock | ⟨hfinite, hclock⟩
  · exact hclock
  · refine (le_iff_value h.finiteBound hfinite).2 (hrank.trans (le_trans ?_ hclock))
    gcongr

/-! ### Clocks that stand still -/

/-- A step does nothing but move the clock, while an event lies ahead and none is ongoing. -/
theorem Standing.idle {events : List (Event T H)} {next : Option C} {cursor : ℕ} {e : Event T H}
    {w : H} (h : Standing events next cursor [] p) (hd : 0 ≤ (Host.deltaTime w : T))
    (he : events[cursor]? = some e) (hahead : p.timeAfter w < e.time) :
    p.step w = (.suspend, p.atTime (p.timeAfter w), w) := by
  have hat := h.atTime hd
  obtain ⟨hi, rfl⟩ := List.getElem?_eq_some_iff.1 he
  have htrigger : triggerDue (p.timeAfter w) (events.drop cursor) cursor [] w =
      (.future, cursor, [], w) := by
    rw [List.drop_eq_getElem_cons hi]
    exact triggerDue_ahead hahead
  rw [h.step_of_waiting ((hat.isWaiting_iff he).2 hahead) rfl,
    (hat.move cursor []).advance_suspend htrigger (Or.inl rfl), ← h.cursor_eq, ← h.active_eq]
  rfl

omit [Binary T] in
/-- A step that changes nothing changes nothing any number of times. -/
theorem play_of_still {w : H} (hstep : p.step w = (.suspend, p, w)) (n : ℕ) :
    play (List.replicate n .step) p w = (p, w) := by
  induction n with
  | zero => rfl
  | succ n ih =>
    show play (List.replicate n .step) (p.step w).2.1 (p.step w).2.2 = _
    rw [hstep]
    exact ih

/-- A playback whose first step leads to a time before the first event stays there, if further
ticks do not move the clock. -/
theorem still_of_first {t : Timeline T H} {e : Event T H} (he : t.events[0]? = some e) {w w' : H}
    (hd : 0 ≤ (Host.deltaTime w : T)) (hd' : 0 ≤ (Host.deltaTime w' : T))
    (hp : p = ((opening t none : Playback T H K C).step w).2.1)
    (hahead : 0 + Host.deltaTime w < e.time)
    (hstill : 0 + Host.deltaTime w + Host.deltaTime w' = 0 + (Host.deltaTime w : T)) :
    p.cursor = 0 ∧ p.step w' = (.suspend, p, w') := by
  have hstart : Standing t.events (none : Option C) 0 [] (opening t none : Playback T H K C) :=
    .ofTimeline t
  rw [hstart.idle hd he hahead] at hp
  have hat : Standing t.events (none : Option C) 0 [] p := by
    rw [hp]
    exact hstart.atTime hd
  have hclock : p.timeAfter w' = 0 + Host.deltaTime w := by
    rw [hp]
    exact hstill
  refine ⟨hat.cursor_eq, ?_⟩
  rw [hat.idle hd' he (by rw [hclock]; exact hahead), hclock, hp]
  rfl

end Playback

/-! ## When time moves -/

open Playback in
/-- A tick of a positive length leads a playback that is not over to a time that is no smaller,
and larger exactly if the tick is not absorbed by the clock: if it is longer than half of the gap
to the next number, or as long as that where the clock has an odd mantissa. What is left of a wait
becomes no larger in an evaluation, and smaller exactly if the tick is not absorbed by it from
above. For ticks that are all longer than half of the gap above a bound there is a number of ticks
after which no event up to the bound is out of reach and no wait up to it lasts any more. -/
theorem time_moves_unless_absorbed [Binary T] [Host H T] [Builder K H C] :
    (∀ (p : Playback T H K C) (w : H), p.phase.isTerminal = false →
      Scalar.isFinite p.currentTime = true →
      Scalar.isFinite (Host.deltaTime w : T) = true → 0 < (Host.deltaTime w : T) →
      p.currentTime ≤ (p.step w).2.1.currentTime ∧
      (p.currentTime < (p.step w).2.1.currentTime ↔
        ¬ absorbs (read p.currentTime) (Host.deltaTime w : T))) ∧
    (∀ (x : Wait T) (w : H), Scalar.isFinite x.remaining = true →
      Scalar.isFinite (Host.deltaTime w : T) = true → 0 < (Host.deltaTime w : T) →
      (x.isMet w).2.1.remaining ≤ x.remaining ∧
      ((x.isMet w).2.1.remaining < x.remaining ↔
        ¬ absorbs (read x.remaining).neg (Host.deltaTime w : T))) ∧
    ∀ bound least : T, Outpaces bound least → ∃ n : ℕ,
      (∀ (name : String) (events : List (Event T H)) (t : Timeline T H),
        Timeline.ofEvents name events = .ok t →
        ∀ (target : Option (Target K C)) (moves : List (Move H)) (w : H),
        Paced (fun d => Scalar.isFinite d = true ∧ least ≤ d) moves (opening t target) w →
        n < moves.countP Move.isStep →
        let p := (play moves (opening t target) w).1
        p.phase.isTerminal = true ∨
          p.phase = .running ∧ ∀ i e, t.events[i]? = some e → e.time ≤ bound → i < p.cursor) ∧
      (∀ s : WaitSession T H, s.Undisturbed →
        Scalar.isFinite s.drawn = true → s.drawn ≤ bound →
        (∀ d ∈ s.deltas, Scalar.isFinite d = true ∧ least ≤ d) →
        n < s.deltas.length → true ∈ s.answers) := by
  refine ⟨fun p w hrun hx hd hpos => ?_, fun x w hx hd hpos => sub_lt_iff hx hd hpos,
    fun bound least h => ?_⟩
  · rw [(step_clock hrun w).1]
    exact lt_add_iff hx hd hpos
  · obtain ⟨n, hn⟩ := exists_rank bound
    refine ⟨n, fun name events t ht target moves w hpaced hcount =>
      reaches_bound h hn ht target hpaced hcount, fun s hs hdrawn hle hdeltas hcount => ?_⟩
    rw [s.answers_eq hs]
    exact Wait.true_mem_answersTo h hdrawn hle hdeltas
      (((le_iff_value hdrawn h.finiteBound).1 hle).trans hn) hcount

open Playback in
/-- Ticks of a 64th of a second or longer are long enough for a day: there is a number of them
after which an event at its end has been triggered, unless the playback is over. -/
theorem time_moves_for_a_day :
    let day : Timeline Float32 World := ⟨"day", [.call 86400 id]⟩
    let start : Playback Float32 World Empty Unit := opening day none
    Outpaces (86400 : Float32) 0.015625 ∧ Timeline.ofEvents "day" day.events = .ok day ∧
    ∃ n : ℕ, ∀ (moves : List (Move World)) (w : World),
      Paced (fun d : Float32 => Scalar.isFinite d = true ∧ 0.015625 ≤ d) moves start w →
      n < moves.countP Move.isStep →
      (play moves start w).1.phase.isTerminal = true ∨ 0 < (play moves start w).1.cursor := by
  intro day start
  have hday : Timeline.ofEvents "day" day.events = .ok day := by rfl
  have houtpaces : Outpaces (86400 : Float32) 0.015625 := by
    refine ⟨by decide, by decide, ?_⟩
    have hbound : read (86400 : Float32) = .finite .positive 11059200 (-7) (by decide) := by rfl
    have hleast : read (0.015625 : Float32) = .finite .positive 8388608 (-29) (by decide) := by rfl
    rw [hbound, hleast]
    show (2 : ℚ) ^ (-7 : ℤ) / 2 < ((8388608 : ℤ) : ℚ) * 2 ^ (-29 : ℤ)
    norm_num
  refine ⟨houtpaces, hday, ?_⟩
  obtain ⟨n, hreaches, -⟩ :=
    (time_moves_unless_absorbed (T := Float32) (H := World) (K := Empty) (C := Unit)).2.2
      86400 0.015625 houtpaces
  refine ⟨n, fun moves w hpaced hcount => ?_⟩
  refine (hreaches "day" day.events day hday none moves w hpaced hcount).imp id ?_
  rintro ⟨-, hall⟩
  exact hall 0 _ rfl (by decide)

open Playback in
/-- An event lies a 16th of a second ahead of a clock that shows 2^19 seconds, and ticks of a 64th
of a second come: the clock does not move, however many of them come, and the event is not
triggered. A wait of as long, of which nothing is over yet, does not become shorter either. -/
theorem time_stalls_at_two_pow_nineteen :
    let events : List (Event Float32 World) := [.call 524288.0625 id]
    let late : Playback Float32 World Empty Unit := opening ⟨"late", events⟩ none
    let played := play [.outside (·.beginTick 524288), .step] late (World.ofSeed none)
    let w := played.2.beginTick 0.015625
    let wait : Wait Float32 := ⟨524288.0625, 524288.0625, 524288.0625⟩
    Timeline.ofEvents "late" events = .ok ⟨"late", events⟩ ∧
    played.1.phase.isTerminal = false ∧ Scalar.isFinite played.1.currentTime = true ∧
    Scalar.isFinite w.deltaTime = true ∧ 0 < w.deltaTime ∧
    ¬ played.1.currentTime < (played.1.step w).2.1.currentTime ∧
    (∀ n, (play (List.replicate n .step) played.1 w).1.cursor = 0) ∧
    Wait.between (524288.0625 : Float32) 524288.0625 = .ok wait ∧
    (wait.start w).1.remaining = wait.remaining ∧ 0 < wait.remaining ∧
    ¬ (wait.isMet w).2.1.remaining < wait.remaining := by
  intro events late played w wait
  have hnext : events[0]? = some (.call 524288.0625 id) := by rfl
  have hstands : played.1.cursor = 0 ∧ played.1.step w = (.suspend, played.1, w) :=
    still_of_first hnext (by decide) (by decide) rfl (by decide) (by decide)
  obtain ⟨hcursor, hstill⟩ := hstands
  refine ⟨by rfl, by decide, by decide, by decide, by decide, ?_, fun n => ?_, by rfl, by decide,
    by decide, by decide⟩
  · rw [hstill]
    decide
  · rw [play_of_still hstill]
    exact hcursor

end Cueflow
