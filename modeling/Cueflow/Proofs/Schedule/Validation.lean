import Cueflow.Proofs.Schedule.Punctuality
/-!
# Validation is exact

Which lists of events make a timeline, and what is said of the others.

> `validation_exact`: a list is accepted, and then kept as it is, exactly if every time and
> duration is finite and not below 0 and no event starts before another one that stands earlier;
> otherwise the error blames the first event that fails a check, for its time before its duration
> and for its duration before its order.

`Passes` is what is asked of the event at one index and `Blames` what is said if that fails; both
know the list only, and nothing of the scan with its running `previous`. The scan compares
neighbours. That this orders the whole list is a matter of transitivity (`acceptable_iff`).
-/

namespace Cueflow

variable {T H : Type} [Scalar T]

namespace Timeline

/-- Finite and not below 0. -/
def Fit (x : T) : Prop := Scalar.isFinite x = true ∧ ¬ x < 0

theorem placeable_iff {x : T} : placeable x = true ↔ Fit x := by
  unfold placeable Fit
  rw [Bool.and_eq_true, Bool.not_eq_true', decide_eq_false_iff_not]

/-- No check fails at this index: the event there has a time and a duration that fit, and starts
no earlier than the event just before it. -/
structure Passes (events : List (Event T H)) (i : Nat) : Prop where
  time : ∀ e, events[i]? = some e → Fit e.time
  duration : ∀ e, events[i]? = some e → Fit e.duration
  order : ∀ e before k, i = k + 1 → events[i]? = some e → events[k]? = some before →
    ¬ e.time < before.time

/-- What is said of the event at an index where a check fails. Of several checks that fail the
first one counts, and only an event with another one before it can be out of order. -/
inductive Blames (events : List (Event T H)) : Nat → BuildError T → Prop where
  | time {i : Nat} {e : Event T H} : events[i]? = some e → ¬ Fit e.time →
      Blames events i (.eventTime i e.time)
  | duration {i : Nat} {e : Event T H} : events[i]? = some e → Fit e.time → ¬ Fit e.duration →
      Blames events i (.eventDuration i e.duration)
  | order {k : Nat} {e before : Event T H} : events[k + 1]? = some e → Fit e.time →
      Fit e.duration → events[k]? = some before → e.time < before.time →
      Blames events (k + 1) (.eventOrder (k + 1) e.time before.time)

/-- All numbers fit, and times are in order across the whole list. -/
structure Acceptable (events : List (Event T H)) : Prop where
  fits : ∀ e ∈ events, Fit e.time ∧ Fit e.duration
  ordered : ∀ (i j : Nat) (e e' : Event T H), i ≤ j → events[i]? = some e →
    events[j]? = some e' → e.time ≤ e'.time

variable {events : List (Event T H)} {i : Nat} {err err' : BuildError T}

/-- Blame is laid where a check fails. -/
theorem Blames.not_passes (h : Blames events i err) : ¬ Passes events i := by
  intro hpasses
  cases h with
  | time he htime => exact htime (hpasses.time _ he)
  | duration he _ hduration => exact hduration (hpasses.duration _ he)
  | order he _ _ hbefore hlt => exact hpasses.order _ _ _ rfl he hbefore hlt

/-- One thing is said of an event. -/
theorem Blames.unique (h : Blames events i err) (h' : Blames events i err') : err = err' := by
  cases h <;> cases h' <;> simp_all

/-! ## The scan -/

/-- The scan has come to index `k` and remembers the time of the event just before it, or 0 if
there is none. -/
def Remembers (events : List (Event T H)) (k : Nat) (previous : T) : Prop :=
  (k = 0 ∧ previous = 0) ∨ ∃ n before, k = n + 1 ∧ events[n]? = some before ∧
    previous = before.time

/-- What the scan tests is what the list says of the event. -/
theorem Remembers.lt_iff {k : Nat} {previous : T} (h : Remembers events k previous)
    {e : Event T H} (htime : Fit e.time) :
    e.time < previous ↔ ∃ n before, k = n + 1 ∧ events[n]? = some before ∧
      previous = before.time ∧ e.time < before.time := by
  rcases h with ⟨rfl, rfl⟩ | ⟨n, before, rfl, hbefore, rfl⟩
  · -- no time that fits is below the 0 that the scan starts with
    refine iff_of_false htime.2 ?_
    rintro ⟨n, before, hn, -⟩
    omega
  · exact ⟨fun hlt => ⟨n, before, rfl, hbefore, rfl, hlt⟩,
      fun ⟨m, other, hm, hother, heq, hlt⟩ => heq ▸ hlt⟩

/-- The scan goes on from an event without complaint, or it stops there with the blame. -/
theorem checkFrom_cons {k : Nat} {previous : T} (hprevious : Remembers events k previous)
    {e : Event T H} (he : events[k]? = some e) (rest : List (Event T H)) :
    Passes events k ∧ checkFrom k previous (e :: rest) = checkFrom (k + 1) e.time rest ∨
      ∃ err, Blames events k err ∧ checkFrom k previous (e :: rest) = .error err := by
  have hsame : ∀ e', events[k]? = some e' → e' = e := fun e' he' =>
    Option.some.inj (he'.symm.trans he)
  rw [checkFrom]
  by_cases htime : Fit e.time
  · by_cases hduration : Fit e.duration
    · rw [placeable_iff.2 htime, placeable_iff.2 hduration]
      by_cases horder : e.time < previous
      · obtain ⟨n, before, rfl, hbefore, rfl, hlt⟩ := (hprevious.lt_iff htime).1 horder
        exact Or.inr ⟨_, .order he htime hduration hbefore hlt, by simp [horder]⟩
      · refine Or.inl ⟨⟨?_, ?_, ?_⟩, by simp [horder]⟩
        · exact fun e' he' => hsame e' he' ▸ htime
        · exact fun e' he' => hsame e' he' ▸ hduration
        · rintro e' before n rfl he' hbefore hlt
          rw [hsame e' he'] at hlt
          rcases hprevious with ⟨hzero, -⟩ | ⟨m, before', hm, hbefore', rfl⟩
          · omega
          · obtain rfl : n = m := by omega
            rw [Option.some.inj (hbefore.symm.trans hbefore')] at hlt
            exact horder hlt
    · have hbad : placeable e.duration = false := by
        simpa using mt placeable_iff.1 hduration
      exact Or.inr ⟨_, .duration he htime hduration, by simp [placeable_iff.2 htime, hbad]⟩
  · have hbad : placeable e.time = false := by simpa using mt placeable_iff.1 htime
    exact Or.inr ⟨_, .time he htime, by simp [hbad]⟩

/-- A scan that stops blames the first event at which a check fails, and one that does not has
seen no check fail. -/
theorem checkFrom_eq {rest : List (Event T H)} {k : Nat} {previous : T}
    (hrest : events.drop k = rest) (hprevious : Remembers events k previous) :
    (checkFrom k previous rest = .ok () ∧ ∀ i, k ≤ i → Passes events i) ∨
      ∃ i err, checkFrom k previous rest = .error err ∧ Blames events i err ∧
        ∀ j, k ≤ j → j < i → Passes events j := by
  induction rest generalizing k previous with
  | nil =>
    -- there is no event left to ask anything of
    have hnone : ∀ i, k ≤ i → events[i]? = none := fun i hi =>
      List.getElem?_eq_none (Nat.le_trans (List.drop_eq_nil_iff.1 hrest) hi)
    refine Or.inl ⟨rfl, fun i hi => ⟨?_, ?_, ?_⟩⟩
    · intro e he
      exact nomatch (hnone i hi).symm.trans he
    · intro e he
      exact nomatch (hnone i hi).symm.trans he
    · intro e _ _ _ he
      exact nomatch (hnone i hi).symm.trans he
  | cons e rest ih =>
    have he : events[k]? = some e := by
      rw [← List.head?_drop, hrest]
      rfl
    have hnext : events.drop (k + 1) = rest := by
      rw [← List.tail_drop, hrest]
      rfl
    rcases checkFrom_cons hprevious he rest with ⟨hpasses, hgoes⟩ | ⟨err, hblames, hstops⟩
    · have hhere : ∀ i, k ≤ i → k + 1 ≤ i ∨ i = k := fun i hi => by omega
      rw [hgoes]
      rcases ih hnext (Or.inr ⟨k, e, rfl, he, rfl⟩) with
        ⟨hok, hall⟩ | ⟨i, err, herr, hblames, hbefore⟩
      · refine Or.inl ⟨hok, fun i hi => ?_⟩
        rcases hhere i hi with hlt | rfl
        · exact hall i hlt
        · exact hpasses
      · refine Or.inr ⟨i, err, herr, hblames, fun j hj hji => ?_⟩
        rcases hhere j hj with hlt | rfl
        · exact hbefore j hlt hji
        · exact hpasses
    · exact Or.inr ⟨k, err, hstops, hblames, fun j hj hjk => absurd hjk (by omega)⟩

/-- The timeline is the list that was scanned, or the error is that of the scan. -/
theorem ofEvents_eq (name : String) (events : List (Event T H)) :
    (ofEvents name events = .ok ⟨name, events⟩ ∧ ∀ i, Passes events i) ∨
      ∃ i err, ofEvents name events = .error err ∧ Blames events i err ∧
        ∀ j < i, Passes events j := by
  have hscan := checkFrom_eq (List.drop_zero (l := events)) (Or.inl ⟨rfl, rfl⟩)
  unfold ofEvents
  rcases hscan with ⟨hok, hall⟩ | ⟨i, err, herr, hblames, hbefore⟩
  · rw [hok]
    exact Or.inl ⟨rfl, fun i => hall i (Nat.zero_le i)⟩
  · rw [herr]
    exact Or.inr ⟨i, err, rfl, hblames, fun j hj => hbefore j (Nat.zero_le j) hj⟩

/-! ## Neighbours and the whole list -/

/-- Every event passes its checks exactly if the list as a whole is in order. -/
theorem acceptable_iff [ClockLaws T] : Acceptable events ↔ ∀ i, Passes events i := by
  constructor
  · intro h i
    refine ⟨?_, ?_, ?_⟩
    · exact fun e he => (h.fits e (List.mem_of_getElem? he)).1
    · exact fun e he => (h.fits e (List.mem_of_getElem? he)).2
    · rintro e before k rfl he hbefore
      exact ClockLaws.not_lt_of_le (h.ordered k (k + 1) before e (Nat.le_succ k) hbefore he)
  · intro h
    have hfits : ∀ e ∈ events, Fit e.time ∧ Fit e.duration := by
      intro e he
      obtain ⟨i, hi⟩ := List.getElem?_of_mem he
      exact ⟨(h i).time e hi, (h i).duration e hi⟩
    have hself : ∀ {i : Nat} {e : Event T H}, events[i]? = some e → e.time ≤ e.time :=
      fun he => ClockLaws.le_self_of_isFinite (hfits _ (List.mem_of_getElem? he)).1.1
    refine ⟨hfits, fun i j e e' hij hi hj => ?_⟩
    -- from one neighbour to the next
    induction j, hij using Nat.le_induction generalizing e' with
    | base =>
      obtain rfl : e = e' := Option.some.inj (hi.symm.trans hj)
      exact hself hi
    | succ j hij ih =>
      obtain ⟨hlt, -⟩ := List.getElem?_eq_some_iff.1 hj
      obtain ⟨before, hbefore⟩ : ∃ before, events[j]? = some before :=
        ⟨_, List.getElem?_eq_getElem (Nat.lt_of_succ_lt hlt)⟩
      have hnext : ¬ e'.time < before.time := (h (j + 1)).order e' before j rfl hj hbefore
      exact ClockLaws.le_trans (ih before hbefore)
        (ClockLaws.le_of_not_lt (hself hj) (hself hbefore) hnext)

/-- A list of events, whatever its times and durations are, makes a timeline exactly if it is
acceptable, and the timeline has just these events. Otherwise the error is what is said of the
event at the least index at which a check fails. An event that is out of order is compared with
the one just before it, so the first event never is. -/
theorem validation_exact (name : String) (events : List (Event Float32 H)) :
    ((∃ t, ofEvents name events = .ok t) ↔ Acceptable events) ∧
    (∀ t, ofEvents name events = .ok t → t = ⟨name, events⟩) ∧
    (∀ err, ofEvents name events = .error err ↔
      ∃ i, Blames events i err ∧ ∀ j < i, Passes events j) ∧
    ∀ time previous, ofEvents name events ≠ .error (.eventOrder 0 time previous) := by
  rw [acceptable_iff]
  rcases ofEvents_eq name events with ⟨hok, hall⟩ | ⟨i, err, herr, hblames, hbefore⟩
  · rw [hok]
    refine ⟨iff_of_true ⟨_, rfl⟩ hall, fun t ht => (Except.ok.inj ht).symm, fun err => ?_,
      fun _ _ hzero => nomatch hzero⟩
    refine iff_of_false (fun herr => nomatch herr) ?_
    rintro ⟨i, hblames, -⟩
    exact hblames.not_passes (hall i)
  · rw [herr]
    refine ⟨iff_of_false ?_ fun hall => hblames.not_passes (hall i), fun _ ht => (nomatch ht),
      fun err' => ⟨?_, ?_⟩, fun time previous hzero => ?_⟩
    · rintro ⟨t, ht⟩
      exact nomatch ht
    · rintro ⟨⟩
      exact ⟨i, hblames, hbefore⟩
    · rintro ⟨j, hblames', hbefore'⟩
      -- neither index comes before the other
      rcases Nat.lt_trichotomy i j with hlt | rfl | hlt
      · exact absurd (hbefore' i hlt) hblames.not_passes
      · rw [hblames.unique hblames']
      · exact absurd (hbefore j hlt) hblames'.not_passes
    · rw [Except.error.inj hzero] at hblames
      exact nomatch hblames

end Timeline

end Cueflow
