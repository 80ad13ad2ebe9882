/-
A slave that is late: the error that names the target as the state the slave is in.

The status that an error reports is the last one that was read in any attempt. What a
request polls for, it stops at, so a slave that was asked for the target and shows it
is a slave that got there. The detour through the safe state does not ask for the
target first. A slave that was slow to follow the request before the detour may show
operational while the safe state is polled for: the look passes it by, the detour goes
no further, and the next attempt asks for the target again. If no status is read after
that look, the run fails with operational as the state that was observed.

# From a request to a run

Whether the last status of a trace shows the target is settled piece by piece. A trace
is accounted for (`Accounted`) if it shows the target in the end for no other reason
than that the slave was overtaken in it (`Overtaken`). What is put together of such
traces is one (`Accounted.append`); a request that missed its state is one, and so are a
detour, an attempt and a row of attempts that missed theirs. `observed_iff_overtaken`
puts the row and `seen_of_unread` together.
-/
import Servo.Proofs.StateControl

namespace Servo.StateControl

open Bus Program

variable {timing : Timing} {slave : UInt16} {target asked : AlState} {polls : Nat}
  {last status : Status} {t u v : Bus.interface.Trace}

-- ====================================================== nothing is read

/-- No status is read in a trace. -/
def Unread (t : Bus.interface.Trace) : Prop :=
  ∀ k status, (⟨.state k, .ok status⟩ : Bus.interface.Event) ∉ t

theorem unread_nil : Unread [] := fun _ _ => List.not_mem_nil

/-- No status is read in two traces just if none is in either. -/
theorem unread_append_iff : Unread (t ++ u) ↔ Unread t ∧ Unread u := by
  simp only [Unread, List.mem_append, not_or, forall_and]

theorem unread_clearAl : Unread [⟨.clearAl slave, ()⟩] := by simp [Unread]

theorem unread_setState {answer : Except Fault Unit} :
    Unread [⟨.setState slave target, answer⟩] := by simp [Unread]

/-- A look that is not answered reads no status. -/
theorem unread_fault {fault : Fault} : Unread [look slave (.error fault)] := by
  simp [Unread, look]

/-- What is known is known event by event. -/
theorem seen_cons (e : Bus.interface.Event) : seen last (e :: t) = seen (seen last [e]) t :=
  seen_append (t := [e])

/-- What was known before is known still. -/
theorem seen_of_unread (h : Unread t) : seen last t = last := by
  induction t generalizing last with
  | nil => rfl
  | cons e t ih =>
    obtain ⟨he, ht⟩ := (unread_append_iff (t := [e])).1 h
    rw [seen_cons, ih ht]
    obtain ⟨request, answer⟩ := e
    cases request with
    | state k =>
      cases answer with
      | error fault => rfl
      | ok status => exact absurd (List.mem_singleton_self _) (he k status)
    | _ => rfl

/-- The last status that is read is the one known in the end. -/
theorem seen_of_read (h : Unread v) :
    seen last (u ++ look slave (.ok status) :: v) = status := by
  rw [seen_append, seen_cons, seen_of_unread h]
  rfl

/-- Of some looks none was answered, or one was answered last. -/
theorem looks_cases (slave : UInt16) (looks : List (Except Fault Status)) :
    Unread (looks.map (look slave))
      ∨ ∃ before status after, looks = before ++ .ok status :: after
        ∧ Unread (after.map (look slave)) := by
  induction looks with
  | nil => exact .inl unread_nil
  | cons answer looks ih =>
    rcases ih with hunread | ⟨before, status, after, rfl, hafter⟩
    · cases answer with
      | error fault => exact .inl (unread_append_iff.2 ⟨unread_fault, hunread⟩)
      | ok status => exact .inr ⟨[], status, looks, rfl, hunread⟩
    · exact .inr ⟨answer :: before, status, after, rfl, hafter⟩

-- ========================================================= the overtaking

/-- The slave takes a request for the safe state and is looked at; a look shows it in
operational, and no status is read any more. -/
def Overtaken (slave : UInt16) (t : Bus.interface.Trace) : Prop :=
  ∃ before, ∃ looks : List (Except Fault Status), ∃ alStatus after,
    t = before ++ (⟨.setState slave .safeOperational, .ok ()⟩ :: looks.map (look slave))
      ++ look slave (.ok ⟨some .operational, alStatus⟩) :: after
    ∧ Unread after

/-- A slave that was overtaken was so whatever came before. -/
theorem Overtaken.prepend (h : Overtaken slave u) : Overtaken slave (t ++ u) := by
  obtain ⟨before, looks, alStatus, after, rfl, hafter⟩ := h
  exact ⟨t ++ before, looks, alStatus, after, by simp only [List.append_assoc], hafter⟩

/-- It is so still if no status is read behind. -/
theorem Overtaken.append (h : Overtaken slave t) (hu : Unread u) : Overtaken slave (t ++ u) := by
  obtain ⟨before, looks, alStatus, after, rfl, hafter⟩ := h
  refine ⟨before, looks, alStatus, after ++ u, ?_, unread_append_iff.2 ⟨hafter, hu⟩⟩
  simp only [List.append_assoc, List.cons_append]

/-- The state of an overtaken slave is known in the end. -/
theorem Overtaken.shown (h : Overtaken slave t) : (shown t).state = some .operational := by
  obtain ⟨before, looks, alStatus, after, rfl, hafter⟩ := h
  exact congrArg Status.state (seen_of_read hafter)

/-- A trace that ends with the target known read no status, or overtook the slave. -/
def Accounted (slave : UInt16) (target : AlState) (t : Bus.interface.Trace) : Prop :=
  ∀ last, (seen last t).state = some target →
    Unread t ∨ target = .operational ∧ Overtaken slave t

/-- A trace without a status shows no state. -/
theorem accounted_of_unread (h : Unread t) : Accounted slave target t := fun _ _ => .inl h

/-- A trace in which the last status shows another state. -/
theorem accounted_of_seen (h : ∀ last, (seen last t).state ≠ some target) :
    Accounted slave target t :=
  fun last hseen => absurd hseen (h last)

/-- Traces that are accounted for are so one behind the other: the last status is that of
the second one, or still that of the first. -/
theorem Accounted.append (ht : Accounted slave target t) (hu : Accounted slave target u) :
    Accounted slave target (t ++ u) := by
  intro last hseen
  rw [seen_append] at hseen
  rcases hu _ hseen with hunread | ⟨hop, hover⟩
  · rw [seen_of_unread hunread] at hseen
    rcases ht last hseen with hnone | ⟨hop, hover⟩
    · exact .inl (unread_append_iff.2 ⟨hnone, hunread⟩)
    · exact .inr ⟨hop, hover.append hunread⟩
  · exact .inr ⟨hop, hover.prepend⟩

-- ================================================ what missed its state

/-- A request ends where the last look that was answered shows the state it is in. -/
theorem Asking.unread_or_read (a : Asking) (slave : UInt16) :
    Unread (a.trace slave) ∨ ∃ before status after, a.looks = before ++ .ok status :: after
      ∧ Unread (after.map (look slave)) ∧ ∀ last, seen last (a.trace slave) = status := by
  rcases looks_cases slave a.looks with hunread | ⟨before, status, after, hlooks, hafter⟩
  · exact .inl (unread_append_iff.2 ⟨unread_setState, hunread⟩)
  · refine .inr ⟨before, status, after, hlooks, hafter, fun last => ?_⟩
    unfold Asking.trace
    rw [hlooks, List.map_append, List.map_cons, seen_cons]
    exact seen_of_read hafter

/-- There are looks only behind a request that was taken. -/
theorem Asking.Of.taken_of_looks {a : Asking} {answer : Except Fault Status}
    {before after : List (Except Fault Status)} (h : a.Of asked polls)
    (hlooks : a.looks = before ++ answer :: after) : a.answer = .ok () := by
  cases hanswer : a.answer with
  | ok => rfl
  | error fault =>
    rw [h.refused hanswer] at hlooks
    exact absurd hlooks.symm (List.append_ne_nil_of_right_ne_nil _ (List.cons_ne_nil _ _))

/-- What is polled for is not overlooked. -/
theorem Asking.Of.accounted {a : Asking} (h : a.Of target polls) (hmissed : ¬ a.Reached) :
    Accounted slave target (a.trace slave) := by
  rcases a.unread_or_read slave with hunread | ⟨before, status, after, hlooks, -, hseen⟩
  · exact accounted_of_unread hunread
  · refine accounted_of_seen fun last htarget => hmissed ?_
    rw [hseen] at htarget
    obtain rfl : after = [] := (h.taken (h.taken_of_looks hlooks)).stops hlooks htarget
    have hshows : Shows a.target (.ok status) := h.asked ▸ htarget
    exact ⟨before, .ok status, hlooks, hshows⟩

/-- A request that got the slave to another state. -/
theorem Asking.Of.accounted_of_reached {a : Asking} (h : a.Of asked polls) (hreached : a.Reached)
    (hother : asked ≠ target) : Accounted slave target (a.trace slave) := by
  have hends : EndsShowing slave a.target (a.trace slave) := hreached.ends
  obtain ⟨before, alStatus, hends⟩ := hends
  refine accounted_of_seen fun last htarget => hother ?_
  have hseen : seen last (a.trace slave) = ⟨some a.target, alStatus⟩ := by
    rw [hends]
    exact seen_of_read unread_nil
  rw [hseen, h.asked] at htarget
  exact Option.some.inj htarget

/-- A slave that shows operational while the safe state is polled for is overtaken. -/
theorem Asking.Of.accounted_safe {a : Asking} (h : a.Of .safeOperational polls) :
    Accounted slave .operational (a.trace slave) := by
  rcases a.unread_or_read slave with
    hunread | ⟨before, ⟨state, alStatus⟩, after, hlooks, hafter, hseen⟩
  · exact accounted_of_unread hunread
  · intro last htarget
    rw [hseen] at htarget
    obtain rfl : state = some .operational := htarget
    refine .inr ⟨rfl, [], before, alStatus, after.map (look slave), ?_, hafter⟩
    unfold Asking.trace
    rw [h.taken_of_looks hlooks, h.asked, hlooks, List.map_append, List.map_cons]
    rfl

/-- A detour that missed operational shows it only if the slave was overtaken in it. -/
theorem Detour.Of.accounted {d : Detour} (h : d.Of timing) (hmissed : ¬ d.Reached) :
    Accounted slave .operational (d.trace slave) := by
  unfold Detour.trace
  cases hfurther : d.further with
  | none =>
    show Accounted slave .operational (d.safe.trace slave ++ [])
    rw [List.append_nil]
    exact h.safe.accounted_safe
  | some b =>
    have hsafe : d.safe.Reached := h.further_iff.1 (by rw [hfurther]; rfl)
    have hfurthered : ¬ b.Reached := fun hreached => hmissed ⟨b, hfurther, hreached⟩
    apply (h.safe.accounted_of_reached hsafe (by decide)).append
    exact (h.further b hfurther).accounted hfurthered

/-- An attempt that missed the target is accounted for. -/
theorem Attempt.Follows.accounted {earlier : List Attempt} {a : Attempt}
    (h : a.Follows timing slave target earlier) (hmissed : ¬ a.Reached) :
    Accounted slave target (a.trace slave) := by
  have hdirect : Accounted slave target (a.direct.trace slave) :=
    h.direct.accounted fun hreached => hmissed (.inl hreached)
  have hdetour : Accounted slave target (a.detour.elim [] (Detour.trace slave)) := by
    cases hd : a.detour with
    | none => exact accounted_of_unread unread_nil
    | some d =>
      -- only on the way to operational is there a detour
      obtain rfl := (h.detour_iff.1 (by rw [hd]; rfl)).2.2.1
      exact (h.detour d hd).accounted fun hreached => hmissed (.inr ⟨d, hd, hreached⟩)
  exact (accounted_of_unread unread_clearAl).append (hdirect.append hdetour)

/-- No attempt of a row that fails gets the slave there. -/
theorem Row.missed {row : List Attempt} {left : Nat}
    (h : Row timing slave target left [] row false) : ∀ a ∈ row, ¬ a.Reached := by
  rcases row.eq_nil_or_concat with rfl | ⟨before, b, rfl⟩
  · exact fun a ha => absurd ha List.not_mem_nil
  · rw [List.concat_eq_append] at h ⊢
    apply List.forall_mem_append.2 ⟨h.follow.at_split.pending, List.forall_mem_singleton.2 ?_⟩
    exact fun hb => Bool.false_ne_true (h.reached_iff.2 ⟨before, b, rfl, hb⟩)

/-- A row of attempts is accounted for if each of them is. -/
theorem accounted_traceOf {row : List Attempt}
    (h : ∀ a ∈ row, Accounted slave target (a.trace slave)) :
    Accounted slave target (traceOf slave row) := by
  induction row with
  | nil => exact accounted_of_unread unread_nil
  | cons a row ih =>
    obtain ⟨ha, hrow⟩ := List.forall_mem_cons.1 h
    exact ha.append (ih hrow)

/-- Every row that does not reach the target is accounted for. -/
theorem Row.accounted {row : List Attempt} {left : Nat}
    (h : Row timing slave target left [] row false) :
    Accounted slave target (traceOf slave row) := by
  refine accounted_traceOf fun a ha => ?_
  have hmissed : ¬ a.Reached := h.missed a ha
  obtain ⟨before, after, rfl⟩ := List.append_of_mem ha
  exact h.follow.at_split.accounted hmissed

-- =============================================================== the error

/-- An error reports the target as the state that was observed exactly if the slave was
overtaken, on its way to operational. -/
theorem observed_iff_overtaken {e : Error} (h : Runs (reach timing slave target) t (.error e)) :
    e.observed = some target ↔ target = .operational ∧ Overtaken slave t := by
  obtain ⟨row, reached, rfl, hrow, hr⟩ := reach_row h
  cases reached with
  | true => cases hr
  | false =>
    cases hr
    constructor
    · intro hobserved
      rcases hrow.accounted _ hobserved with hunread | hovertaken
      · -- nothing was read, so nothing was observed
        have hnothing : shown (traceOf slave row) = ⟨none, .noError⟩ := seen_of_unread hunread
        rw [show (shown (traceOf slave row)).state = none by rw [hnothing]] at hobserved
        cases hobserved
      · exact hovertaken
    · rintro ⟨rfl, hovertaken⟩
      exact hovertaken.shown

/-- A slave follows the request for operational while the safe state is polled for. -/
def lateTrace : Bus.interface.Trace :=
  [⟨.clearAl 1, ()⟩, ⟨.setState 1 .operational, .ok ()⟩,
   ⟨.state 1, .ok ⟨some .preOperational, .noError⟩⟩,
   ⟨.setState 1 .safeOperational, .ok ()⟩,
   ⟨.state 1, .ok ⟨some .operational, .noError⟩⟩,
   ⟨.state 1, .ok ⟨some .operational, .noError⟩⟩]

theorem runs_lateTrace :
    Runs (reach { stateAttempts := 1, statePolls := 1 } 1 .operational) lateTrace
      (.error ⟨1, .operational, some .operational, .noError, 1⟩) :=
  Runs.of_replay rfl

theorem observed_iff_overtaken_late :
    Runs (reach { stateAttempts := 1, statePolls := 1 } 1 .operational) lateTrace
        (.error ⟨1, .operational, some .operational, .noError, 1⟩)
      ∧ AlState.operational = .operational ∧ Overtaken 1 lateTrace :=
  ⟨runs_lateTrace, (observed_iff_overtaken runs_lateTrace).1 rfl⟩

/-- An error that says a slave is stuck in the state it failed to reach. -/
theorem not_observed_ne_target :
    ¬ ∀ (timing : Timing) (slave : UInt16) (target : AlState) (t : Bus.interface.Trace)
      (e : Error), Runs (reach timing slave target) t (.error e) → e.observed ≠ some target :=
  fun h => h _ _ _ _ _ runs_lateTrace rfl

end Servo.StateControl
