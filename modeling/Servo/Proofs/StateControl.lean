/-
Bringing a slave to a state: what is requested for it, and when it is there.

A run is a row of attempts. Each of them forgets the last refusal of the slave, asks for
the target and looks at the slave; one attempt of a row may lead it through the safe
state in addition. Whether it does depends on the attempts before it as well: on the
status that was read last, in whichever of them, since a request that is refused and a
look that is not answered leave it as it was (`seen`).

# From a step to a row

`attempts_succ` takes one attempt off a run, given what the program carries along: that
the detour was made, and the last status. `attempts_follow` replaces the two by the
attempts that were made so far (`Attempt.Follows`), by induction on those that are left.

# When it is there

However many attempts it took, and whether or not the slave had to be led through
the safe state, a run that reaches the target ends with a look at the slave that
shows it there (`reach_ends`). Nothing else counts as getting there: a request
that the slave takes is no evidence, and neither is a status that was shown
before the last request.
-/
import Servo.Proofs.Requests

namespace Servo.StateControl

open Bus Program

variable {timing : Timing} {slave : UInt16} {target : AlState} {polls left : Nat}
  {reached escalated : Bool} {last last' : Status} {t u : Bus.interface.Trace}

-- =============================================================== the looks

/-- The last status that was read in a trace, `last` if none was. -/
def seen (last : Status) (t : Bus.interface.Trace) : Status :=
  t.foldl (fun last e => match e with
    | ⟨.state _, .ok status⟩ => status
    | _ => last) last

/-- What was read before is known until something is read later. -/
theorem seen_append : seen last (t ++ u) = seen (seen last t) u := List.foldl_append

/-- The last status that was read in a trace, before which nothing is known. -/
def shown (t : Bus.interface.Trace) : Status := seen ⟨none, .noError⟩ t

/-- A look at a slave, and its answer. -/
def look (slave : UInt16) (answer : Except Fault Status) : Bus.interface.Event :=
  ⟨.state slave, answer⟩

/-- The answer shows a state. -/
def Shows (target : AlState) : Except Fault Status → Prop
  | .ok status => status.state = some target
  | .error _ => False

/-- The last of some looks shows a state. -/
def Shown (target : AlState) (looks : List (Except Fault Status)) : Prop :=
  ∃ before answer, looks = before ++ [answer] ∧ Shows target answer

/-- A slave is looked at until it shows the target, and so often at most. -/
structure Polled (target : AlState) (polls : Nat) (looks : List (Except Fault Status)) :
    Prop where
  bounded : looks.length ≤ polls
  stops {before after : List (Except Fault Status)} {answer : Except Fault Status} :
    looks = before ++ answer :: after → Shows target answer → after = []
  exhausted : ¬ Shown target looks → looks.length = polls

section

variable {answer : Except Fault Status} {looks : List (Except Fault Status)}

/-- Without a look nothing is shown. -/
theorem not_shown_nil : ¬ Shown target [] := by
  rintro ⟨before, answer, h, -⟩
  exact List.append_ne_nil_of_right_ne_nil before (List.cons_ne_nil answer []) h.symm

/-- A look that shows another state leaves it to the later ones. -/
theorem shown_cons_iff (hother : ¬ Shows target answer) :
    Shown target (answer :: looks) ↔ Shown target looks := by
  constructor
  · rintro ⟨before, last, hlooks, hlast⟩
    cases before with
    | nil =>
      obtain rfl := (List.cons.inj hlooks).1
      exact absurd hlast hother
    | cons first before => exact ⟨before, last, (List.cons.inj hlooks).2, hlast⟩
  · rintro ⟨before, last, rfl, hlast⟩
    exact ⟨answer :: before, last, rfl, hlast⟩

/-- No poll is left, so there is no look. -/
theorem polled_zero : Polled target 0 [] where
  bounded := Nat.le_refl 0
  stops h _ := absurd h.symm (List.append_ne_nil_of_right_ne_nil _ (List.cons_ne_nil _ _))
  exhausted _ := rfl

/-- The first look that shows the target is the last one. -/
theorem polled_shown (hshows : Shows target answer) : Polled target (polls + 1) [answer] where
  bounded := Nat.le_add_left 1 polls
  stops {before after _} h _ := by
    cases before with
    | nil => exact (List.cons.inj h).2.symm
    | cons first before =>
      exact absurd (List.cons.inj h).2.symm
        (List.append_ne_nil_of_right_ne_nil before (List.cons_ne_nil _ after))
  exhausted h := absurd ⟨[], answer, rfl, hshows⟩ h

/-- A look that does not show the target is followed by the other polls. -/
theorem Polled.cons (hother : ¬ Shows target answer) (h : Polled target polls looks) :
    Polled target (polls + 1) (answer :: looks) where
  bounded := Nat.succ_le_succ h.bounded
  stops {before after _} hlooks hshows := by
    cases before with
    | nil =>
      obtain rfl := (List.cons.inj hlooks).1
      exact absurd hshows hother
    | cons first before => exact h.stops (List.cons.inj hlooks).2 hshows
  exhausted hnone := by
    rw [shown_cons_iff hother] at hnone
    exact congrArg (· + 1) (h.exhausted hnone)

end

/-- Waiting for a state is a number of looks, which succeeds just if the last of them shows
it. -/
theorem poll_looks (h : Runs (poll slave target polls last) t (reached, last')) :
    ∃ looks, t = looks.map (look slave) ∧ last' = seen last t ∧ Polled target polls looks
      ∧ (reached = true ↔ Shown target looks) := by
  induction polls generalizing last t with
  | zero =>
    unfold poll at h
    obtain ⟨rfl, hr⟩ := runs_pure_iff.1 h
    cases hr
    exact ⟨[], rfl, rfl, polled_zero, by simp [not_shown_nil]⟩
  | succ polls ih =>
    unfold poll at h
    obtain ⟨answer, u, rfl, hrest⟩ := runs_request_bind_iff.1 h
    cases answer with
    | error fault =>
      obtain ⟨looks, rfl, hlast, hpolled, hreached⟩ := ih hrest
      have hother : ¬ Shows target (.error fault) := id
      exact ⟨.error fault :: looks, rfl, hlast, hpolled.cons hother,
        hreached.trans (shown_cons_iff hother).symm⟩
    | ok status =>
      dsimp only at hrest
      split at hrest
      next hshown =>
        have hshows : Shows target (.ok status) := hshown
        obtain ⟨rfl, hr⟩ := runs_pure_iff.1 hrest
        cases hr
        exact ⟨[.ok _], rfl, rfl, polled_shown hshows, fun _ => ⟨[], _, rfl, hshows⟩, fun _ => rfl⟩
      next hstate =>
        have hother : ¬ Shows target (.ok status) := hstate
        obtain ⟨looks, rfl, hlast, hpolled, hreached⟩ := ih hrest
        exact ⟨.ok status :: looks, rfl, hlast, hpolled.cons hother,
          hreached.trans (shown_cons_iff hother).symm⟩

-- ============================================================ the requests

/-- A request for a state, and the looks at the slave after it. -/
structure Asking where
  target : AlState
  answer : Except Fault Unit
  looks : List (Except Fault Status)

namespace Asking

def trace (slave : UInt16) (a : Asking) : Bus.interface.Trace :=
  ⟨.setState slave a.target, a.answer⟩ :: a.looks.map (look slave)

/-- The last look shows the state that was asked for. -/
def Reached (a : Asking) : Prop := Shown a.target a.looks

/-- A state is asked for, and the slave is looked at if it takes the request. -/
structure Of (target : AlState) (polls : Nat) (a : Asking) : Prop where
  asked : a.target = target
  refused {fault : Fault} : a.answer = .error fault → a.looks = []
  taken : a.answer = .ok () → Polled target polls a.looks

end Asking

/-- Asking for a state is one request, with looks behind it if it was taken. -/
theorem ask_asking (h : Runs (ask slave target polls last) t (reached, last')) :
    ∃ a : Asking, t = a.trace slave ∧ last' = seen last t ∧ a.Of target polls
      ∧ (reached = true ↔ a.Reached) := by
  unfold ask at h
  obtain ⟨answer, u, rfl, hrest⟩ := runs_request_bind_iff.1 h
  cases answer with
  | ok =>
    obtain ⟨looks, rfl, hlast, hpolled, hreached⟩ := poll_looks hrest
    exact ⟨⟨target, .ok (), looks⟩, rfl, hlast, ⟨rfl, nofun, fun _ => hpolled⟩, hreached⟩
  | error fault =>
    obtain ⟨rfl, hr⟩ := runs_pure_iff.1 hrest
    cases hr
    exact ⟨⟨target, .error fault, []⟩, rfl, rfl, ⟨rfl, fun _ => rfl, nofun⟩,
      by simp [Asking.Reached, not_shown_nil]⟩

/-- A slave that is led through the safe state: there, and on if it gets there. -/
structure Detour where
  safe : Asking
  further : Option Asking

namespace Detour

def trace (slave : UInt16) (d : Detour) : Bus.interface.Trace :=
  d.safe.trace slave ++ d.further.elim [] (Asking.trace slave)

def Reached (d : Detour) : Prop := ∃ a ∈ d.further, a.Reached

/-- Both states are polled for twice as often as usual. -/
structure Of (timing : Timing) (d : Detour) : Prop where
  safe : d.safe.Of .safeOperational (doubled timing.statePolls)
  further_iff : d.further.isSome ↔ d.safe.Reached
  further : ∀ a ∈ d.further, a.Of .operational (doubled timing.statePolls)

end Detour

/-- The detour asks for the safe state, and for operational if that was reached. -/
theorem escalate_detour (h : Runs (escalate timing slave last) t (reached, last')) :
    ∃ d : Detour, t = d.trace slave ∧ last' = seen last t ∧ d.Of timing
      ∧ (reached = true ↔ d.Reached) := by
  unfold escalate at h
  obtain ⟨u, ⟨safe, between⟩, v, rfl, hsafe, hrest⟩ := runs_bind_iff.1 h
  obtain ⟨a, rfl, rfl, ha, hreached⟩ := ask_asking hsafe
  cases safe with
  | true =>
    obtain ⟨b, rfl, hlast, hb, hthere⟩ := ask_asking hrest
    refine ⟨⟨a, some b⟩, rfl, hlast.trans seen_append.symm, ⟨ha, ?_, ?_⟩, ?_⟩
    · simpa using hreached
    · simpa using hb
    · simpa [Detour.Reached] using hthere
  | false =>
    obtain ⟨rfl, hr⟩ := runs_pure_iff.1 hrest
    cases hr
    refine ⟨⟨a, none⟩, rfl, by rw [List.append_nil], ⟨ha, ?_, by simp⟩, ?_⟩
    · simpa using hreached
    · simp [Detour.Reached]

-- ============================================================ the attempts

/-- One attempt to bring a slave to a state. -/
structure Attempt where
  direct : Asking
  detour : Option Detour

namespace Attempt

def trace (slave : UInt16) (a : Attempt) : Bus.interface.Trace :=
  ⟨.clearAl slave, ()⟩ :: (a.direct.trace slave ++ a.detour.elim [] (Detour.trace slave))

def Reached (a : Attempt) : Prop := a.direct.Reached ∨ ∃ d ∈ a.detour, d.Reached

/-- An attempt before which `last` was read last, and the detour was made if
`escalated`. -/
structure Of (timing : Timing) (slave : UInt16) (target : AlState) (escalated : Bool)
    (last : Status) (a : Attempt) : Prop where
  direct : a.direct.Of target timing.statePolls.toNat
  detour_iff : a.detour.isSome ↔ ¬ a.direct.Reached ∧ escalated = false
    ∧ target = .operational ∧ (seen last (a.direct.trace slave)).state = some .preOperational
  detour : ∀ d ∈ a.detour, d.Of timing

end Attempt

/-- One attempt is taken off a run: it is the last one if it gets the slave there. -/
theorem attempts_succ
    (h : Runs (attempts timing slave target (left + 1) escalated last) t (reached, last')) :
    ∃ (a : Attempt) (u : Bus.interface.Trace), t = a.trace slave ++ u
      ∧ a.Of timing slave target escalated last
      ∧ (a.Reached ∧ u = [] ∧ reached = true ∧ last' = seen last (a.trace slave)
        ∨ ¬ a.Reached ∧ Runs (attempts timing slave target left (escalated || a.detour.isSome)
          (seen last (a.trace slave))) u (reached, last')) := by
  unfold attempts at h
  obtain ⟨_, rest, rfl, hrest⟩ := runs_request_bind_iff.1 h
  obtain ⟨u, ⟨there, between⟩, v, rfl, hask, h⟩ := runs_bind_iff.1 hrest
  obtain ⟨direct, rfl, rfl, hdirect, hthere⟩ := ask_asking hask
  cases there with
  | true =>
    obtain ⟨rfl, hr⟩ := runs_pure_iff.1 h
    cases hr
    have hreached := hthere.1 rfl
    refine ⟨⟨direct, none⟩, [], ?_, ⟨hdirect, ?_, by simp⟩, .inl ⟨.inl hreached, rfl, rfl, ?_⟩⟩
    · simp [Attempt.trace]
    · simp [hreached]
    · simp only [Attempt.trace, Option.elim, List.append_nil]
      rfl
  | false =>
    have hmissed : ¬ direct.Reached := fun hreached => Bool.false_ne_true (hthere.2 hreached)
    dsimp only at h
    rw [if_neg Bool.false_ne_true] at h
    split at h
    next hstuck =>
      obtain ⟨hfirst, htarget, hstate⟩ := hstuck
      obtain ⟨w, ⟨through, after⟩, v, rfl, hescalate, h⟩ := runs_bind_iff.1 h
      obtain ⟨d, rfl, rfl, hd, hthrough⟩ := escalate_detour hescalate
      refine ⟨⟨direct, some d⟩, v, ?_, ⟨hdirect, ?_, ?_⟩, ?_⟩
      · simp [Attempt.trace]
      · simpa [hmissed, htarget, hstate] using hfirst
      · simpa using hd
      · have hseen : seen last ((⟨direct, some d⟩ : Attempt).trace slave)
            = seen (seen last (direct.trace slave)) (d.trace slave) := seen_append
        rw [hseen]
        cases through with
        | true =>
          obtain ⟨rfl, hr⟩ := runs_pure_iff.1 h
          cases hr
          exact .inl ⟨.inr ⟨d, rfl, hthrough.1 rfl⟩, rfl, rfl, rfl⟩
        | false =>
          refine .inr ⟨?_, ?_⟩
          · simpa [Attempt.Reached, hmissed] using hthrough
          · simpa using h
    next hgone =>
      refine ⟨⟨direct, none⟩, v, ?_, ⟨hdirect, ?_, by simp⟩, .inr ⟨?_, ?_⟩⟩
      · simp [Attempt.trace]
      · simpa [hmissed] using hgone
      · simpa [Attempt.Reached] using hmissed
      · simpa [Attempt.trace, seen] using h

-- ================================================================ the rows

/-- What the attempts of a row request. -/
def traceOf (slave : UInt16) (row : List Attempt) : Bus.interface.Trace :=
  row.flatMap (Attempt.trace slave)

/-- What an attempt does after earlier ones. -/
structure Attempt.Follows (timing : Timing) (slave : UInt16) (target : AlState)
    (earlier : List Attempt) (a : Attempt) : Prop where
  /-- It is made since no earlier one got the slave there. -/
  pending : ∀ b ∈ earlier, ¬ b.Reached
  direct : a.direct.Of target timing.statePolls.toNat
  /-- It makes the detour if no earlier one did, and the slave was last seen in
  pre-operational on its way to operational. -/
  detour_iff : a.detour.isSome ↔ ¬ a.direct.Reached ∧ (∀ b ∈ earlier, b.detour = none)
    ∧ target = .operational
    ∧ (shown (traceOf slave earlier ++ a.direct.trace slave)).state = some .preOperational
  detour : ∀ d ∈ a.detour, d.Of timing

/-- A row of attempts after earlier ones, of which at most so many are made. -/
structure Row (timing : Timing) (slave : UInt16) (target : AlState) (left : Nat)
    (earlier row : List Attempt) (reached : Bool) : Prop where
  follow : Always (Attempt.Follows timing slave target) earlier row
  bounded : row.length ≤ left
  reached_iff : reached = true ↔ ∃ before a, row = before ++ [a] ∧ a.Reached
  exhausted : reached = false → row.length = left

/-- What the program carries along is what the attempts before come to. -/
theorem Attempt.Of.follows {earlier : List Attempt} {a : Attempt}
    (h : a.Of timing slave target (earlier.any (·.detour.isSome)) (shown (traceOf slave earlier)))
    (hpending : ∀ b ∈ earlier, ¬ b.Reached) : a.Follows timing slave target earlier where
  pending := hpending
  direct := h.direct
  detour_iff := by
    have hseen : shown (traceOf slave earlier ++ a.direct.trace slave)
        = seen (shown (traceOf slave earlier)) (a.direct.trace slave) := seen_append
    rw [hseen]
    simpa using h.detour_iff
  detour := h.detour

/-- A run of attempts is a row that follows those made before. -/
theorem attempts_follow {earlier : List Attempt} (hpending : ∀ b ∈ earlier, ¬ b.Reached)
    (h : Runs (attempts timing slave target left (earlier.any (·.detour.isSome))
      (shown (traceOf slave earlier))) t (reached, last')) :
    ∃ row, t = traceOf slave row ∧ last' = shown (traceOf slave (earlier ++ row))
      ∧ Row timing slave target left earlier row reached := by
  induction left generalizing earlier t with
  | zero =>
    unfold attempts at h
    obtain ⟨rfl, hr⟩ := runs_pure_iff.1 h
    cases hr
    exact ⟨[], rfl, by rw [List.append_nil], ⟨always_nil, Nat.le_refl 0, by simp, fun _ => rfl⟩⟩
  | succ left ih =>
    obtain ⟨a, u, rfl, hof, hnext⟩ := attempts_succ h
    have hfollows := hof.follows hpending
    have hseen : seen (shown (traceOf slave earlier)) (a.trace slave)
        = shown (traceOf slave (earlier ++ [a])) := by
      simp [shown, traceOf, seen_append]
    rw [hseen] at hnext
    rcases hnext with ⟨hreached, rfl, rfl, hlast⟩ | ⟨hmissed, hrest⟩
    · refine ⟨[a], by simp [traceOf], hlast, ⟨⟨hfollows, always_nil⟩, ?_, ?_, ?_⟩⟩
      · exact Nat.le_add_left 1 left
      · exact ⟨fun _ => ⟨[], a, rfl, hreached⟩, fun _ => rfl⟩
      · exact fun hnone => absurd hnone.symm Bool.false_ne_true
    · have hpending' : ∀ b ∈ earlier ++ [a], ¬ b.Reached :=
        List.forall_mem_append.2 ⟨hpending, List.forall_mem_singleton.2 hmissed⟩
      have hany : (earlier.any (·.detour.isSome) || a.detour.isSome)
          = (earlier ++ [a]).any (·.detour.isSome) := by simp
      rw [hany] at hrest
      obtain ⟨row, rfl, hlast, hrow⟩ := ih hpending' hrest
      refine ⟨a :: row, rfl, by rwa [List.append_cons], ⟨⟨hfollows, hrow.follow⟩, ?_, ?_, ?_⟩⟩
      · exact Nat.succ_le_succ hrow.bounded
      · rw [hrow.reached_iff]
        constructor
        · rintro ⟨before, b, rfl, hb⟩
          exact ⟨a :: before, b, rfl, hb⟩
        · rintro ⟨before, b, hsplit, hb⟩
          cases before with
          | nil =>
            obtain rfl := (List.cons.inj hsplit).1
            exact absurd hb hmissed
          | cons first before => exact ⟨before, b, (List.cons.inj hsplit).2, hb⟩
      · exact fun hreached => congrArg (· + 1) (hrow.exhausted hreached)

/-- The detour is made once at most. -/
theorem countP_detour {earlier row : List Attempt}
    (h : Always (Attempt.Follows timing slave target) earlier row)
    (honce : earlier.countP (·.detour.isSome) ≤ 1) :
    (earlier ++ row).countP (·.detour.isSome) ≤ 1 := by
  induction row generalizing earlier with
  | nil => rwa [List.append_nil]
  | cons a row ih =>
    rw [List.append_cons]
    refine ih h.2 ?_
    rw [List.countP_append, List.countP_singleton]
    split
    next hdetour =>
      have hnone := (h.1.detour_iff.1 hdetour).2.1
      have hzero : earlier.countP (·.detour.isSome) = 0 :=
        List.countP_eq_zero.2 fun b hb => by simp [hnone b hb]
      omega
    next => exact honce

-- ============================================================== the end

/-- The last request looks at the slave, and the answer shows it in the target
state. -/
def EndsShowing (slave : UInt16) (target : AlState) (t : Bus.interface.Trace) : Prop :=
  ∃ before alStatus, t = before ++ [⟨.state slave, .ok ⟨some target, alStatus⟩⟩]

/-- How a trace ends does not hang on how it begins. -/
theorem EndsShowing.append (h : EndsShowing slave target t) :
    EndsShowing slave target (u ++ t) := by
  obtain ⟨before, alStatus, rfl⟩ := h
  exact ⟨u ++ before, alStatus, (List.append_assoc ..).symm⟩

theorem EndsShowing.cons {e : Bus.interface.Event} (h : EndsShowing slave target t) :
    EndsShowing slave target (e :: t) :=
  h.append (u := [e])

/-- Looks that show the target at last end with it. -/
theorem endsShowing_of_shown {looks : List (Except Fault Status)} (h : Shown target looks) :
    EndsShowing slave target (looks.map (look slave)) := by
  obtain ⟨before, answer, rfl, hshows⟩ := h
  cases answer with
  | error fault => exact hshows.elim
  | ok status =>
    obtain ⟨state, alStatus⟩ := status
    obtain rfl : state = some target := hshows
    exact ⟨before.map (look slave), alStatus, List.map_append⟩

/-- A request that reached its state ends with the look that showed it. -/
theorem Asking.Reached.ends {a : Asking} (h : a.Reached) :
    EndsShowing slave a.target (a.trace slave) :=
  (endsShowing_of_shown h).cons

/-- An attempt that gets the slave there ends where it is shown there. -/
theorem Attempt.Follows.ends {earlier : List Attempt} {a : Attempt}
    (h : a.Follows timing slave target earlier) (hreached : a.Reached) :
    EndsShowing slave target (a.trace slave) := by
  unfold Attempt.trace
  rcases hreached with hdirect | ⟨d, hd, b, hb, hfurther⟩
  · have hnone : a.detour = none := by
      cases hdetour : a.detour with
      | none => rfl
      | some d => exact absurd hdirect (h.detour_iff.1 (by rw [hdetour]; rfl)).1
    rw [hnone, ← h.direct.asked]
    show EndsShowing slave a.direct.target (_ :: (a.direct.trace slave ++ []))
    rw [List.append_nil]
    exact hdirect.ends.cons
  · -- the detour is only made on the way to operational
    have htarget : target = .operational := (h.detour_iff.1 (by rw [hd]; rfl)).2.2.1
    have hasked : b.target = .operational := ((h.detour d hd).further b hb).asked
    rw [hd, htarget, ← hasked]
    show EndsShowing slave b.target
      (_ :: (_ ++ (d.safe.trace slave ++ d.further.elim [] (Asking.trace slave))))
    rw [hb]
    exact hfurther.ends.append.append.cons

-- =============================================================== the runs

/-- What a run is a row of, and what it ends with. -/
theorem reach_row {r : Except Error Unit} (h : Runs (reach timing slave target) t r) :
    ∃ row reached, t = traceOf slave row
      ∧ Row timing slave target timing.stateAttempts.toNat [] row reached
      ∧ r = if reached then .ok () else
        .error ⟨slave, target, (shown t).state, (shown t).alStatus, timing.stateAttempts⟩ := by
  unfold reach at h
  obtain ⟨u, ⟨reached, last⟩, v, rfl, hattempts, hresult⟩ := runs_bind_iff.1 h
  obtain ⟨row, rfl, rfl, hrow⟩ :=
    attempts_follow (fun _ hb => absurd hb List.not_mem_nil) hattempts
  cases reached with
  | true =>
    obtain ⟨rfl, rfl⟩ := runs_pure_iff.1 hresult
    exact ⟨row, true, List.append_nil _, hrow, rfl⟩
  | false =>
    obtain ⟨rfl, rfl⟩ := runs_pure_iff.1 hresult
    rw [List.append_nil]
    exact ⟨row, false, rfl, hrow, rfl⟩

/-- A slave that reached a state shows it in the end. -/
theorem reach_ends (h : Runs (reach timing slave target) t (.ok ())) :
    EndsShowing slave target t := by
  obtain ⟨row, reached, rfl, hrow, hr⟩ := reach_row h
  cases reached with
  | false => cases hr
  | true =>
    obtain ⟨before, a, rfl, hreached⟩ := hrow.reached_iff.1 rfl
    unfold traceOf
    rw [List.flatMap_append, List.flatMap_singleton]
    exact (hrow.follow.at_split.ends hreached).append

/-- What a run that ends with `r` requests, and what it says of the slave. -/
structure Retries (timing : Timing) (slave : UInt16) (target : AlState) (row : List Attempt)
    (t : Bus.interface.Trace) (r : Except Error Unit) : Prop where
  requests : t = traceOf slave row
  bounded : row.length ≤ timing.stateAttempts.toNat
  follow : Always (Attempt.Follows timing slave target) [] row
  once : row.countP (·.detour.isSome) ≤ 1
  /-- The slave is there exactly if the last request was a look that shows it there, at
  the end of what an attempt asked for directly or of its whole detour. -/
  ok_iff : r = .ok () ↔ EndsShowing slave target t ∧ ∃ before a, row = before ++ [a] ∧ a.Reached
  /-- Otherwise no attempt is left, and the error has what was read last in any. -/
  failed {e : Error} : r = .error e → row.length = timing.stateAttempts.toNat
    ∧ e = ⟨slave, target, (shown t).state, (shown t).alStatus, timing.stateAttempts⟩

/-- Whatever the bus answers, a slave is asked for a state in a row of attempts. -/
theorem reach_attempts {r : Except Error Unit} (h : Runs (reach timing slave target) t r) :
    ∃ row, Retries timing slave target row t r := by
  have hends : r = .ok () → EndsShowing slave target t := fun hr => reach_ends (hr ▸ h)
  obtain ⟨row, reached, rfl, hrow, rfl⟩ := reach_row h
  refine ⟨row, rfl, hrow.bounded, hrow.follow, countP_detour hrow.follow (by decide), ?_, ?_⟩
  · constructor
    · intro hr
      refine ⟨hends hr, hrow.reached_iff.1 ?_⟩
      cases reached with
      | true => rfl
      | false => cases hr
    · intro hthere
      rw [hrow.reached_iff.2 hthere.2]
      rfl
  · intro e he
    cases reached with
    | true => cases he
    | false =>
      cases he
      exact ⟨hrow.exhausted rfl, rfl⟩

/-- A slave stays in pre-operational and refuses the safe state; it does not answer any
more when it is looked at for the second time. -/
def stuckTrace : Bus.interface.Trace :=
  [⟨.clearAl 1, ()⟩, ⟨.setState 1 .operational, .ok ()⟩,
   ⟨.state 1, .ok ⟨some .preOperational, ⟨0x1d⟩⟩⟩,
   ⟨.setState 1 .safeOperational, .error (.slaveError 1)⟩,
   ⟨.clearAl 1, ()⟩, ⟨.setState 1 .operational, .ok ()⟩,
   ⟨.state 1, .error (.timeout "no reply")⟩]

/-- The error has the status of the first attempt, and the second one makes no detour. -/
theorem reach_attempts_stuck :
    Runs (reach { stateAttempts := 2, statePolls := 1 } 1 .operational) stuckTrace
        (.error ⟨1, .operational, some .preOperational, ⟨0x1d⟩, 2⟩)
      ∧ ∃ row, Retries { stateAttempts := 2, statePolls := 1 } 1 .operational row stuckTrace
        (.error ⟨1, .operational, some .preOperational, ⟨0x1d⟩, 2⟩) := by
  have hruns : Runs (reach { stateAttempts := 2, statePolls := 1 } 1 .operational) stuckTrace
      (.error ⟨1, .operational, some .preOperational, ⟨0x1d⟩, 2⟩) := Runs.of_replay rfl
  exact ⟨hruns, reach_attempts hruns⟩

end Servo.StateControl
