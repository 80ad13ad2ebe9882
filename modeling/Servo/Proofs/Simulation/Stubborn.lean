/-
A drive that stays pre-operational, and how it is brought to operation.

A simulated slave can be told to ignore a number of requests for operational. Which of the
requests are answered how then hangs on that slave alone, and the segment adds each of them
to its log. So a run is followed through the segments where the slave is as it has become,
and where so much was asked of it (`Segment.Hears`): one lemma per request, from them one
for asking for a state and one for the way through the safe state, whether the slave goes
there or not.

# The requests left

Once the way through the safe state was tried, an attempt is one request for operational,
and uses up one of those that the slave ignores. By induction on the attempts left, the
slave gets there if they outnumber the requests that it goes on to ignore
(`hears_attempts_led`). The first attempt is another one: if the slave ignores it, it is
asked for the safe state, right after. A slave that goes there has nothing to ignore any
more, so that is the end of it; one that does not has one attempt less (`reach_stubborn`).
-/
import Servo.Proofs.Simulation.Mailbox

namespace Servo

open Simulation (Segment Slave)
open Simulation.Segment (Leads leads_pure)

-- =============================================================== slaves

namespace Simulation.Slave

variable {s : Slave} {target : AlState} {ignored : Nat}

/-- A slave in pre-operational does not refuse to be operational, but ignores so many
requests for it. -/
structure Stubborn (s : Slave) (ignored : Nat) : Prop where
  al : s.al = .preOperational
  willing : s.refused.lookup .operational = none
  ignores : s.stuckInPreop.toNat = ignored

theorem request_refused {status : AlStatus} (hrefused : s.refused.lookup target = some status) :
    s.request true target = (.ok (), { s with alStatus := status }) := by
  unfold request
  rw [hrefused]

theorem request_taken (hwilling : s.refused.lookup target = none) (hproper : target ≠ .bootstrap)
    (hfree : ¬ (target = .operational ∧ s.al = .preOperational ∧ s.stuckInPreop ≠ 0)) :
    s.request true target = (.ok (), { s with al := target }) := by
  unfold request
  rw [hwilling]
  dsimp only
  rw [if_neg hfree, if_neg (fun h => Bool.false_ne_true h.2), if_neg hproper]

/-- What is kept of a slave when it forgets its last refusal. -/
theorem Stubborn.quiet (h : s.Stubborn ignored) :
    { s with alStatus := .noError }.Stubborn ignored := { h with }

theorem Stubborn.request_last (h : s.Stubborn 0) :
    s.request true .operational = (.ok (), { s with al := .operational }) := by
  have hnone : s.stuckInPreop = 0 := UInt32.toNat_inj.1 h.ignores
  exact request_taken h.willing (by decide) fun hstuck => hstuck.2.2 hnone

/-- Of the requests that are ignored each one uses up one. -/
theorem Stubborn.request_ignored (h : s.Stubborn (ignored + 1)) :
    ∃ s', s.request true .operational = (.ok (), s') ∧ s'.Stubborn ignored
      ∧ s'.refused = s.refused := by
  have hstuck : s.stuckInPreop ≠ 0 := by
    intro hnone
    have hignores := h.ignores
    rw [hnone] at hignores
    exact Nat.succ_ne_zero ignored hignores.symm
  have hone : (1 : UInt32) ≤ s.stuckInPreop := by
    rw [UInt32.le_iff_toNat_le, h.ignores]
    exact Nat.le_add_left 1 ignored
  refine ⟨{ s with stuckInPreop := s.stuckInPreop - 1, alStatus := ⟨0x0011⟩ }, ?_,
    ⟨h.al, h.willing, ?_⟩, rfl⟩
  · unfold request
    rw [h.willing]
    dsimp only
    rw [if_pos ⟨rfl, h.al, hstuck⟩]
  · show (s.stuckInPreop - 1).toNat = ignored
    rw [UInt32.toNat_sub_of_le _ _ hone, h.ignores]
    exact Nat.add_sub_cancel ignored 1

end Simulation.Slave

-- ============================================================ requests

namespace Simulation.Segment

/-- With its process image laid out, a segment has this slave, and after what was asked
before these states were asked of it. -/
structure Hears (before : List (UInt16 × AlState)) (k : UInt16) (s : Slave)
    (asked : List AlState) (g : Segment) : Prop where
  find : g.find k = .ok s
  mapped : g.mapped = true
  log : g.stateRequests = before ++ asked.map (k, ·)

end Simulation.Segment

namespace StateControl

open Simulation.Segment (Hears)

variable {before : List (UInt16 × AlState)} {k : UInt16} {s s' : Slave} {asked : List AlState}
  {target : AlState} {timing : Timing} {polls left ignored : Nat} {last : Bus.Status}

theorem hears_clearAl :
    Leads (Hears before k s asked) (Bus.clearAl k) ()
      (Hears before k { s with alStatus := .noError } asked) := by
  intro g hg
  have hanswer : g.clearAl k = g.setSlave k { s with alStatus := .noError } := by
    unfold Segment.clearAl
    rw [hg.find]
  refine ⟨_, Segment.ends_perform (congrArg (Prod.mk ()) hanswer), ?_⟩
  exact ⟨Segment.find_setSlave_self hg.find _, hg.mapped, hg.log⟩

theorem hears_state :
    Leads (Hears before k s asked) (Bus.state k) (.ok ⟨some s.al, s.alStatus⟩)
      (Hears before k s asked) := by
  intro g hg
  have hanswer : g.state k = .ok ⟨some s.al, s.alStatus⟩ := by
    unfold Segment.state
    rw [hg.find]
    rfl
  exact ⟨g, Segment.ends_perform (Prod.ext hanswer rfl), hg⟩

theorem hears_setState (hrequest : s.request true target = (.ok (), s')) :
    Leads (Hears before k s asked) (Bus.setState k target) (.ok ())
      (Hears before k s' (asked ++ [target])) := by
  intro g hg
  let logged : Segment := { g with stateRequests := g.stateRequests ++ [(k, target)] }
  have hfind : logged.find k = .ok s := hg.find
  have hanswer : g.setState k target = (.ok (), logged.setSlave k s') := by
    rw [← hg.mapped] at hrequest
    unfold Segment.setState
    dsimp only
    rw [hfind]
    dsimp only
    rw [hrequest]
  have hlog : logged.stateRequests = before ++ (asked ++ [target]).map (k, ·) := by
    show g.stateRequests ++ [(k, target)] = _
    rw [hg.log, List.map_append, List.append_assoc]
    rfl
  exact ⟨_, Segment.ends_perform hanswer, Segment.find_setSlave_self hfind _, hg.mapped, hlog⟩

-- =============================================================== asking

/-- However often a slave is looked at, it is as it is. -/
theorem hears_poll (hpolls : polls ≠ 0) :
    Leads (Hears before k s asked) (poll k target polls last)
      (decide (s.al = target), ⟨some s.al, s.alStatus⟩) (Hears before k s asked) := by
  induction polls generalizing last with
  | zero => exact absurd rfl hpolls
  | succ polls ih =>
    unfold poll
    refine hears_state.bind ?_
    dsimp only
    by_cases hthere : s.al = target
    · rw [if_pos (congrArg some hthere), decide_eq_true hthere]
      exact leads_pure _
    · rw [if_neg fun h => hthere (Option.some.inj h)]
      cases polls with
      | zero =>
        rw [decide_eq_false hthere]
        exact leads_pure _
      | succ polls => exact ih (Nat.succ_ne_zero polls)

/-- A slave shows what the request made of it. -/
theorem hears_ask {al : AlState} (hpolls : polls ≠ 0)
    (hrequest : s.request true target = (.ok (), s')) (hal : s'.al = al) :
    Leads (Hears before k s asked) (ask k target polls last)
      (decide (al = target), ⟨some al, s'.alStatus⟩)
      (Hears before k s' (asked ++ [target])) := by
  subst hal
  unfold ask
  exact (hears_setState hrequest).bind (hears_poll hpolls)

theorem doubled_ne_zero {polls : UInt32} (h : polls.toNat ≠ 0) : doubled polls ≠ 0 := by
  have hsize : UInt32.size = 4294967296 := rfl
  unfold doubled
  omega

section

variable (before k asked left last) (hpolls : timing.statePolls.toNat ≠ 0)
include hpolls

/-- Asked for the safe state in between, a slave has nothing to ignore any more. -/
theorem hears_escalate (hwilling : s.refused.lookup .operational = none)
    (hsafe : s.refused.lookup .safeOperational = none) :
    ∃ (s' : Slave) (last' : Bus.Status),
      Leads (Hears before k s asked) (escalate timing k last) (true, last')
        (Hears before k s' (asked ++ [.safeOperational] ++ [.operational])) := by
  have hdoubled := doubled_ne_zero hpolls
  have hfirst : s.request true .safeOperational = (.ok (), { s with al := .safeOperational }) :=
    Slave.request_taken hsafe (by decide) nofun
  have hthen : { s with al := .safeOperational }.request true .operational
      = (.ok (), { s with al := .operational }) :=
    Slave.request_taken hwilling (by decide) nofun
  unfold escalate
  exact ⟨_, _, (hears_ask hdoubled hfirst rfl).bind (hears_ask hdoubled hthen rfl)⟩

/-- A slave that refuses the safe state stays as it is, and is asked for nothing else then. -/
theorem hears_escalate_refused (hs : s.Stubborn ignored)
    (hsafe : s.refused.lookup .safeOperational ≠ none) :
    ∃ (s' : Slave) (status : AlStatus), s'.Stubborn ignored
      ∧ Leads (Hears before k s asked) (escalate timing k last)
          (false, ⟨some .preOperational, status⟩)
          (Hears before k s' (asked ++ [.safeOperational])) := by
  obtain ⟨status, hrefused⟩ := Option.ne_none_iff_exists'.1 hsafe
  have hstays : { s with alStatus := status }.Stubborn ignored := { hs with }
  unfold escalate
  exact ⟨_, _, hstays, (hears_ask (doubled_ne_zero hpolls) (Slave.request_refused hrefused)
    hstays.al).bind (leads_pure _)⟩

-- ============================================================= attempts

/-- A slave that has nothing to ignore is there after one request. -/
theorem hears_attempts_last (escalated : Bool) (hs : s.Stubborn 0) :
    ∃ (s' : Slave) (last' : Bus.Status),
      Leads (Hears before k s asked) (attempts timing k .operational (left + 1) escalated last)
        (true, last') (Hears before k s' (asked ++ [.operational])) := by
  unfold attempts
  exact ⟨_, _, hears_clearAl.bind
    ((hears_ask hpolls hs.quiet.request_last rfl).bind (leads_pure _))⟩

/-- A request that is ignored: the slave is asked, and is where it was. -/
theorem hears_ask_ignored (hs : s.Stubborn (ignored + 1)) :
    ∃ (s' : Slave) (status : AlStatus), s'.Stubborn ignored ∧ s'.refused = s.refused
      ∧ Leads (Hears before k { s with alStatus := .noError } asked)
          (ask k .operational timing.statePolls.toNat last)
          (false, ⟨some .preOperational, status⟩)
          (Hears before k s' (asked ++ [.operational])) := by
  obtain ⟨s', hrequest, hs', hsame⟩ := hs.quiet.request_ignored
  exact ⟨s', _, hs', hsame, hears_ask hpolls hrequest hs'.al⟩

/-- After the safe state was tried, each attempt is one request, and one that is ignored
less. -/
theorem hears_attempts_led (hs : s.Stubborn ignored) (hlast : last.state = some .preOperational) :
    ∃ (s' : Slave) (last' : Bus.Status),
      Leads (Hears before k s asked) (attempts timing k .operational left true last)
        (decide (ignored < left), last')
        (Hears before k s' (asked ++ List.replicate (min (ignored + 1) left) .operational))
      ∧ (left ≤ ignored → last'.state = some .preOperational) := by
  induction left generalizing s ignored asked last with
  | zero =>
    refine ⟨s, last, ?_, fun _ => hlast⟩
    rw [Nat.min_zero, List.replicate_zero, List.append_nil]
    exact leads_pure _
  | succ left ih =>
    cases ignored with
    | zero =>
      obtain ⟨s', last', hled⟩ := hears_attempts_last before k asked left last hpolls true hs
      have hmin : min (0 + 1) (left + 1) = 1 := by omega
      rw [hmin]
      exact ⟨s', last', hled, fun hle => absurd hle (by omega)⟩
    | succ ignored =>
      obtain ⟨t, status, ht, -, hask⟩ := hears_ask_ignored before k asked last hpolls hs
      obtain ⟨s', last', hled, hstuck⟩ :=
        ih (asked ++ [.operational]) ⟨some .preOperational, status⟩ ht rfl
      have hmin : min (ignored + 1 + 1) (left + 1) = min (ignored + 1) left + 1 := by omega
      have hcount : decide (ignored + 1 < left + 1) = decide (ignored < left) := by simp
      refine ⟨s', last', ?_, fun hle => hstuck (by omega)⟩
      rw [hmin, hcount, List.replicate_succ, List.append_cons]
      unfold attempts
      exact hears_clearAl.bind (hask.bind hled)

/-- The attempts of a slave that goes to the safe state: it is led there if it ignores the
first request, and how many more it would have ignored makes no difference. -/
theorem hears_attempts_safe (hs : s.Stubborn ignored)
    (hsafe : s.refused.lookup .safeOperational = none) :
    ∃ (s' : Slave) (last' : Bus.Status),
      Leads (Hears before k s []) (attempts timing k .operational (left + 1) false last)
        (true, last')
        (Hears before k s' (if ignored = 0 then [.operational]
          else [.operational, .safeOperational, .operational])) := by
  cases ignored with
  | zero => exact hears_attempts_last before k [] left last hpolls false hs
  | succ ignored =>
    obtain ⟨t, status, ht, hsame, hask⟩ := hears_ask_ignored before k [] last hpolls hs
    obtain ⟨s', last', hled⟩ := hears_escalate before k [.operational]
      ⟨some .preOperational, status⟩ hpolls ht.willing (hsame ▸ hsafe)
    rw [if_neg (Nat.succ_ne_zero ignored)]
    unfold attempts
    exact ⟨s', last', hears_clearAl.bind (hask.bind (hled.bind (leads_pure _)))⟩

/-- The attempts of a slave that refuses the safe state: it is asked for it once, after the
first request that it ignores, and there have to be more attempts than it ignores requests. -/
theorem hears_attempts_refused (hs : s.Stubborn ignored)
    (hsafe : s.refused.lookup .safeOperational ≠ none) :
    ∃ (s' : Slave) (last' : Bus.Status),
      Leads (Hears before k s []) (attempts timing k .operational (left + 1) false last)
        (decide (ignored < left + 1), last')
        (Hears before k s' (.operational :: (List.replicate (min ignored 1) .safeOperational
          ++ List.replicate (min (ignored + 1) (left + 1) - 1) .operational)))
      ∧ (left + 1 ≤ ignored → last'.state = some .preOperational) := by
  cases ignored with
  | zero =>
    obtain ⟨s', last', hled⟩ := hears_attempts_last before k [] left last hpolls false hs
    have hmin : min (0 + 1) (left + 1) - 1 = 0 := by omega
    rw [hmin]
    exact ⟨s', last', hled, fun hle => absurd hle (by omega)⟩
  | succ ignored =>
    obtain ⟨t, status, ht, hsame, hask⟩ := hears_ask_ignored before k [] last hpolls hs
    obtain ⟨u, code, hu, hescalate⟩ := hears_escalate_refused before k [.operational]
      ⟨some .preOperational, status⟩ hpolls ht (hsame ▸ hsafe)
    obtain ⟨s', last', hled, hstuck⟩ := hears_attempts_led before k
      [.operational, .safeOperational] left ⟨some .preOperational, code⟩ hpolls hu rfl
    have hmin : min (ignored + 1 + 1) (left + 1) - 1 = min (ignored + 1) left := by omega
    have honce : min (ignored + 1) 1 = 1 := by omega
    have hcount : decide (ignored + 1 < left + 1) = decide (ignored < left) := by simp
    refine ⟨s', last', ?_, fun hle => hstuck (by omega)⟩
    rw [hmin, honce, hcount]
    unfold attempts
    exact hears_clearAl.bind (hask.bind (hescalate.bind hled))

end

-- ============================================================== the run

/-- A slave in pre-operational that ignores requests for operational, on a segment whose
process image is laid out. If it goes to the safe state, it gets to operation, and is led
there if it ignores anything. If it refuses the safe state, it gets to operation if there
are more attempts than it ignores requests: it is asked for the safe state once at most,
right after the first request, and the error shows it in pre-operational. -/
theorem reach_stubborn {g : Segment} (hslave : g.find k = .ok s) (hmapped : g.mapped = true)
    (hal : s.al = .preOperational) (hwilling : s.refused.lookup .operational = none)
    (hattempts : timing.stateAttempts ≠ 0) (hpolls : timing.statePolls ≠ 0) :
    ∃ (r : Except Error Unit) (g' : Segment) (asked : List AlState),
      g.Ends (reach timing k .operational) r g'
        ∧ g'.stateRequests = g.stateRequests ++ asked.map (k, ·)
        ∧ (s.refused.lookup .safeOperational = none → r = .ok ()
          ∧ asked = if s.stuckInPreop = 0 then [.operational]
              else [.operational, .safeOperational, .operational])
        ∧ (s.refused.lookup .safeOperational ≠ none →
          (r = .ok () ↔ s.stuckInPreop.toNat < timing.stateAttempts.toNat)
          ∧ asked = .operational ::
              (List.replicate (min s.stuckInPreop.toNat 1) .safeOperational
                ++ List.replicate
                    (min (s.stuckInPreop.toNat + 1) timing.stateAttempts.toNat - 1) .operational)
          ∧ ∀ e, r = .error e → e.observed = some .preOperational) := by
  have hs : s.Stubborn s.stuckInPreop.toNat := ⟨hal, hwilling, rfl⟩
  have hears : Hears g.stateRequests k s [] g := ⟨hslave, hmapped, (List.append_nil _).symm⟩
  obtain ⟨left, hleft⟩ : ∃ left, timing.stateAttempts.toNat = left + 1 :=
    Nat.exists_eq_succ_of_ne_zero fun h => hattempts (UInt32.toNat_inj.1 h)
  have hpolled : timing.statePolls.toNat ≠ 0 := fun h => hpolls (UInt32.toNat_inj.1 h)
  unfold reach
  rw [hleft]
  by_cases hsafe : s.refused.lookup .safeOperational = none
  · obtain ⟨s', last', hled⟩ := hears_attempts_safe g.stateRequests k left ⟨none, .noError⟩
      hpolled hs hsafe
    obtain ⟨g', hends, hg'⟩ := hled g hears
    refine ⟨.ok (), g', _, hends.bind (Segment.ends_pure _), hg'.log, fun _ => ⟨rfl, ?_⟩,
      fun h => absurd hsafe h⟩
    have hzero : s.stuckInPreop.toNat = 0 ↔ s.stuckInPreop = 0 :=
      ⟨fun h => UInt32.toNat_inj.1 h, congrArg UInt32.toNat⟩
    simp only [hzero]
  · obtain ⟨s', last', hled, hstuck⟩ := hears_attempts_refused g.stateRequests k left
      ⟨none, .noError⟩ hpolled hs hsafe
    obtain ⟨g', hends, hg'⟩ := hled g hears
    by_cases henough : s.stuckInPreop.toNat < left + 1
    · rw [decide_eq_true henough] at hends
      refine ⟨.ok (), g', _, hends.bind (Segment.ends_pure _), hg'.log,
        fun h => absurd h hsafe, fun _ => ?_⟩
      exact ⟨⟨fun _ => henough, fun _ => rfl⟩, rfl, nofun⟩
    · rw [decide_eq_false henough] at hends
      refine ⟨.error _, g', _, hends.bind (Segment.ends_pure _), hg'.log,
        fun h => absurd h hsafe, fun _ => ?_⟩
      refine ⟨⟨nofun, fun h => absurd h henough⟩, rfl, fun e he => ?_⟩
      cases he
      exact hstuck (by omega)

/-- A slave that ignores three requests, and refuses the safe state. -/
def stuckSlave : Slave where
  al := .preOperational
  refused := [(.safeOperational, ⟨0x0023⟩)]
  stuckInPreop := 3

/-- It is the second one of two. -/
def stuckSegment : Segment where
  slaves := [{}, stuckSlave]
  isOpen := true
  discovered := true
  mapped := true
  stateRequests := [(2, .preOperational)]

/-- Two attempts, each with one look. -/
def briefTiming : Timing where
  stateAttempts := 2
  statePolls := 1

/-- With two attempts it does not get to operation; the safe state is asked for once. -/
theorem reach_stubborn_stuck :
    ∃ (r : Except Error Unit) (g' : Segment),
      stuckSegment.Ends (reach briefTiming 2 .operational) r g'
        ∧ g'.stateRequests = [(2, .preOperational), (2, .operational), (2, .safeOperational),
            (2, .operational)]
        ∧ r ≠ .ok () ∧ ∀ e, r = .error e → e.observed = some .preOperational := by
  have hslave : stuckSegment.find 2 = .ok stuckSlave := rfl
  have hattempts : briefTiming.stateAttempts ≠ 0 := by decide
  have hpolls : briefTiming.statePolls ≠ 0 := by decide
  obtain ⟨r, g', asked, hends, hlog, -, hrefused⟩ :=
    reach_stubborn hslave rfl rfl rfl hattempts hpolls
  obtain ⟨hreached, rfl, herror⟩ := hrefused (by decide)
  exact ⟨r, g', hends, hlog, fun hr => absurd (hreached.1 hr) (by decide), herror⟩

end StateControl

end Servo
