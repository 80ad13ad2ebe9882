/-
What a simulated segment answers once its bus was closed.

Four flags say what a segment can be asked for, and a request changes them by what they
are alone (`Flags.next`, `flags_answer`). Closing takes the interface and the image away,
for good as far as the interface goes: nothing opens it again, and so nothing is found any
more. A segment whose slaves were not found by then is dead (`Dead`): every request that can
be carried out fails, and no slave changes.

# Use after close

What was found stays found, though. A closed segment with slaves that were found answers
transactions and requests for states as before, and lays out its image and exchanges again:
it is not dead. Whether slaves were found is in the requests before the close, as a search
that was carried out (`dead_iff`).
-/
import Servo.Proofs.Simulation.Counter
import Servo.Proofs.Simulation.Negotiated

namespace Servo

open Program

/-- A request to use the bus was carried out. -/
def Bus.CarriedOut : Bus.interface.Event → Prop
  | ⟨.init _, .ok _⟩ | ⟨.discover, .ok _⟩ | ⟨.map, .ok _⟩ | ⟨.setState _ _, .ok _⟩
  | ⟨.exchange, .ok _⟩ | ⟨.sdoRead _ _ _, .ok _⟩ | ⟨.sdoWrite _ _ _, .ok _⟩ => True
  | _ => False

namespace Simulation

open Bus (CarriedOut)

-- =============================================================== flags

/-- What a segment can be asked for hangs on these. -/
structure Flags where
  isOpen : Bool
  discovered : Bool
  mapped : Bool
  closed : Bool
deriving DecidableEq

/-- The flags after a request. -/
def Flags.next (f : Flags) : Bus.Request → Flags
  | .init _ => { f with isOpen := f.isOpen || !f.closed }
  | .discover => { f with discovered := f.discovered || f.isOpen }
  | .map => { f with mapped := f.mapped || f.discovered }
  | .close => { f with isOpen := false, mapped := false, closed := true }
  | _ => f

/-- No request is carried out, and none will be. -/
def Flags.dead : Flags := ⟨false, false, false, true⟩

theorem Flags.next_dead (r : Bus.Request) : Flags.dead.next r = .dead := by
  cases r <;> rfl

/-- Nothing opens a closed segment. -/
theorem Flags.next_closed {f : Flags} (h : f.closed = true ∧ f.isOpen = false) (r : Bus.Request) :
    (f.next r).closed = true ∧ (f.next r).isOpen = false := by
  obtain ⟨hclosed, hopen⟩ := h
  cases r with
  | init name => simp [next, hclosed, hopen]
  | close => exact ⟨rfl, rfl⟩
  | _ => exact ⟨hclosed, hopen⟩

namespace Segment

variable {g : Segment} {t : Bus.interface.Trace} {r : Bus.Request}

def flags (g : Segment) : Flags := ⟨g.isOpen, g.discovered, g.mapped, g.closed⟩

/-- What shows of the slaves of a segment: their states, their dictionaries and their drives. -/
def shown (g : Segment) : List (AlState × Dictionary × Drive.State) :=
  g.slaves.map fun s => (s.al, s.dictionary, s.drive)

/-- A request changes the flags by what they are. -/
theorem flags_answer (r : Bus.Request) (g : Segment) :
    (answer r g).2.flags = g.flags.next r := by
  cases r with
  | clocks | state | outputs | inputs | close => rfl
  | init name =>
    show g.init.2.flags = _
    unfold init
    cases hclosed : g.closed <;> simp [flags, Flags.next, hclosed]
  | discover =>
    show g.discover.2.flags = _
    unfold discover
    cases hopen : g.isOpen <;> simp [flags, Flags.next, hopen]
  | map =>
    show g.map.2.flags = _
    unfold map
    cases hdiscovered : g.discovered <;> simp [flags, Flags.next, hdiscovered]
  | setState slave target =>
    show (g.setState slave target).2.flags = _
    unfold setState
    dsimp only
    split <;> rfl
  | clearAl slave =>
    show (g.clearAl slave).flags = _
    unfold clearAl
    split <;> rfl
  | exchange =>
    show g.exchange.2.flags = _
    unfold exchange
    split
    next => rfl
    next =>
      dsimp only
      split <;> rfl
  | sdoRead slave a capacity =>
    show (g.sdoRead slave a capacity).2.flags = _
    unfold sdoRead
    split <;> rfl
  | sdoWrite slave a data =>
    show (g.sdoWrite slave a data).2.flags = _
    unfold sdoWrite
    dsimp only
    split
    next => rfl
    next => split <;> rfl
  | setOutputs slave bytes =>
    show (g.setOutputs slave bytes).flags = _
    unfold setOutputs
    split <;> rfl

theorem exchange_ok (h : g.mapped = true) : ∃ wkc g', answer .exchange g = (.ok wkc, g') := by
  show ∃ wkc g', g.exchange = (.ok wkc, g')
  unfold exchange
  rw [if_neg (by simp [h])]
  dsimp only
  split <;> exact ⟨_, _, rfl⟩

-- ================================================================ traces

/-- The flags after a trace. -/
theorem flags_stateAfter {P : Flags → Prop} (hkept : ∀ f r, P f → P (f.next r))
    (h : P g.flags) (t : Bus.interface.Trace) : P (stateAfter answer g t).flags := by
  induction t generalizing g with
  | nil => exact h
  | cons e t ih =>
    refine ih ?_
    rw [flags_answer]
    exact hkept _ _ h

/-- An interface is opened, and slaves are found, as the flags let. -/
theorem carriedOut_init {name : String} :
    CarriedOut ⟨.init name, (answer (.init name) g).1⟩ ↔ g.closed = false := by
  show CarriedOut ⟨.init name, g.init.1⟩ ↔ _
  unfold init
  cases g.closed <;> simp [CarriedOut]

theorem carriedOut_discover :
    CarriedOut ⟨.discover, (answer .discover g).1⟩ ↔ g.isOpen = true := by
  show CarriedOut ⟨.discover, g.discover.1⟩ ↔ _
  unfold discover
  cases g.isOpen <;> simp [CarriedOut]

/-- Slaves are found by a search that is carried out, and stay so. -/
theorem discovered_stateAfter (h : AnsweredBy answer g t) :
    (stateAfter answer g t).discovered = true
      ↔ g.discovered = true ∨ ∃ n, ⟨.discover, .ok n⟩ ∈ t := by
  induction t generalizing g with
  | nil => simp [stateAfter]
  | cons e t ih =>
    obtain ⟨he, hrest⟩ := h
    obtain ⟨r, a⟩ := e
    change (answer r g).1 = a at he
    have hnext : (answer r g).2.discovered = (g.flags.next r).discovered := by
      rw [← flags_answer]
      rfl
    have hfirst : (answer r g).2.discovered = true ↔ g.discovered = true
        ∨ ∃ n, (⟨.discover, .ok n⟩ : Bus.interface.Event) = ⟨r, a⟩ := by
      rw [hnext]
      cases r with
      | discover =>
        have hsearch := carriedOut_discover (g := g)
        rw [he] at hsearch
        cases a <;> simp_all [Flags.next, flags, CarriedOut]
      | _ => simp [Flags.next, flags]
    show (stateAfter answer (answer r g).2 t).discovered = true ↔ _
    rw [ih hrest, hfirst]
    simp only [List.mem_cons, exists_or, or_assoc]

-- ================================================================ death

/-- Whatever is asked for from here on, nothing is carried out and no slave changes. -/
def Dead (g : Segment) : Prop :=
  ∀ t : Bus.interface.Trace, AnsweredBy answer g t →
    (∀ e ∈ t, ¬ CarriedOut e) ∧ (stateAfter answer g t).shown = g.shown

theorem answer_dead (h : g.flags = .dead) (r : Bus.Request) :
    ¬ CarriedOut ⟨r, (answer r g).1⟩ ∧ (answer r g).2.shown = g.shown := by
  obtain ⟨hopen, hdiscovered, hmapped, hclosed⟩ := Flags.mk.inj h
  have hnone (g' : Segment) (h : g'.discovered = false) := find_undiscovered h
  cases r with
  | clocks | state | outputs | inputs | close => exact ⟨id, rfl⟩
  | init name =>
    refine ⟨fun hdone => ?_, ?_⟩
    · cases (carriedOut_init.1 hdone).symm.trans hclosed
    · show g.init.2.shown = _
      unfold init
      split <;> rfl
  | discover =>
    refine ⟨fun hdone => ?_, ?_⟩
    · cases (carriedOut_discover.1 hdone).symm.trans hopen
    · show g.discover.2.shown = _
      unfold discover
      split <;> rfl
  | map =>
    show ¬ CarriedOut ⟨.map, g.map.1⟩ ∧ g.map.2.shown = _
    unfold map
    rw [hdiscovered]
    exact ⟨id, rfl⟩
  | setState slave target =>
    show ¬ CarriedOut ⟨.setState slave target, (g.setState slave target).1⟩
      ∧ (g.setState slave target).2.shown = _
    unfold setState
    dsimp only
    split
    next => exact ⟨id, rfl⟩
    next s hfound => cases hfound.symm.trans (hnone _ hdiscovered slave)
  | clearAl slave =>
    show _ ∧ (g.clearAl slave).shown = _
    unfold clearAl
    rw [hnone g hdiscovered]
    exact ⟨id, rfl⟩
  | exchange =>
    show ¬ CarriedOut ⟨.exchange, g.exchange.1⟩ ∧ g.exchange.2.shown = _
    unfold exchange
    rw [hmapped]
    exact ⟨id, rfl⟩
  | sdoRead slave a capacity =>
    show ¬ CarriedOut ⟨.sdoRead slave a capacity, (g.sdoRead slave a capacity).1⟩
      ∧ (g.sdoRead slave a capacity).2.shown = _
    unfold sdoRead
    rw [hnone g hdiscovered]
    exact ⟨id, rfl⟩
  | sdoWrite slave a data =>
    show ¬ CarriedOut ⟨.sdoWrite slave a data, (g.sdoWrite slave a data).1⟩
      ∧ (g.sdoWrite slave a data).2.shown = _
    unfold sdoWrite
    dsimp only
    split
    next => exact ⟨id, rfl⟩
    next =>
      split
      next => exact ⟨id, rfl⟩
      next s hfound => cases hfound.symm.trans (hnone _ hdiscovered slave)
  | setOutputs slave bytes =>
    show _ ∧ (g.setOutputs slave bytes).shown = _
    refine ⟨id, ?_⟩
    unfold setOutputs
    split
    next => rfl
    next s hslave => exact map_setSlave hslave rfl

theorem dead_of_flags (h : g.flags = .dead) : g.Dead := by
  intro t
  induction t generalizing g with
  | nil => exact fun _ => ⟨fun _ he => absurd he List.not_mem_nil, rfl⟩
  | cons e t ih =>
    intro hanswered
    obtain ⟨he, hrest⟩ := hanswered
    obtain ⟨hfails, hshown⟩ := answer_dead h e.1
    have hnext : (answer e.1 g).2.flags = .dead := by
      rw [flags_answer, h, Flags.next_dead]
    obtain ⟨hall, hkept⟩ := ih hnext hrest
    rw [he] at hfails
    exact ⟨List.forall_mem_cons.2 ⟨hfails, hall⟩, hkept.trans hshown⟩

/-- Once the bus of a segment was closed, no interface is opened and no slaves are found any
more. Nothing else is carried out either, and no slave changes, exactly if the slaves had not
been found by then. Where they had, the image is laid out again, and exchanged if what the
slaves count adds up in a word. Slaves were found if a search for them was carried out. -/
theorem dead_iff (g : Segment) :
    (∀ t : Bus.interface.Trace, AnsweredBy answer g.close t → ∀ e ∈ t,
        (e.1 = .discover ∨ ∃ name, e.1 = .init name) → ¬ CarriedOut e)
      ∧ (g.close.Dead ↔ g.discovered = false)
      ∧ (g.discovered = true → ∃ image g₁, answer .map g.close = (.ok image, g₁)
        ∧ (g.AddsUp → g₁.AddsUp ∧ ∃ wkc g₂, answer .exchange g₁ = (.ok wkc, g₂)))
      ∧ ∀ t : Bus.interface.Trace, AnsweredBy answer g t →
        ((stateAfter answer g t).discovered = true
          ↔ g.discovered = true ∨ ∃ n, ⟨.discover, .ok n⟩ ∈ t) := by
  refine ⟨?_, ⟨fun hdead => ?_, fun hdiscovered => dead_of_flags ?_⟩, fun hdiscovered => ?_,
    fun t => discovered_stateAfter⟩
  · rintro t hanswered ⟨r, a⟩ he hopens
    obtain ⟨before, after, rfl⟩ := List.append_of_mem he
    obtain ⟨-, hanswer, -⟩ := answeredBy_append.1 hanswered
    obtain ⟨hclosed, hopen⟩ :=
      flags_stateAfter (g := g.close) (P := fun f => f.closed = true ∧ f.isOpen = false)
        (fun f r h => f.next_closed h r) ⟨rfl, rfl⟩ before
    change (answer r _).1 = a at hanswer
    rw [← hanswer]
    rcases hopens with hr | ⟨name, hr⟩
    · obtain rfl : r = .discover := hr
      exact fun hdone => Bool.false_ne_true (hopen.symm.trans (carriedOut_discover.1 hdone))
    · obtain rfl : r = .init name := hr
      exact fun hdone => Bool.false_ne_true ((carriedOut_init.1 hdone).symm.trans hclosed)
  · cases hdiscovered : g.discovered with
    | false => rfl
    | true =>
      obtain ⟨image, g₁, hmap⟩ := answer_map_ok (g := g.close) hdiscovered
      obtain ⟨hnone, -⟩ := hdead [⟨.map, .ok image⟩] ⟨congrArg Prod.fst hmap, trivial⟩
      exact absurd trivial (hnone _ List.mem_cons_self)
  · unfold flags close
    rw [hdiscovered]
    rfl
  · obtain ⟨image, g₁, hmap⟩ := answer_map_ok (g := g.close) hdiscovered
    have hmapped : g₁.mapped = true := by
      have hflags := flags_answer .map g.close
      rw [hmap] at hflags
      exact (congrArg Flags.mapped hflags).trans hdiscovered
    refine ⟨image, g₁, hmap, fun hadds => ⟨?_, exchange_ok hmapped⟩⟩
    exact (addsUp_of_map hmap).2 hadds

/-- A slave that was found takes a request for a state after its bus was closed. -/
theorem not_dead : ¬ ∀ (n : Nat) (t : Bus.interface.Trace), AnsweredBy answer (ofCount n) t →
    (stateAfter answer (ofCount n) t).close.Dead := by
  intro hall
  have hdead := hall 1 [⟨.init "eth0", .ok ()⟩, ⟨.discover, .ok 1⟩] ⟨rfl, rfl, trivial⟩
  obtain ⟨hnone, -⟩ := hdead [⟨.setState 1 .preOperational, .ok ()⟩] ⟨rfl, trivial⟩
  exact hnone _ List.mem_cons_self trivial

end Segment

end Simulation

end Servo
