/-
Programs that talk to something outside: finite trees of requests.

An interface says which requests there are and what an answer to each is. A
program either is done with a value or makes a request and goes on according
to the answer. Nothing is said about where answers come from: a program is the
same whether a bus, a simulation or an arbitrary sequence of answers stands
behind it, and `Program.run` interprets it in any monad that can answer its
requests. A statement about all programs of one shape is then a statement
about all answers, honest or not.

Running a composed program runs its parts one after the other (`run_bind`),
and answering requests by programs over another interface (`run` in the monad
of those programs) embeds one interface in another.
-/

namespace Servo

/-- What can be requested, and what the answers are. -/
structure Interface where
  Request : Type
  Answer : Request → Type

/-- A program over an interface which ends with a value of type `α`. -/
inductive Program (I : Interface) (α : Type) : Type where
  /-- Nothing is left to request. -/
  | done (value : α)
  /-- Make a request, then go on with its answer. -/
  | request (r : I.Request) (resume : I.Answer r → Program I α)

namespace Program

variable {I : Interface} {α β γ : Type}

/-- One program after the other, with the value of the first. -/
def bind : Program I α → (α → Program I β) → Program I β
  | done value, next => next value
  | request r resume, next => request r fun answer => (resume answer).bind next

/-- The program that makes one request and ends with its answer. -/
def perform (r : I.Request) : Program I (I.Answer r) := request r done

instance : Monad (Program I) where
  pure := done
  bind := bind

theorem bind_done (p : Program I α) : p.bind done = p := by
  induction p with
  | done value => rfl
  | request r resume ih => simp only [bind, ih]

theorem bind_assoc (p : Program I α) (f : α → Program I β) (g : β → Program I γ) :
    (p.bind f).bind g = p.bind fun value => (f value).bind g := by
  induction p with
  | done value => rfl
  | request r resume ih => simp only [bind, ih]

instance : LawfulMonad (Program I) :=
  LawfulMonad.mk' (Program I) bind_done (fun _ _ => rfl) bind_assoc

-- ================================================== interpretation

/-- The value of a program when `answer` answers its requests. -/
def run {m : Type → Type} [Monad m] (answer : (r : I.Request) → m (I.Answer r)) :
    Program I α → m α
  | done value => Pure.pure value
  | request r resume => answer r >>= fun a => (resume a).run answer

section

variable {m : Type → Type} [Monad m] (answer : (r : I.Request) → m (I.Answer r))

@[simp] theorem run_done (value : α) : (done value : Program I α).run answer = Pure.pure value :=
  rfl

theorem run_bind [LawfulMonad m] (p : Program I α) (f : α → Program I β) :
    (p >>= f).run answer = p.run answer >>= fun value => (f value).run answer := by
  show (p.bind f).run answer = _
  induction p with
  | done value => simp [bind]
  | request r resume ih => simp [bind, run, ih]

end

end Program

end Servo
