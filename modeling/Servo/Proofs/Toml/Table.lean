/-
Tables as what they hold under their keys.

A field after a table is what the table has under its name, or as it was (`given`). In which
order the entries stand does not matter to that, as long as no key stands twice (`Distinct`),
and neither does the order in a table within the table (`Reordered`). A table has no key
twice, nor has a table within it (`Proper`).
-/
import Servo.Toml.Value
import Mathlib.Data.List.Forall2
import Mathlib.Data.List.Nodup

namespace Servo

namespace Toml

variable {α : Type} {t t' : Table} {e : String × Value} {name : String}

-- ============================================================== fields

/-- No key stands twice in the table. -/
def Distinct (t : Table) : Prop := (t.map Prod.fst).Nodup

/-- A field after a table: with what stands under its name put in, or as it was. -/
def given (t : Table) (name : String) (put : Value → α → α) (field : α) : α :=
  (t.lookup name).elim field (put · field)

theorem lookup_eq_none (h : name ∉ t.map Prod.fst) : t.lookup name = none := by
  rw [List.lookup_eq_none_iff]
  intro e he
  rw [bne_iff_ne]
  rintro rfl
  exact h (List.mem_map_of_mem he)

@[simp] theorem given_nil {put : Value → α → α} {field : α} : given [] name put field = field :=
  rfl

@[simp] theorem given_cons {key : String} {value : Value} {put : Value → α → α} {field : α} :
    given ((key, value) :: t) name put field
      = if name = key then put value field else given t name put field := by
  unfold given
  rw [List.lookup_cons]
  by_cases hname : name = key
  · rw [if_pos hname, hname, beq_self_eq_true]
    rfl
  · rw [if_neg hname, beq_false_of_ne hname]

/-- A table goes on where its first entry ends, if the rest does not have its key. -/
theorem given_rest {put : Value → α → α} {field : α} (h : e.1 ∉ t.map Prod.fst) :
    given (e :: t) name put field = given t name put (given [e] name put field) := by
  obtain ⟨key, value⟩ := e
  rw [given_cons, given_cons, given_nil]
  by_cases hname : name = key
  · subst hname
    have hnone : given t name put (put value field) = put value field := by
      unfold given
      rw [lookup_eq_none h]
      rfl
    rw [if_pos rfl, if_pos rfl, hnone]
  · rw [if_neg hname, if_neg hname]

/-- What stands under a name does not hang on the order. -/
theorem lookup_perm (hperm : t.Perm t') (h : Distinct t) : t.lookup name = t'.lookup name := by
  induction hperm with
  | nil => rfl
  | cons e _ ih =>
    rw [List.lookup_cons, List.lookup_cons, ih (List.nodup_cons.1 h).2]
  | swap e e' rest =>
    have hne : e'.1 ≠ e.1 := fun heq =>
      (List.nodup_cons.1 h).1 (List.mem_cons.2 (.inl heq))
    rw [List.lookup_cons, List.lookup_cons, List.lookup_cons, List.lookup_cons]
    by_cases hname : name = e.1
    · rw [hname, beq_self_eq_true, beq_false_of_ne (Ne.symm hne)]
    · rw [beq_false_of_ne hname]
  | trans hfirst _ ih ih' =>
    rw [ih h, ih' ((hfirst.map Prod.fst).nodup_iff.1 h)]

theorem given_perm (hperm : t.Perm t') (h : Distinct t) {put : Value → α → α} {field : α} :
    given t name put field = given t' name put field := by
  unfold given
  rw [lookup_perm hperm h]

-- =============================================================== order

/-- Two entries have one key, and the same value but for the order of a table. -/
def SameEntry (e e' : String × Value) : Prop :=
  e.1 = e'.1 ∧ (e.2 = e'.2 ∨ ∃ s s', e.2 = .table s ∧ e'.2 = .table s' ∧ s.Perm s')

/-- Two tables are the same but for the order of their entries, and of those of the tables in
them. -/
def Reordered (t t' : Table) : Prop := ∃ u, t.Perm u ∧ List.Forall₂ SameEntry u t'

theorem names_of_same (h : List.Forall₂ SameEntry t t') : t.map Prod.fst = t'.map Prod.fst := by
  induction h with
  | nil => rfl
  | cons he _ ih => rw [List.map_cons, List.map_cons, he.1, ih]

/-- A field after a table, where the order of a table does not matter to what is put in. -/
theorem given_of_same (h : List.Forall₂ SameEntry t t') {put : Value → α → α} {field : α}
    (hput : ∀ s s', (name, .table s) ∈ t → s.Perm s' →
      put (.table s) field = put (.table s') field) :
    given t name put field = given t' name put field := by
  induction h with
  | nil => rfl
  | @cons e e' t t' he _ ih =>
    obtain ⟨key, value⟩ := e
    obtain ⟨key', value'⟩ := e'
    obtain ⟨hkey, hvalue⟩ := he
    obtain rfl : key = key' := hkey
    rw [given_cons, given_cons, ih fun s s' hs => hput s s' (List.mem_cons_of_mem _ hs)]
    by_cases hname : name = key
    · subst hname
      rw [if_pos rfl, if_pos rfl]
      rcases hvalue with hsame | ⟨s, s', rfl, rfl, hperm⟩
      · exact congrArg (put · field) hsame
      · exact hput s s' List.mem_cons_self hperm
    · rw [if_neg hname, if_neg hname]

-- ============================================================== proper

/-- A table that is a value has no key twice. -/
def Value.Proper (value : Value) : Prop := ∀ s, value = .table s → Distinct s

/-- A table has no key twice, and neither has a table within it. -/
structure Proper (t : Table) : Prop where
  distinct : Distinct t
  within : ∀ e ∈ t, e.2.Proper

theorem Value.Proper.of_same {e' : String × Value} (h : SameEntry e e') (hproper : e.2.Proper) :
    e'.2.Proper := by
  obtain ⟨-, hsame | ⟨s, s', hs, hs', hperm⟩⟩ := h
  · exact hsame ▸ hproper
  · intro s'' hs''
    obtain rfl : s' = s'' := Value.table.inj (hs'.symm.trans hs'')
    exact (hperm.map Prod.fst).nodup_iff.1 (hproper s hs)

/-- In any other order a table is as proper. -/
theorem Proper.reordered (hproper : Proper t) (h : Reordered t t') : Proper t' := by
  obtain ⟨u, hperm, hsame⟩ := h
  constructor
  case distinct =>
    unfold Distinct
    rw [← names_of_same hsame]
    exact (hperm.map Prod.fst).nodup_iff.1 hproper.distinct
  case within =>
    have hu : ∀ e ∈ u, e.2.Proper := fun e he => hproper.within e (hperm.mem_iff.2 he)
    clear hperm
    induction hsame with
    | nil => exact fun _ he => absurd he List.not_mem_nil
    | cons he _ ih =>
      obtain ⟨hfirst, hrest⟩ := List.forall_mem_cons.1 hu
      exact List.forall_mem_cons.2 ⟨.of_same he hfirst, ih hrest⟩

-- ============================================================== values

namespace Value

def isTruth : Value → Bool
  | .boolean _ => true
  | _ => false

def isInteger (low high : Int) : Value → Bool
  | .integer n => decide (low ≤ n ∧ n ≤ high)
  | _ => false

def isIntegers (low high : Int) : Value → Bool
  | .array items => items.all (isInteger low high)
  | _ => false

/-- A truth value in place of another one. -/
def truth : Value → Bool → Bool
  | .boolean b, _ => b
  | _, b => b

/-- What an integer stands for in place of what was there. -/
def number (f : Int → α) : Value → α → α
  | .integer n, _ => f n
  | _, a => a

def word (f : Nat → α) : Value → α → α := number fun n => f n.toNat

/-- What a list of words stands for in place of what was there. -/
def words (f : List Nat → α) : Value → α → α
  | .array items, _ => f (items.map (word id · 0))
  | _, a => a

variable {a : α} {n : Int} {items : List Value}

@[simp] theorem truth_boolean {b b' : Bool} : truth (.boolean b) b' = b := rfl

@[simp] theorem number_integer {f : Int → α} : number f (.integer n) a = f n := rfl

@[simp] theorem word_integer {f : Nat → α} : word f (.integer n) a = f n.toNat := rfl

@[simp] theorem words_array {f : List Nat → α} :
    words f (.array items) a = f (items.map (word id · 0)) := rfl

end Value

end Toml

end Servo
