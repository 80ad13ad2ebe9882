/-
A text is read as a table that has no key twice.

What a document is built of has no key twice at any point: a value goes under a key that is
free, and a header changes what is under a key that is there, or adds a free one
(`Branch.put`). So every branch stays proper, whatever line comes next (`Branch.Keeps`), and
the tables that it turns into have the keys of the branches.

The readers carry that along: whatever a reader takes from a text, its result has a property
that follows from what its steps give (`Reader.Yields`).
-/
import Servo.Toml.Reader
import Servo.Proofs.Toml.Table

namespace Servo.Toml

-- =============================================================== trees

mutual

/-- No branch of the tree has a key twice, and neither has a table that is closed in it. -/
inductive Tree.Proper : Tree → Prop
  | closed {value : Value} (h : value.Proper) : Tree.Proper (.closed value)
  | table {origin : Origin} {children : Branch} (h : Branch.Proper children) :
      Tree.Proper (.table origin children)
  | tables {elements : List Branch} (h : ∀ b ∈ elements, Branch.Proper b) :
      Tree.Proper (.tables elements)

/-- No key stands twice in the branch, nor in any branch of it. -/
inductive Branch.Proper : Branch → Prop
  | mk {b : Branch} (names : (b.map Prod.fst).Nodup) (trees : ∀ e ∈ b, Tree.Proper e.2) :
      Branch.Proper b

end

/-- A table has the keys of its branch, in the same order. -/
theorem names_toTable (b : Branch) : (Tree.toTable b).map Prod.fst = b.map Prod.fst := by
  induction b with
  | nil => rfl
  | cons e rest ih =>
    obtain ⟨key, tree⟩ := e
    rw [Tree.toTable, List.map_cons, List.map_cons, ih]

/-- The keys of a proper branch stay distinct in its table. -/
theorem Branch.Proper.distinct {b : Branch} (h : b.Proper) : Distinct (Tree.toTable b) := by
  obtain ⟨hnames, -⟩ := h
  unfold Distinct
  rw [names_toTable]
  exact hnames

/-- A proper tree turns into a proper value. -/
theorem Tree.Proper.toValue {tree : Tree} (h : tree.Proper) : tree.toValue.Proper := by
  unfold Tree.toValue
  cases h with
  | closed h => exact h
  | table h =>
    intro s hs
    obtain rfl := Value.table.inj hs
    exact h.distinct
  | tables => exact nofun

theorem Branch.Proper.toTable {b : Branch} (h : b.Proper) : Toml.Proper (Tree.toTable b) where
  distinct := h.distinct
  within := by
    obtain ⟨-, htrees⟩ := h
    induction b with
    | nil => exact fun _ he => absurd he List.not_mem_nil
    | cons e rest ih =>
      obtain ⟨key, tree⟩ := e
      obtain ⟨htree, hrest⟩ := List.forall_mem_cons.1 htrees
      rw [Tree.toTable]
      exact List.forall_mem_cons.2 ⟨htree.toValue, ih hrest⟩

-- ============================================================ branches

namespace Branch

variable {b b' : Branch} {key name : String} {tree : Tree} {value : Value}

theorem proper_nil : Proper [] := ⟨List.nodup_nil, fun _ he => absurd he List.not_mem_nil⟩

/-- What is found in a proper branch is proper. -/
theorem Proper.lookup (h : b.Proper) (htree : b.lookup key = some tree) : tree.Proper := by
  obtain ⟨-, htrees⟩ := h
  obtain ⟨before, after, rfl, -⟩ := List.lookup_eq_some_iff.1 htree
  exact htrees _ (List.mem_append_right _ List.mem_cons_self)

/-- Putting something under a key adds that key at most. -/
theorem mem_names_put :
    name ∈ (b.put key tree).map Prod.fst ↔ name = key ∨ name ∈ b.map Prod.fst := by
  induction b with
  | nil => simp [put]
  | cons e rest ih =>
    obtain ⟨k, t⟩ := e
    unfold put
    by_cases hkey : k = key
    · subst hkey
      rw [if_pos rfl]
      simp
    · rw [if_neg hkey, List.map_cons, List.map_cons, List.mem_cons, ih, List.mem_cons]
      exact or_left_comm

/-- A key is put in once. -/
theorem Proper.put (h : b.Proper) (htree : tree.Proper) : (b.put key tree).Proper := by
  induction b with
  | nil => exact ⟨List.nodup_singleton _, List.forall_mem_singleton.2 htree⟩
  | cons e rest ih =>
    obtain ⟨k, t⟩ := e
    obtain ⟨hnames, htrees⟩ := h
    obtain ⟨hfresh, hnames⟩ := List.nodup_cons.1 hnames
    obtain ⟨ht, htrees⟩ := List.forall_mem_cons.1 htrees
    unfold Branch.put
    by_cases hkey : k = key
    · rw [if_pos hkey]
      exact ⟨List.nodup_cons.2 ⟨hfresh, hnames⟩, List.forall_mem_cons.2 ⟨htree, htrees⟩⟩
    · rw [if_neg hkey]
      obtain ⟨hnames', htrees'⟩ := ih ⟨hnames, htrees⟩
      refine ⟨List.nodup_cons.2 ⟨fun hmem => ?_, hnames'⟩,
        List.forall_mem_cons.2 ⟨ht, htrees'⟩⟩
      exact (mem_names_put.1 hmem).elim hkey hfresh

/-- A change, if it can be made, keeps branches proper. -/
def Keeps (change : Branch → Option Branch) : Prop :=
  ∀ b b', Proper b → change b = some b' → Proper b'

/-- What is put under a key is a tree that a change of some branch gave. -/
theorem Proper.put_of_bind (h : b.Proper) {change : Branch → Option Branch}
    (hchange : Keeps change) {inner : Branch} (hinner : inner.Proper) {tree : Branch → Tree}
    (hb' : (change inner).bind (fun children => some (b.put key (tree children))) = some b')
    (htree : ∀ children, Proper children → (tree children).Proper) : b'.Proper := by
  obtain ⟨children, hchildren, hput⟩ := Option.bind_eq_some_iff.1 hb'
  obtain rfl := Option.some.inj hput
  exact h.put (htree _ (hchange _ _ hinner hchildren))

/-- A header leads to a change; if that keeps branches proper, so does the header. -/
theorem keeps_atHeader {change : Branch → Option Branch} (hchange : Keeps change)
    (path : List String) : Keeps (atHeader change path) := by
  induction path with
  | nil => exact hchange
  | cons key path ih =>
    intro b b' h hb'
    unfold atHeader at hb'
    cases hlookup : b.lookup key with
    | none =>
      rw [hlookup] at hb'
      exact h.put_of_bind ih proper_nil hb' fun _ => .table
    | some tree =>
      rw [hlookup] at hb'
      cases h.lookup hlookup with
      | closed => cases hb'
      | table hinner => exact h.put_of_bind ih hinner hb' fun _ => .table
      | @tables elements helements =>
        obtain ⟨last, hlast, hb'⟩ := Option.bind_eq_some_iff.1 hb'
        refine h.put_of_bind ih (helements _ (List.mem_of_getLast? hlast)) hb'
          fun children hchildren => .tables fun c hc => ?_
        rcases List.mem_append.1 hc with hmem | hmem
        · exact helements c (List.dropLast_subset _ hmem)
        · exact List.mem_singleton.1 hmem ▸ hchildren

/-- A value goes under a free key, at the end of a path of branches that are kept. -/
theorem keeps_insert (hvalue : value.Proper) (path : List String) : Keeps (insert value path) := by
  induction path with
  | nil => exact nofun
  | cons key path ih =>
    intro b b' h hb'
    cases path with
    | nil =>
      unfold insert at hb'
      cases hlookup : b.lookup key with
      | none =>
        rw [hlookup] at hb'
        obtain rfl := Option.some.inj hb'
        exact h.put (.closed hvalue)
      | some =>
        rw [hlookup] at hb'
        cases hb'
    | cons next path =>
      unfold insert at hb'
      cases hlookup : b.lookup key with
      | none =>
        rw [hlookup] at hb'
        exact h.put_of_bind ih proper_nil hb' fun _ => .table
      | some tree =>
        rw [hlookup] at hb'
        cases h.lookup hlookup with
        | closed | tables => cases hb'
        | @table origin _ hinner =>
          cases origin with
          | headed => cases hb'
          | _ => exact h.put_of_bind ih hinner hb' fun _ => .table

/-- The header of a table opens one that is new or was only implied. -/
theorem keeps_define (key : String) : Keeps (define key) := by
  intro b b' h hb'
  unfold define at hb'
  cases hlookup : b.lookup key with
  | none =>
    rw [hlookup] at hb'
    obtain rfl := Option.some.inj hb'
    exact h.put (.table proper_nil)
  | some tree =>
    rw [hlookup] at hb'
    cases h.lookup hlookup with
    | closed | tables => cases hb'
    | @table origin _ hinner =>
      cases origin with
      | passed =>
        obtain rfl := Option.some.inj hb'
        exact h.put (.table hinner)
      | _ => cases hb'

/-- The header of an array adds an element to it. -/
theorem keeps_extend (key : String) : Keeps (extend key) := by
  intro b b' h hb'
  unfold extend at hb'
  cases hlookup : b.lookup key with
  | none =>
    rw [hlookup] at hb'
    obtain rfl := Option.some.inj hb'
    exact h.put (.tables (List.forall_mem_singleton.2 proper_nil))
  | some tree =>
    rw [hlookup] at hb'
    cases h.lookup hlookup with
    | closed | table => cases hb'
    | tables helements =>
      obtain rfl := Option.some.inj hb'
      exact h.put (.tables (List.forall_mem_append.2
        ⟨helements, List.forall_mem_singleton.2 proper_nil⟩))

end Branch

-- ============================================================= readers

namespace Reader

variable {α β : Type} {r : Reader α} {f : α → Reader β} {P : α → Prop} {Q : β → Prop} {a : α}

/-- Whatever the reader takes, its result has the property. -/
def Yields (r : Reader α) (P : α → Prop) : Prop :=
  ∀ cs a rest, r.run cs = some (a, rest) → P a

/-- Every reader yields something. -/
theorem yields_any (r : Reader α) : r.Yields fun _ => True := fun _ _ _ _ => trivial

/-- A reader that takes nothing yields its value. -/
theorem yields_pure (h : P a) : Yields (pure a) P := by
  intro cs a' rest hrun
  cases hrun
  exact h

/-- A reader that fails yields nothing that could lack the property. -/
theorem yields_failure : Yields failure P := by
  intro cs a rest hrun
  cases hrun

/-- A step that may fail yields what it comes to when it does not. -/
theorem yields_lift {x : Option α} (h : ∀ a, x = some a → P a) :
    Yields (liftM x : Reader α) P := by
  intro cs a rest hrun
  cases x with
  | none => cases hrun
  | some a' =>
    cases hrun
    exact h _ rfl

/-- A step gives what the next one goes on with. -/
theorem Yields.bind (h : r.Yields P) (hf : ∀ a, P a → (f a).Yields Q) : (r >>= f).Yields Q := by
  intro cs b rest hrun
  obtain ⟨⟨a, cs'⟩, hr, hrest⟩ := Option.bind_eq_some_iff.1 hrun
  exact hf a (h _ _ _ hr) _ _ _ hrest

/-- A step of which nothing matters. -/
theorem yields_bind (hf : ∀ a, (f a).Yields Q) : (r >>= f).Yields Q :=
  r.yields_any.bind fun a _ => hf a

/-- A literal is no table. -/
theorem yields_literal : literal.Yields Value.Proper := by
  refine yields_bind fun cs => yields_bind fun _ => yields_lift fun v hv => ?_
  intro t ht
  subst ht
  unfold Literal.value? at hv
  split at hv
  · cases hv
  · split at hv
    · cases hv
    · split at hv
      · cases hv
      · split at hv
        · cases hv
        · cases hv

/-- No table of a value has a key twice, and neither has a branch that pairs are added to. -/
theorem yields_value_pairs (bound : Nat) :
    (∀ room, (value bound room).Yields Value.Proper)
      ∧ ∀ room b, b.Proper → (pairs bound room b).Yields Branch.Proper := by
  induction bound with
  | zero =>
    constructor
    · intro room
      unfold value
      exact yields_failure
    · intro room b _
      unfold pairs
      exact yields_failure
  | succ bound ih =>
    obtain ⟨hvalue, hpairs⟩ := ih
    constructor
    · intro room
      unfold value
      refine yields_bind fun next => ?_
      split
      next => exact yields_bind fun _ => yields_pure nofun
      next => exact yields_bind fun _ => yields_pure nofun
      next => exact yields_bind fun _ => yields_bind fun _ => yields_pure nofun
      next =>
        refine yields_bind fun _ => (hpairs _ _ Branch.proper_nil).bind fun b hb => ?_
        exact yields_pure fun s hs => Value.table.inj hs ▸ hb.distinct
      next => exact yields_literal
    · intro room b hb
      unfold pairs
      refine yields_bind fun _ => yields_bind fun _ => ?_
      split
      next => exact yields_pure hb
      next =>
        refine yields_bind fun path => yields_bind fun _ => yields_bind fun _ =>
          yields_bind fun _ => (hvalue room).bind fun v hv => ?_
        refine (yields_lift fun b' => Branch.keeps_insert hv path _ b' hb).bind fun b' hb' => ?_
        refine yields_bind fun _ => yields_bind fun _ => ?_
        split
        next => exact hpairs _ _ hb'
        next => exact yields_bind fun _ => yields_pure hb'

end Reader

-- =========================================================== documents

namespace Document

variable {d d' : Document} {path : List String} {value : Value}

/-- What was read of the document has no key twice. -/
def Proper (d : Document) : Prop := d.root.Proper

theorem proper_empty : Proper .empty := Branch.proper_nil

/-- A header that keeps branches leaves the document proper. -/
theorem Proper.atHeader (h : d.Proper) {change : Branch → Option Branch}
    (hchange : Branch.Keeps change) {header : List String}
    (hd' : (Branch.atHeader change path d.root).bind (fun root => some ⟨root, header⟩) = some d') :
    d'.Proper := by
  obtain ⟨root, hroot, hd'⟩ := Option.bind_eq_some_iff.1 hd'
  obtain rfl := Option.some.inj hd'
  exact Branch.keeps_atHeader hchange path _ _ h hroot

/-- The header of a table leaves the document proper. -/
theorem Proper.startTable (h : d.Proper) (hd' : d.startTable path = some d') : d'.Proper := by
  obtain ⟨key, -, hd'⟩ := Option.bind_eq_some_iff.1 hd'
  exact h.atHeader (Branch.keeps_define key) hd'

/-- So does the header of an element of an array. -/
theorem Proper.startElement (h : d.Proper) (hd' : d.startElement path = some d') :
    d'.Proper := by
  obtain ⟨key, -, hd'⟩ := Option.bind_eq_some_iff.1 hd'
  exact h.atHeader (Branch.keeps_extend key) hd'

/-- A pair of a key and a proper value leaves the document proper. -/
theorem Proper.insert (h : d.Proper) (hvalue : value.Proper)
    (hd' : d.insert path value = some d') : d'.Proper :=
  h.atHeader (Branch.keeps_insert hvalue path) hd'

end Document

namespace Reader

variable {d : Document}

/-- A header line makes a proper document of a proper one. -/
theorem yields_header (h : d.Proper) : (header d).Yields Document.Proper := by
  unfold header
  refine yields_bind fun _ => yields_bind fun _ => yields_bind fun _ => yields_bind fun path =>
    yields_bind fun _ => ?_
  split
  next => exact yields_bind fun _ => yields_lift fun d' => h.startElement
  next => exact yields_lift fun d' => h.startTable

/-- A line with a pair makes a proper document of a proper one. -/
theorem yields_pair (h : d.Proper) : (pair d).Yields Document.Proper := by
  unfold pair
  refine yields_bind fun _ => yields_bind fun path => yields_bind fun _ => yields_bind fun _ => ?_
  exact ((yields_value_pairs _).1 _).bind fun v hv => yields_lift fun d' => h.insert hv

/-- Every line keeps what was read as it must be. -/
theorem yields_lines (bound : Nat) (h : d.Proper) : (lines bound d).Yields Document.Proper := by
  induction bound generalizing d with
  | zero =>
    unfold lines
    exact yields_failure
  | succ bound ih =>
    unfold lines
    refine yields_bind fun _ => yields_bind fun _ => ?_
    split
    next => exact yields_pure h
    next => exact (yields_header h).bind fun d' hd' => yields_bind fun _ => ih hd'
    next => exact (yields_pair h).bind fun d' hd' => yields_bind fun _ => ih hd'

end Reader

/-- Whatever table a text is read as, it has no key twice, and neither have the tables in it. -/
theorem proper_of_read {text : String} {t : Table} (h : read? text = some t) : Proper t := by
  obtain ⟨⟨d, rest⟩, hlines, ht⟩ := Option.bind_eq_some_iff.1 h
  obtain rfl := Option.some.inj ht
  have hd : d.Proper := Reader.yields_lines _ Document.proper_empty _ _ _ hlines
  exact hd.toTable

end Servo.Toml
