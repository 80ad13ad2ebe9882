/-
What a section makes of a record.

A section walks along a table and changes the record with each entry. What comes of that can
be said field by field: a field is what the table has under its name, or as it was
(`Toml.given`). A schema lists the names with the values that they take, and a section is
described by a schema and by such an account of its record (`Describes`): the walk then ends
with just that record if every entry fits the schema, and with none otherwise
(`Describes.overlay`).

An array in place of a table is a table too, once its items are put behind the names of the
schema (`Schema.entries`, `Describes.read`).
-/
import Servo.Config.Section
import Servo.Proofs.Toml.Table

namespace Servo

-- ============================================================= schemas

/-- The keys of a record, each with the values that its field takes. -/
abbrev Schema := List (String × (Toml.Value → Bool))

namespace Schema

/-- Every entry of the table has a key of the schema, and a value that it takes. -/
def fits (schema : Schema) (t : Toml.Table) : Bool :=
  t.all fun (name, value) => (schema.lookup name).any (· value)

theorem fits_cons {schema : Schema} {t : Toml.Table} {name : String} {value : Toml.Value} :
    schema.fits ((name, value) :: t)
      = ((schema.lookup name).any (· value) && schema.fits t) :=
  List.all_cons

theorem fits_perm {schema : Schema} {t t' : Toml.Table} (h : t.Perm t') :
    schema.fits t = schema.fits t' :=
  h.all_eq

/-- Whether a table fits does not hang on the order of the tables in it, if no row does. -/
theorem fits_of_same {schema : Schema} {t t' : Toml.Table}
    (h : List.Forall₂ Toml.SameEntry t t')
    (hrows : ∀ row ∈ schema, ∀ s s', s.Perm s' → row.2 (.table s) = row.2 (.table s')) :
    schema.fits t = schema.fits t' := by
  induction h with
  | nil => rfl
  | @cons e e' t t' he _ ih =>
    obtain ⟨key, value⟩ := e
    obtain ⟨key', value'⟩ := e'
    obtain ⟨hkey, hvalue⟩ := he
    obtain rfl : key = key' := hkey
    rw [fits_cons, fits_cons, ih]
    congr 1
    rcases hvalue with hsame | ⟨s, s', rfl, rfl, hperm⟩
    · exact congrArg (fun value => (schema.lookup key).any (· value)) hsame
    · cases hlookup : schema.lookup key with
      | none => rfl
      | some takes =>
        obtain ⟨before, after, hsplit, -⟩ := List.lookup_eq_some_iff.1 hlookup
        have hrow : (key, takes) ∈ schema := hsplit ▸ List.mem_append_right _ List.mem_cons_self
        exact hrows _ hrow s s' hperm

/-- The entries of a section: those of the table, or the items of an array under the names of
the schema in their order. Items beyond the last name are none. -/
def entries (schema : Schema) : Toml.Value → Toml.Table
  | .table t => t
  | .array items => (schema.map Prod.fst).zip items
  | _ => []

/-- The value is a table or an array, with entries that fit. -/
def takes (schema : Schema) : Toml.Value → Bool
  | .table t => schema.fits t
  | .array items => schema.fits ((schema.map Prod.fst).zip items)
  | _ => false

end Schema

namespace Section

open Toml

variable {σ : Type} {keys : List (Key σ)} {schema : Schema} {after : Table → σ → σ}
  {P : Value → Prop} {t : Table} {record : σ} {items : List Value}

/-- A key is read as a row of a schema says, where its values are of a kind, and written so
that the row takes it. -/
structure Reads (P : Value → Prop) (after : Table → σ → σ) (key : Key σ)
    (row : String × (Value → Bool)) : Prop where
  name : key.name = row.1
  read : ∀ value record, P value →
    key.read value record = if row.2 value then some (after [(row.1, value)] record) else none
  write : ∀ record, row.2 (key.write record) = true

/-- The keys of a record are those of a schema, and `after` says what a table makes of it. -/
structure Describes (P : Value → Prop) (keys : List (Key σ)) (schema : Schema)
    (after : Table → σ → σ) : Prop where
  distinct : (schema.map Prod.fst).Nodup
  rows : List.Forall₂ (Reads P after) keys schema
  nil : ∀ record, after [] record = record
  cons : ∀ e t record, e.1 ∉ t.map Prod.fst → after (e :: t) record = after t (after [e] record)
  perm : ∀ t t' record, t.Perm t' → Distinct t → after t record = after t' record

theorem key?_of_rows (h : List.Forall₂ (Reads P after) keys schema) (name : String) :
    (key? keys name = none ∧ schema.lookup name = none)
      ∨ ∃ key takes, key? keys name = some key ∧ schema.lookup name = some takes
        ∧ Reads P after key (name, takes) := by
  induction h with
  | nil => exact .inl ⟨rfl, rfl⟩
  | @cons key row keys schema hrow _ ih =>
    obtain ⟨found, takes⟩ := row
    have hname : key.name = found := hrow.name
    unfold key? at ih ⊢
    rw [List.find?_cons, List.lookup_cons, hname]
    by_cases hfound : name = found
    · subst hfound
      rw [beq_self_eq_true]
      exact .inr ⟨key, takes, rfl, rfl, hrow⟩
    · rw [beq_false_of_ne hfound, beq_false_of_ne (Ne.symm hfound)]
      exact ih

/-- Laying a table over a record gives the one that is described, or none if an entry does not
fit. -/
theorem Describes.overlay (h : Describes P keys schema after) (hdistinct : Distinct t)
    (hvalues : ∀ e ∈ t, P e.2) :
    overlay keys t record = if schema.fits t then some (after t record) else none := by
  induction t generalizing record with
  | nil =>
    rw [h.nil]
    rfl
  | cons e t ih =>
    obtain ⟨name, value⟩ := e
    obtain ⟨hfresh, hrest⟩ := List.nodup_cons.1 hdistinct
    obtain ⟨hvalue, hvalues⟩ := List.forall_mem_cons.1 hvalues
    rw [h.cons _ _ _ hfresh, Schema.fits_cons]
    unfold Section.overlay
    rcases key?_of_rows h.rows name with ⟨hkey, hlookup⟩ | ⟨key, takes, hkey, hlookup, hreads⟩
    · rw [hkey, hlookup]
      rfl
    · rw [hkey, hlookup, Option.any_some]
      show (key.read value record).bind (Section.overlay keys t) = _
      rw [hreads.read _ _ hvalue]
      by_cases htakes : takes value = true
      · rw [if_pos htakes, htakes, Bool.true_and]
        exact ih hrest hvalues
      · rw [if_neg htakes, Bool.eq_false_iff.2 htakes]
        rfl

-- ============================================================== arrays

/-- The items of an array are laid over a record as a table is. -/
theorem overlayItems_eq {suffix : List (Key σ)}
    (h : ∀ key ∈ suffix, key? keys key.name = some key) :
    overlayItems suffix items record = overlay keys ((suffix.map Key.name).zip items) record := by
  induction suffix generalizing items record with
  | nil => rfl
  | cons key suffix ih =>
    obtain ⟨hkey, hrest⟩ := List.forall_mem_cons.1 h
    cases items with
    | nil => rfl
    | cons value items =>
      show (key.read value record).bind (overlayItems suffix items) = _
      rw [List.map_cons, List.zip_cons_cons]
      unfold Section.overlay
      rw [hkey]
      show _ = (key.read value record).bind (Section.overlay keys _)
      congr 1
      funext next
      exact ih hrest

/-- A key is found under its name, as no name stands twice. -/
theorem key?_name (h : (keys.map Key.name).Nodup) {key : Key σ} (hkey : key ∈ keys) :
    key? keys key.name = some key := by
  induction keys with
  | nil => exact absurd hkey List.not_mem_nil
  | cons first rest ih =>
    obtain ⟨hfirst, hrest⟩ := List.nodup_cons.1 h
    unfold key? at ih ⊢
    rw [List.find?_cons]
    rcases List.mem_cons.1 hkey with rfl | hmem
    · rw [beq_self_eq_true]
    · have hne : first.name ≠ key.name := by
        intro heq
        exact hfirst (heq ▸ List.mem_map_of_mem hmem)
      rw [beq_false_of_ne hne]
      exact ih hrest hmem

theorem Describes.names (h : Describes P keys schema after) :
    keys.map Key.name = schema.map Prod.fst := by
  have hrows := h.rows
  clear h
  induction hrows with
  | nil => rfl
  | cons hrow _ ih => rw [List.map_cons, List.map_cons, hrow.name, ih]

/-- Names put before items do not stand twice, as they do not in the schema. -/
theorem distinct_zip {names : List String} (h : names.Nodup) : Distinct (names.zip items) := by
  induction names generalizing items with
  | nil => exact List.nodup_nil
  | cons name names ih =>
    obtain ⟨hfresh, hrest⟩ := List.nodup_cons.1 h
    cases items with
    | nil => exact List.nodup_nil
    | cons value items =>
      refine List.nodup_cons.2 ⟨fun hmem => ?_, ih hrest⟩
      obtain ⟨⟨found, _⟩, he, heq⟩ := List.mem_map.1 hmem
      obtain rfl : found = name := heq
      exact hfresh (List.of_mem_zip he).1

/-- A section is read as it is described. -/
theorem Describes.read {value : Value} (h : Describes (fun _ => True) keys schema after)
    (hdistinct : ∀ s, value = .table s → Distinct s) :
    read keys value record
      = if schema.takes value then some (after (schema.entries value) record) else none := by
  cases value with
  | table s => exact h.overlay (hdistinct s rfl) fun _ _ => trivial
  | array items =>
    have hnames := h.names
    show overlayItems keys items record = _
    rw [overlayItems_eq fun key => key?_name (hnames ▸ h.distinct), hnames]
    exact h.overlay (distinct_zip h.distinct) fun _ _ => trivial
  | _ => rfl

/-- The order within a section does not matter to its record. -/
theorem Describes.given_of_same {t' : Table} {name : String}
    (h : Describes P keys schema after) (hsame : List.Forall₂ SameEntry t t')
    (hdistinct : ∀ s, (name, .table s) ∈ t → Distinct s) :
    given t name (fun value => after (schema.entries value)) record
      = given t' name (fun value => after (schema.entries value)) record :=
  Toml.given_of_same hsame fun s s' hs hperm => h.perm s s' record hperm (hdistinct s hs)

-- ============================================================== writing

theorem Describes.distinct_toTable (h : Describes P keys schema after) :
    Distinct (toTable keys record) := by
  have hnames : (toTable keys record).map Prod.fst = schema.map Prod.fst := by
    rw [← h.names]
    exact List.map_map
  unfold Distinct
  rw [hnames]
  exact h.distinct

/-- What is written of a record fits. -/
theorem Describes.fits_toTable (h : Describes P keys schema after) :
    schema.fits (toTable keys record) = true := by
  refine List.all_eq_true.2 fun e he => ?_
  obtain ⟨key, hkey, rfl⟩ := List.mem_map.1 he
  have hfound := key?_name (h.names ▸ h.distinct) hkey
  rcases key?_of_rows h.rows key.name with ⟨hnone, -⟩ | ⟨_, takes, hsome, hlookup, hreads⟩
  · cases hfound.symm.trans hnone
  · cases hfound.symm.trans hsome
    dsimp only
    rw [hlookup]
    exact hreads.write record

-- ================================================================= keys

variable {name : String}

theorem reads_truth {get : σ → Bool} {set : Bool → σ → σ}
    (h : ∀ b record, after [(name, .boolean b)] record = set b record) :
    Reads P after (.truth name get set) (name, Value.isTruth) where
  name := rfl
  read value record _ := by
    cases value with
    | boolean b => exact congrArg some (h b record).symm
    | _ => rfl
  write _ := rfl

theorem reads_number {low high : Int} {get : σ → Int} {set : Int → σ → σ}
    (h : ∀ n record, after [(name, .integer n)] record = set n record)
    (hget : ∀ record, low ≤ get record ∧ get record ≤ high) :
    Reads P after (.number name low high get set) (name, Value.isInteger low high) where
  name := rfl
  read value record _ := by
    cases value with
    | integer n =>
      show (if low ≤ n ∧ n ≤ high then some (set n record) else none) = _
      rw [h]
      unfold Value.isInteger
      simp only [decide_eq_true_eq]
    | _ => rfl
  write record := decide_eq_true (hget record)

theorem reads_word {size : Nat} {get : σ → Nat} {set : Nat → σ → σ}
    (h : ∀ n record, after [(name, .integer n)] record = set n.toNat record)
    (hget : ∀ record, get record < size) :
    Reads P after (.word name size get set) (name, Value.isInteger 0 (size - 1)) := by
  refine reads_number h fun record => ?_
  have hlt := hget record
  omega

theorem mapM_of_takes {f : Value → Option Nat} (takes : Value → Bool)
    (h : ∀ value, f value = if takes value then some (Value.word id value 0) else none) :
    items.mapM f = if items.all takes then some (items.map (Value.word id · 0)) else none := by
  induction items with
  | nil => rfl
  | cons value items ih =>
    rw [List.mapM_cons, ih, h, List.all_cons]
    by_cases htakes : takes value = true
    · rw [if_pos htakes, htakes, Bool.true_and]
      by_cases hrest : items.all takes = true
      · rw [if_pos hrest, if_pos hrest]
        rfl
      · rw [if_neg hrest, if_neg hrest]
        rfl
    · rw [if_neg htakes, Bool.eq_false_iff.2 htakes]
      rfl

theorem reads_words {size : Nat} {get : σ → List Nat} {set : List Nat → σ → σ}
    (h : ∀ items record,
      after [(name, .array items)] record = set (items.map (Value.word id · 0)) record)
    (hget : ∀ record, ∀ n ∈ get record, n < size) :
    Reads P after (.words name size get set) (name, Value.isIntegers 0 (size - 1)) where
  name := rfl
  read value record _ := by
    cases value with
    | array items =>
      show Option.bind (items.mapM _) (fun ns => some (set ns record)) = _
      rw [mapM_of_takes (Value.isInteger 0 (size - 1))]
      · dsimp only
        rw [h]
        by_cases hall : items.all (Value.isInteger 0 (size - 1)) = true
        · rw [if_pos hall]
          exact (if_pos hall).symm
        · rw [if_neg hall]
          exact (if_neg hall).symm
      · intro value
        cases value with
        | integer n =>
          have hrange : 0 ≤ n ∧ n < (size : Int)
              ↔ Value.isInteger 0 (size - 1) (.integer n) = true := by
            unfold Value.isInteger
            rw [decide_eq_true_iff]
            omega
          exact if_congr hrange rfl rfl
        | _ => rfl
    | _ => rfl
  write record := by
    refine List.all_eq_true.2 fun value hvalue => ?_
    obtain ⟨n, hn, rfl⟩ := List.mem_map.1 hvalue
    have hlt := hget record n hn
    exact decide_eq_true (by omega)

/-- A section of a section. -/
theorem reads_group {τ : Type} {subkeys : List (Key τ)} {subschema : Schema}
    {within : Table → τ → τ} {get : σ → τ} {set : τ → σ → σ}
    (hsub : Describes (fun _ => True) subkeys subschema within)
    (hvalues : ∀ s, P (.table s) → Distinct s)
    (h : ∀ value record, after [(name, value)] record
      = set (within (subschema.entries value) (get record)) record) :
    Reads P after (.group name subkeys get set) (name, subschema.takes) where
  name := rfl
  read value record hvalue := by
    show (Section.read subkeys value (get record)).bind (fun r => some (set r record)) = _
    rw [hsub.read fun s hs => hvalues s (hs ▸ hvalue)]
    dsimp only
    rw [h]
    by_cases htakes : subschema.takes value = true
    · rw [if_pos htakes, if_pos htakes]
      rfl
    · rw [if_neg htakes, if_neg htakes]
      rfl
  write _ := hsub.fits_toTable

end Section

end Servo
