/-
What a table makes of a configuration.

Every field of a configuration has one name in a table, and takes values of one kind there:
that is its schema. A field after a table is what the table has under that name, in its type,
and as it was if there is nothing (`Config.after`). A section is laid over its record in the
same way, so that it can be partial, or missing. Reading a table checks the configuration that
so comes of the defaults, if everything in the table fits, and fails otherwise
(`ofTable_eq`).
-/
import Servo.Config.Table
import Servo.Proofs.Config.Section
import Servo.Proofs.Duration
import Servo.Proofs.Toml.Document

namespace Servo

open Toml Toml.Value

-- ================================================================= keys

namespace Section

variable {σ : Type} {after : Table → σ → σ} {P : Value → Prop} {name : String}

/-- A key for a span reads an integer of microseconds, whatever the record was. -/
theorem reads_span {get : σ → Duration} {set : Duration → σ → σ}
    (h : ∀ n record, after [(name, .integer n)] record
      = set (.ofMicroseconds (.ofNat n.toNat)) record) :
    Reads P after (.span name get set) (name, isInteger 0 (UInt64.size - 1)) :=
  reads_word h fun record => (get record).microseconds.toNat_lt

/-- A key for a mapping reads a list of integers, each of them an entry. -/
theorem reads_entries {get : σ → List Pdo.Entry} {set : List Pdo.Entry → σ → σ}
    (h : ∀ items record, after [(name, .array items)] record
      = set ((items.map (word id · 0)).map fun n => ⟨.ofNat n⟩) record) :
    Reads P after (.entries name get set) (name, isIntegers 0 (UInt32.size - 1)) := by
  refine reads_words h fun record n hn => ?_
  obtain ⟨e, -, rfl⟩ := List.mem_map.1 hn
  exact e.raw.toNat_lt

end Section

/-- A number of microseconds in place of a span of time. -/
def Toml.Value.span : Value → Duration → Duration := word fun n => .ofMicroseconds (.ofNat n)

/-- A span of whole microseconds is read back as it was written. -/
theorem Toml.Value.span_microseconds {d : Duration} (h : d.Whole) (base : Duration) :
    span (.integer d.microseconds.toNat) base = d := by
  unfold span
  rw [word_integer, Int.toNat_natCast, UInt64.ofNat_toNat, Duration.ofMicroseconds_microseconds h]

/-- A list of words in place of the entries of a mapping. -/
def Toml.Value.entries : Value → List Pdo.Entry → List Pdo.Entry :=
  words fun ns => ns.map fun n => ⟨.ofNat n⟩

-- =========================================================== parameters

namespace DriveParameters

def schema : Schema :=
  [("rated_current", isInteger 0 (UInt32.size - 1)),
   ("max_torque", isInteger 0 (UInt16.size - 1)),
   ("torque_slope", isInteger 0 (UInt32.size - 1)),
   ("interpolation_period", isInteger 0 (UInt8.size - 1)),
   ("interpolation_index", isInteger (-128) 127),
   ("encoder_increments", isInteger 0 (UInt32.size - 1)),
   ("gear_ratio", isInteger 0 (UInt32.size - 1))]

/-- The parameters after a section. -/
def after (t : Table) (p : DriveParameters) : DriveParameters where
  ratedCurrent := given t "rated_current" (word .ofNat) p.ratedCurrent
  maxTorque := given t "max_torque" (word .ofNat) p.maxTorque
  torqueSlope := given t "torque_slope" (word .ofNat) p.torqueSlope
  interpolationPeriod := given t "interpolation_period" (word .ofNat) p.interpolationPeriod
  interpolationIndex := given t "interpolation_index" (number .ofInt) p.interpolationIndex
  encoderIncrements := given t "encoder_increments" (word .ofNat) p.encoderIncrements
  gearRatio := given t "gear_ratio" (word .ofNat) p.gearRatio

theorem describes : Section.Describes (fun _ => True) keys schema after where
  distinct := by decide
  rows := by
    refine .cons (Section.reads_word ?_ fun _ => UInt32.toNat_lt _) <|
      .cons (Section.reads_word ?_ fun _ => UInt16.toNat_lt _) <|
      .cons (Section.reads_word ?_ fun _ => UInt32.toNat_lt _) <|
      .cons (Section.reads_word ?_ fun _ => UInt8.toNat_lt _) <|
      .cons (Section.reads_number ?_ fun _ => ⟨Int8.le_toInt _, Int8.toInt_le _⟩) <|
      .cons (Section.reads_word ?_ fun _ => UInt32.toNat_lt _) <|
      .cons (Section.reads_word ?_ fun _ => UInt32.toNat_lt _) .nil
    all_goals
      intro n p
      simp [after]
  nil _ := rfl
  cons e t p h := by
    unfold after
    simp only [given_rest h]
  perm s s' _ hperm h := by
    unfold after
    simp only [given_perm hperm h]

/-- The parameters are read back from the table that they are written to. -/
theorem after_toTable (p base : DriveParameters) : after (Section.toTable keys p) base = p := by
  simp [after, Section.toTable, keys, Key.word, Key.number]

end DriveParameters

-- ============================================================= mappings

namespace MappingConfig

def schema : Schema :=
  [("keep_defaults", isTruth),
   ("rx_index", isInteger 0 (UInt16.size - 1)),
   ("rx_assign", isInteger 0 (UInt16.size - 1)),
   ("tx_index", isInteger 0 (UInt16.size - 1)),
   ("tx_assign", isInteger 0 (UInt16.size - 1)),
   ("rx", isIntegers 0 (UInt32.size - 1)),
   ("tx", isIntegers 0 (UInt32.size - 1))]

/-- The mappings after a section. -/
def after (t : Table) (m : MappingConfig) : MappingConfig where
  keepDefaults := given t "keep_defaults" truth m.keepDefaults
  rxIndex := given t "rx_index" (word .ofNat) m.rxIndex
  rxAssign := given t "rx_assign" (word .ofNat) m.rxAssign
  txIndex := given t "tx_index" (word .ofNat) m.txIndex
  txAssign := given t "tx_assign" (word .ofNat) m.txAssign
  rx := given t "rx" entries m.rx
  tx := given t "tx" entries m.tx

theorem describes : Section.Describes (fun _ => True) keys schema after where
  distinct := by decide
  rows := by
    refine .cons (Section.reads_truth ?_) <|
      .cons (Section.reads_word ?_ fun _ => UInt16.toNat_lt _) <|
      .cons (Section.reads_word ?_ fun _ => UInt16.toNat_lt _) <|
      .cons (Section.reads_word ?_ fun _ => UInt16.toNat_lt _) <|
      .cons (Section.reads_word ?_ fun _ => UInt16.toNat_lt _) <|
      .cons (Section.reads_entries ?_) <|
      .cons (Section.reads_entries ?_) .nil
    all_goals
      intro n m
      simp [after, entries]
  nil _ := rfl
  cons e t m h := by
    unfold after
    simp only [given_rest h]
  perm s s' _ hperm h := by
    unfold after
    simp only [given_perm hperm h]

/-- So are the mappings. -/
theorem after_toTable (m base : MappingConfig) : after (Section.toTable keys m) base = m := by
  simp [after, Section.toTable, keys, Key.word, Key.number, Key.truth, Key.entries, Key.words,
    entries, Function.comp_def]

end MappingConfig

-- =============================================================== timing

namespace Timing

def schema : Schema :=
  [("state_attempts", isInteger 0 (UInt32.size - 1)),
   ("state_settle_us", isInteger 0 (UInt64.size - 1)),
   ("escalation_settle_us", isInteger 0 (UInt64.size - 1)),
   ("state_retry_us", isInteger 0 (UInt64.size - 1)),
   ("state_polls", isInteger 0 (UInt32.size - 1)),
   ("state_poll_interval_us", isInteger 0 (UInt64.size - 1)),
   ("parameter_settle_us", isInteger 0 (UInt64.size - 1)),
   ("mapping_step_delay_us", isInteger 0 (UInt64.size - 1)),
   ("mapping_entry_delay_us", isInteger 0 (UInt64.size - 1)),
   ("watchdog_pause_us", isInteger 0 (UInt64.size - 1)),
   ("watchdog_cycles", isInteger 0 (UInt32.size - 1)),
   ("watchdog_interval_us", isInteger 0 (UInt64.size - 1)),
   ("enable_attempts", isInteger 0 (UInt32.size - 1)),
   ("enable_interval_us", isInteger 0 (UInt64.size - 1)),
   ("master_ready_polls", isInteger 0 (UInt32.size - 1)),
   ("master_ready_interval_us", isInteger 0 (UInt64.size - 1)),
   ("cycle_period_us", isInteger 0 (UInt64.size - 1)),
   ("state_check_period", isInteger 0 (UInt32.size - 1))]

/-- The timing after a section. -/
def after (t : Table) (timing : Timing) : Timing where
  stateAttempts := given t "state_attempts" (word .ofNat) timing.stateAttempts
  stateSettle := given t "state_settle_us" span timing.stateSettle
  escalationSettle := given t "escalation_settle_us" span timing.escalationSettle
  stateRetry := given t "state_retry_us" span timing.stateRetry
  statePolls := given t "state_polls" (word .ofNat) timing.statePolls
  statePollInterval := given t "state_poll_interval_us" span timing.statePollInterval
  parameterSettle := given t "parameter_settle_us" span timing.parameterSettle
  mappingStepDelay := given t "mapping_step_delay_us" span timing.mappingStepDelay
  mappingEntryDelay := given t "mapping_entry_delay_us" span timing.mappingEntryDelay
  watchdogPause := given t "watchdog_pause_us" span timing.watchdogPause
  watchdogCycles := given t "watchdog_cycles" (word .ofNat) timing.watchdogCycles
  watchdogInterval := given t "watchdog_interval_us" span timing.watchdogInterval
  enableAttempts := given t "enable_attempts" (word .ofNat) timing.enableAttempts
  enableInterval := given t "enable_interval_us" span timing.enableInterval
  masterReadyPolls := given t "master_ready_polls" (word .ofNat) timing.masterReadyPolls
  masterReadyInterval := given t "master_ready_interval_us" span timing.masterReadyInterval
  cyclePeriod := given t "cycle_period_us" span timing.cyclePeriod
  stateCheckPeriod := given t "state_check_period" (word .ofNat) timing.stateCheckPeriod

theorem describes : Section.Describes (fun _ => True) keys schema after where
  distinct := by decide
  rows := by
    refine .cons (Section.reads_word ?_ fun _ => UInt32.toNat_lt _) <|
      .cons (Section.reads_span ?_) <|
      .cons (Section.reads_span ?_) <|
      .cons (Section.reads_span ?_) <|
      .cons (Section.reads_word ?_ fun _ => UInt32.toNat_lt _) <|
      .cons (Section.reads_span ?_) <|
      .cons (Section.reads_span ?_) <|
      .cons (Section.reads_span ?_) <|
      .cons (Section.reads_span ?_) <|
      .cons (Section.reads_span ?_) <|
      .cons (Section.reads_word ?_ fun _ => UInt32.toNat_lt _) <|
      .cons (Section.reads_span ?_) <|
      .cons (Section.reads_word ?_ fun _ => UInt32.toNat_lt _) <|
      .cons (Section.reads_span ?_) <|
      .cons (Section.reads_word ?_ fun _ => UInt32.toNat_lt _) <|
      .cons (Section.reads_span ?_) <|
      .cons (Section.reads_span ?_) <|
      .cons (Section.reads_word ?_ fun _ => UInt32.toNat_lt _) .nil
    all_goals
      intro n t
      simp [after, span]
  nil _ := rfl
  cons e t timing h := by
    unfold after
    simp only [given_rest h]
  perm s s' _ hperm h := by
    unfold after
    simp only [given_perm hperm h]

/-- The spans of time, in the order of their keys. -/
def spans (t : Timing) : List Duration :=
  [t.stateSettle, t.escalationSettle, t.stateRetry, t.statePollInterval, t.parameterSettle,
    t.mappingStepDelay, t.mappingEntryDelay, t.watchdogPause, t.watchdogInterval,
    t.enableInterval, t.masterReadyInterval, t.cyclePeriod]

/-- So is the timing, if its spans are whole microseconds. -/
theorem after_toTable {timing : Timing} (h : ∀ d ∈ timing.spans, d.Whole) (base : Timing) :
    after (Section.toTable keys timing) base = timing := by
  simp only [spans, List.forall_mem_cons] at h
  simp [after, Section.toTable, keys, Key.word, Key.number, Key.span, span_microseconds, h]

end Timing

-- ======================================================== configurations

namespace Config

def schema : Schema :=
  [("slave", isInteger 0 (UInt16.size - 1)),
   ("realtime", isTruth),
   ("min_process_bits", isInteger 0 (UInt64.size - 1)),
   ("parameters", DriveParameters.schema.takes),
   ("mapping", MappingConfig.schema.takes),
   ("timing", Timing.schema.takes)]

/-- The configuration after a table. -/
def after (t : Table) (c : Config) : Config where
  slave := given t "slave" (word .ofNat) c.slave
  realtime := given t "realtime" truth c.realtime
  minProcessBits := given t "min_process_bits" (word .ofNat) c.minProcessBits
  parameters := given t "parameters" (fun value => .after (DriveParameters.schema.entries value))
    c.parameters
  mapping := given t "mapping" (fun value => .after (MappingConfig.schema.entries value)) c.mapping
  timing := given t "timing" (fun value => .after (Timing.schema.entries value)) c.timing

theorem describes : Section.Describes Value.Proper keys schema after where
  distinct := by decide
  rows := by
    refine .cons (Section.reads_word ?_ fun _ => UInt16.toNat_lt _) <|
      .cons (Section.reads_truth ?_) <|
      .cons (Section.reads_word ?_ fun _ => UInt64.toNat_lt _) <|
      .cons (Section.reads_group DriveParameters.describes (fun s h => h s rfl) ?_) <|
      .cons (Section.reads_group MappingConfig.describes (fun s h => h s rfl) ?_) <|
      .cons (Section.reads_group Timing.describes (fun s h => h s rfl) ?_) .nil
    all_goals
      intro n c
      simp [after]
  nil _ := rfl
  cons e t c h := by
    unfold after
    simp only [given_rest h]
  perm s s' _ hperm h := by
    unfold after
    simp only [given_perm hperm h]

variable {t t' : Table} {c : Config}

/-- No order matters to a configuration. -/
theorem after_reordered (hproper : Proper t) (h : Reordered t t') (c : Config) :
    after t c = after t' c := by
  obtain ⟨hdistinct, hwithin⟩ := hproper
  obtain ⟨u, hperm, hsame⟩ := h
  have hsections (name : String) (s : Table) (hs : (name, .table s) ∈ u) : Distinct s :=
    hwithin _ (hperm.mem_iff.2 hs) s rfl
  rw [describes.perm t u c hperm hdistinct]
  unfold after
  rw [given_of_same hsame fun s s' _ _ => rfl, given_of_same hsame fun s s' _ _ => rfl,
    given_of_same hsame fun s s' _ _ => rfl,
    DriveParameters.describes.given_of_same hsame (hsections _),
    MappingConfig.describes.given_of_same hsame (hsections _),
    Timing.describes.given_of_same hsame (hsections _)]

/-- The order of the keys makes no difference to the schema. -/
theorem fits_reordered (h : Reordered t t') : schema.fits t = schema.fits t' := by
  obtain ⟨u, hperm, hsame⟩ := h
  refine (Schema.fits_perm hperm).trans (Schema.fits_of_same hsame ?_)
  simp only [schema, List.forall_mem_cons]
  exact ⟨fun _ _ _ => rfl, fun _ _ _ => rfl, fun _ _ _ => rfl, fun _ _ => Schema.fits_perm,
    fun _ _ => Schema.fits_perm, fun _ _ => Schema.fits_perm, nofun⟩

-- =============================================================== reading

/-- A proper table is read by its schema first, then key by key over the defaults, and
checked at last. -/
theorem ofTable_eq (hproper : Proper t) :
    ofTable t = if schema.fits t then (after t {}).validate.map fun _ => after t {}
      else .error .malformed := by
  have hread : overlay t {} = if schema.fits t then some (after t {}) else none :=
    describes.overlay hproper.distinct hproper.within
  unfold ofTable
  rw [hread]
  by_cases hfits : schema.fits t = true
  · rw [if_pos hfits, if_pos hfits]
    rfl
  · rw [if_neg hfits, if_neg hfits]
    rfl

-- =============================================================== writing

/-- A configuration is written with all its keys, the sections as tables of their own. -/
theorem toTable_eq (c : Config) : c.toTable =
    [("slave", .integer c.slave.toNat),
     ("realtime", .boolean c.realtime),
     ("min_process_bits", .integer c.minProcessBits.toNat),
     ("parameters", .table (Section.toTable DriveParameters.keys c.parameters)),
     ("mapping", .table (Section.toTable MappingConfig.keys c.mapping)),
     ("timing", .table (Section.toTable Timing.keys c.timing))] := rfl

/-- A configuration of whole microseconds is read back from the table that it is written to.
-/
theorem after_toTable (h : ∀ d ∈ c.timing.spans, d.Whole) (base : Config) :
    after c.toTable base = c := by
  rw [toTable_eq]
  simp [after, Schema.entries, DriveParameters.after_toTable, MappingConfig.after_toTable,
    Timing.after_toTable h]

/-- No key is written twice. -/
theorem proper_toTable (c : Config) : Proper c.toTable where
  distinct := describes.distinct_toTable
  within := by
    have hgroup {τ : Type} {subkeys : List (Key τ)} {subschema : Schema}
        {within : Table → τ → τ} (r : τ)
        (hsub : Section.Describes (fun _ => True) subkeys subschema within) :
        Value.Proper (.table (Section.toTable subkeys r)) :=
      fun s hs => Value.table.inj hs ▸ hsub.distinct_toTable
    simp only [toTable_eq, List.forall_mem_cons]
    exact ⟨nofun, nofun, nofun, hgroup _ DriveParameters.describes,
      hgroup _ MappingConfig.describes, hgroup _ Timing.describes, nofun⟩

/-- A configuration that is accepted is read back from its table. -/
theorem ofTable_toTable (hvalid : c.validate = .ok ()) (h : ∀ d ∈ c.timing.spans, d.Whole) :
    ofTable c.toTable = .ok c := by
  have hfits : schema.fits c.toTable = true := describes.fits_toTable
  rw [ofTable_eq c.proper_toTable, after_toTable h, hvalid, if_pos hfits]
  rfl

/-- A text is read as a table that has no key twice, and neither have the tables in it, or not
at all. From such a table no configuration is read if some key is not the name of a field, at
the root or in a section, or if some value is not of the type and range of its field; a section
is of its type as a table, and as an array of the values of its first fields. Otherwise the
configuration is checked that comes of the defaults when just those fields are replaced that
are there. In which order the keys stand does not matter, neither at the root nor in the
sections. A configuration that is accepted is read back from its table, if its spans of time
are whole microseconds. -/
theorem table_read :
    (∀ text : String, Toml.read? text = none → ofText text = .error .malformed)
      ∧ (∀ (text : String) (t : Table), Toml.read? text = some t →
        Proper t ∧ ofText text = ofTable t)
      ∧ (∀ t : Table, Proper t →
        ofTable t = (if schema.fits t then (after t {}).validate.map fun _ => after t {}
            else .error .malformed)
          ∧ ∀ t', Reordered t t' → ofTable t' = ofTable t)
      ∧ ∀ c : Config, c.validate = .ok () → (∀ d ∈ c.timing.spans, d.Whole) →
        ofTable c.toTable = .ok c := by
  refine ⟨fun text hread => ?_, fun text t hread => ⟨proper_of_read hread, ?_⟩,
    fun t hproper => ⟨ofTable_eq hproper, fun t' hreordered => ?_⟩, fun c => ofTable_toTable⟩
  · unfold ofText
    rw [hread]
  · unfold ofText
    rw [hread]
  · rw [ofTable_eq hproper, ofTable_eq (hproper.reordered hreordered),
      fits_reordered hreordered, after_reordered hproper hreordered]

/-- Two fields of a section, and one of the root, out of their order. -/
theorem table_read_partial :
    let t : Table := [("timing", .table [("cycle_period_us", .integer 250),
      ("state_polls", .integer 3)]), ("slave", .integer 2)]
    Proper t ∧ ofTable t = .ok
      { slave := 2, timing := { cyclePeriod := .ofMicroseconds 250, statePolls := 3 } } := by
  intro t
  have hproper : Proper t := by
    constructor
    · simp [t, Distinct]
    · simp [t, Value.Proper, Distinct]
  obtain ⟨-, -, hread, -⟩ := table_read
  exact ⟨hproper, (hread t hproper).1.trans rfl⟩

/-- Sections are not tables only: an array of a single number is one as well. -/
theorem not_malformed : ¬ ∀ t : Table, Proper t →
    (∃ value, ("parameters", value) ∈ t ∧ ∀ s, value ≠ .table s) →
      ofTable t = .error .malformed := by
  intro hall
  have hread : ofTable [("parameters", .array [.integer 5])]
      = .ok { parameters := { ratedCurrent := 5 } } := rfl
  have hproper : Proper [("parameters", .array [.integer 5])] := by
    constructor
    · simp [Distinct]
    · simp [Value.Proper]
  have hmalformed := hall _ hproper ⟨_, List.mem_cons_self, nofun⟩
  cases hread.symm.trans hmalformed

end Config

end Servo
