import WatchedBack.Library.Runs
import WatchedBack.Model.Measurements
import WatchedBack.Verification.Aggregates.Minute
import WatchedBack.Verification.Samples.Template

/-! # Measurements that a line does not carry

The insert of a line has a number for every property. Where the line carries none the number is 0,
and the aggregates take it for a measurement. -/

namespace WatchedBack

open Fallible NullAggregates Grouping

/-! ### What a line measures -/

section measured

variable (types : String → PropertyType) (definition : Json)

/-- The number that the line carries for a property, as the column keeps it. -/
def Json.measured (line : Json) (col : String) : Option ℚ :=
  if (line.carried col).isSome then some ((types col).stored (line.floatAt col)) else none

/-- The time that the row of the line is stored under. -/
def Json.storedTime (line definition : Json) : ℚ :=
  (Column.ofRat (if "timestamp" ∈ definition.keys then line.floatAt "timestamp" else 0)).toRat

/-- The minute of the line. -/
def Json.minute (line definition : Json) : ℤ := ⌊line.storedTime definition / (60000 : ℕ)⌋

/-- The aggregates of the lines of a minute that carry the column. -/
def measuredIn (lines : List Json) (col : String) (minute : ℤ) : Aggregate ℚ :=
  Aggregate.ofValues (((lines.filter fun l => l.minute definition = minute).filterMap
    fun l => l.measured types col).map some)

/-- Whatever the aggregator makes of the rows has the aggregates of what was measured. -/
def AggregatesMeasured (cfg : AggregData) (lines : List Json) (rows : List (Sample String))
    (col : String) : Prop :=
  ∀ now am r, r ∈ createAm cfg now rows ∨ r ∈ baseAm cfg now am rows →
    r.columns col = measuredIn types definition lines col (r.bucket 60000)

/-- The last line before that is stored under the same time. -/
def lastOfTime (before : List Json) (time : ℚ) : Option Json :=
  before.reverse.find? fun l => l.storedTime definition = time

/-- The first line of a time carries the column; any other one does not, and the column has 0 then. -/
def CarriesOnce (before : List Json) (line : Json) (col : String) : Prop :=
  match lastOfTime definition before (line.storedTime definition) with
  | none => (line.carried col).isSome = true
  | some l => line.carried col = none ∧ (types col).stored (l.floatAt col) = 0

end measured

section lines

variable {types : String → PropertyType} {definition line : Json} {col : String}

@[simp] theorem stored_zero (type : PropertyType) : type.stored 0 = 0 := by
  cases type with
  | number => norm_num [PropertyType.stored, Column.ofRat, Column.toRat]
  | integer => norm_num [PropertyType.stored]

/-- Where a line carries nothing, the insert has 0. -/
theorem floatAt_of_not_carried (h : line.carried col = none) (hline : line.IsContainer) :
    line.floatAt col = 0 := by
  obtain ⟨v, hv⟩ := Json.member_succeeds_iff.mpr hline
  rw [Json.carried_of_member hv] at h
  cases v with
  | null =>
      rw [Json.floatAt, hv]
      rfl
  | _ => simp [Json.isNull] at h

theorem measured_of_carried (h : (line.carried col).isSome = true) :
    line.measured types col = some ((types col).stored (line.floatAt col)) :=
  if_pos h

end lines

/-! ### The rows of a run -/

section rows

variable {types : String → PropertyType} {c : RessourceClient} {definition line : Json} {col : String}
  {d : List (Sample String)} {lines : List Json}

/-- The row of a line. -/
def lineRow (types : String → PropertyType) (c : RessourceClient) (definition line : Json) :
    Sample String :=
  (ownInsert c definition.keys line.floatAt).row types

/-- The table after the insert of a line. -/
def storeLine (types : String → PropertyType) (c : RessourceClient) (definition : Json)
    (d : List (Sample String)) (line : Json) : List (Sample String) :=
  storeInsert types d (ownInsert c definition.keys line.floatAt)

theorem lineRow_columns (hcol : col ∈ definition.keys) :
    (lineRow types c definition line).columns col =
      some ((types col).stored (line.floatAt col)) := by
  have hlookup := lookup_map_self (fun k => some (line.floatAt k)) definition.keys col
  rw [if_pos hcol] at hlookup
  simp only [lineRow, SampleInsert.row, ownInsert, hlookup]
  rfl

theorem lineRow_timestamp :
    (lineRow types c definition line).timestamp = line.storedTime definition := by
  have hlookup := lookup_map_self (fun k => some (line.floatAt k)) definition.keys "timestamp"
  simp only [lineRow, SampleInsert.row, ownInsert, hlookup, Json.storedTime]
  split <;> rfl

theorem lineRow_key :
    (lineRow types c definition line).key = ((c.hostId, c.resId), line.storedTime definition) := by
  have htime : (lineRow types c definition line).timestamp = line.storedTime definition :=
    lineRow_timestamp
  rw [← htime]
  rfl

theorem updateRow_columns {r : Sample String} (hcol : col ∈ definition.keys)
    (hts : col ≠ "timestamp") :
    ((ownInsert c definition.keys line.floatAt).updateRow types r).columns col =
      some ((types col).stored (line.floatAt col)) := by
  have hmem : col ∈ definition.keys.filter fun k => k ≠ "timestamp" := by
    simp [List.mem_filter, hcol, hts]
  have hlookup := lookup_map_self (fun k => some (line.floatAt k))
    (definition.keys.filter fun k => k ≠ "timestamp") col
  rw [if_pos hmem] at hlookup
  simp only [SampleInsert.updateRow, ownInsert, hlookup]
  rfl

/-- The table after the lines: one row for each time, with the values of the last line of that
time. -/
structure Tabulates (types : String → PropertyType) (c : RessourceClient) (definition : Json)
    (col : String) (lines : List Json) (d : List (Sample String)) : Prop where
  nodup : (d.map Row.key).Nodup
  res : ∀ r ∈ d, r.res = (c.hostId, c.resId)
  last : ∀ r ∈ d, ∃ l, lastOfTime definition lines r.timestamp = some l ∧
    r.columns col = some ((types col).stored (l.floatAt col))
  stored : ∀ l ∈ lines, ∃ r ∈ d, r.timestamp = l.storedTime definition

/-- The values of a column in a minute. -/
def columnIn (d : List (Sample String)) (col : String) (minute : ℤ) : List (Option ℚ) :=
  (d.filter fun r => r.bucket 60000 = minute).map fun r => r.columns col

theorem lastOfTime_concat (lines : List Json) (line : Json) (time : ℚ) :
    lastOfTime definition (lines ++ [line]) time =
      if line.storedTime definition = time then some line else lastOfTime definition lines time := by
  rw [lastOfTime, List.reverse_concat, List.find?_cons]
  by_cases h : line.storedTime definition = time <;> simp [h, lastOfTime]

theorem lastOfTime_eq_none {time : ℚ} :
    lastOfTime definition lines time = none ↔ ∀ l ∈ lines, l.storedTime definition ≠ time := by
  simp [lastOfTime, List.find?_eq_none]

theorem Tabulates.nil : Tabulates types c definition col [] [] :=
  ⟨by simp, by simp, by simp, by simp⟩

/-- A row of the table has the time of a line, and the key of its time. -/
theorem Tabulates.key (h : Tabulates types c definition col lines d) {r : Sample String}
    (hr : r ∈ d) : r.key = ((c.hostId, c.resId), r.timestamp) := by
  rw [Row.key, h.res r hr]

theorem Tabulates.mem_keys_iff (h : Tabulates types c definition col lines d) (line : Json) :
    (lineRow types c definition line).key ∈ d.map Row.key ↔
      ∃ r ∈ d, r.timestamp = line.storedTime definition := by
  rw [List.mem_map, lineRow_key]
  apply exists_congr
  intro r
  apply and_congr_right
  intro hr
  rw [h.key hr, Prod.mk.injEq, and_iff_right rfl]

theorem key_ne_of_mem {l₁ l₂ : List (Sample String)} {r q : Sample String}
    (h : ((l₁ ++ r :: l₂).map Row.key).Nodup) (hq : q ∈ l₁ ++ l₂) : q.key ≠ r.key := by
  rw [List.map_append, List.map_cons, List.nodup_middle, ← List.map_append, List.nodup_cons] at h
  intro heq
  exact h.1 (heq ▸ List.mem_map_of_mem hq)

/-- A line under a new time. -/
theorem Tabulates.append (h : Tabulates types c definition col lines d) (hcol : col ∈ definition.keys)
    (hnew : (lineRow types c definition line).key ∉ d.map Row.key) :
    Tabulates types c definition col (lines ++ [line]) (d ++ [lineRow types c definition line]) where
  nodup := by
    rw [List.map_append, List.nodup_append]
    refine ⟨h.nodup, List.nodup_singleton _, ?_⟩
    intro k hk k' hk' heq
    rw [List.mem_singleton.mp hk'] at heq
    exact hnew (heq ▸ hk)
  res r hr := by
    rcases List.mem_append.mp hr with hr | hr
    · exact h.res r hr
    · rw [List.mem_singleton.mp hr]
      rfl
  last r hr := by
    rw [lastOfTime_concat]
    rcases List.mem_append.mp hr with hr | hr
    · have hne : line.storedTime definition ≠ r.timestamp := fun heq =>
        hnew ((h.mem_keys_iff line).mpr ⟨r, hr, heq.symm⟩)
      rw [if_neg hne]
      exact h.last r hr
    · rw [List.mem_singleton.mp hr, if_pos lineRow_timestamp.symm]
      exact ⟨line, rfl, lineRow_columns hcol⟩
  stored l hl := by
    rcases List.mem_append.mp hl with hl | hl
    · obtain ⟨r, hr, hts⟩ := h.stored l hl
      exact ⟨r, List.mem_append_left _ hr, hts⟩
    · rw [List.mem_singleton.mp hl]
      exact ⟨_, List.mem_append_right _ (List.mem_singleton_self _), lineRow_timestamp⟩

/-- A line under a time of the table. -/
theorem Tabulates.replace {l₁ l₂ : List (Sample String)} {r r' : Sample String}
    (h : Tabulates types c definition col lines (l₁ ++ r :: l₂))
    (hr : r.timestamp = line.storedTime definition) (hkey : r'.key = r.key)
    (hcolumns : r'.columns col = some ((types col).stored (line.floatAt col))) :
    Tabulates types c definition col (lines ++ [line]) (l₁ ++ r' :: l₂) := by
  have hkeys : (l₁ ++ r' :: l₂).map Row.key = (l₁ ++ r :: l₂).map Row.key := by
    simp [hkey]
  obtain ⟨hres, hts⟩ := Prod.mk.inj hkey
  have hold (q : Sample String) (hq : q ∈ l₁ ++ l₂) : q ∈ l₁ ++ r :: l₂ := by
    simp only [List.mem_append, List.mem_cons] at hq ⊢
    tauto
  -- the other rows have other times
  have hothers (q : Sample String) (hq : q ∈ l₁ ++ l₂) : q.timestamp ≠ r.timestamp := by
    intro heq
    apply key_ne_of_mem h.nodup hq
    rw [h.key (hold q hq), h.key (by simp), heq]
  have hmem (q : Sample String) : q ∈ l₁ ++ r' :: l₂ ↔ q = r' ∨ q ∈ l₁ ++ l₂ := by
    simp only [List.mem_append, List.mem_cons]
    tauto
  constructor
  · rw [hkeys]
    exact h.nodup
  · intro q hq
    rcases (hmem q).mp hq with rfl | hq
    · rw [hres]
      exact h.res r (by simp)
    · exact h.res q (hold q hq)
  · intro q hq
    rw [lastOfTime_concat]
    rcases (hmem q).mp hq with rfl | hq
    · rw [if_pos (hr.symm.trans hts.symm)]
      exact ⟨line, rfl, hcolumns⟩
    · rw [if_neg fun heq => hothers q hq (heq.symm.trans hr.symm)]
      exact h.last q (hold q hq)
  · intro l hl
    rcases List.mem_append.mp hl with hl | hl
    · obtain ⟨q, hq, hqts⟩ := h.stored l hl
      by_cases heq : q.timestamp = r.timestamp
      · exact ⟨r', by simp, by rw [hts, ← heq, hqts]⟩
      · refine ⟨q, (hmem q).mpr (Or.inr ?_), hqts⟩
        simp only [List.mem_append, List.mem_cons] at hq ⊢
        rcases hq with hq | rfl | hq
        · exact Or.inl hq
        · exact absurd rfl heq
        · exact Or.inr hq
    · rw [List.mem_singleton.mp hl]
      exact ⟨r', by simp, by rw [hts, hr]⟩

/-- What the insert of a line does to the table. -/
inductive StoreStep (types : String → PropertyType) (c : RessourceClient) (definition : Json)
    (col : String) (lines : List Json) (line : Json) :
    List (Sample String) → List (Sample String) → Prop
  | added (d : List (Sample String))
      (hnone : lastOfTime definition lines (line.storedTime definition) = none)
      (hnew : (lineRow types c definition line).key ∉ d.map Row.key) :
      StoreStep types c definition col lines line d (d ++ [lineRow types c definition line])
  | replaced (l₁ l₂ : List (Sample String)) (r r' : Sample String) (l : Json)
      (hlast : lastOfTime definition lines (line.storedTime definition) = some l)
      (htime : r.timestamp = line.storedTime definition) (hkey : r'.key = r.key)
      (hold : r.columns col = some ((types col).stored (l.floatAt col)))
      (hnew : r'.columns col = some ((types col).stored (line.floatAt col))) :
      StoreStep types c definition col lines line (l₁ ++ r :: l₂) (l₁ ++ r' :: l₂)

theorem Tabulates.storeLine_cases (h : Tabulates types c definition col lines d)
    (hcol : col ∈ definition.keys) (hts : col ≠ "timestamp") (line : Json) :
    StoreStep types c definition col lines line d (storeLine types c definition d line) := by
  by_cases hmem : (lineRow types c definition line).key ∈ d.map Row.key
  · obtain ⟨r, hr, htime⟩ := (h.mem_keys_iff line).mp hmem
    obtain ⟨l, hl, hcolumns⟩ := h.last r hr
    have hkey : r.key = (lineRow types c definition line).key := by
      rw [h.key hr, lineRow_key, htime]
    obtain ⟨l₁, l₂, rfl⟩ := List.append_of_mem hr
    let stmt := ownInsert c definition.keys line.floatAt
    let f : Sample String → Sample String := fun q =>
      if q.key = (stmt.row types).key then stmt.updateRow types q else q
    -- the other rows stay
    have hstay (rows : List (Sample String)) (hrows : ∀ q ∈ rows, q ∈ l₁ ++ l₂) :
        rows.map f = rows := by
      rw [← List.map_id rows, List.map_map]
      apply List.map_congr_left
      intro q hq
      exact if_neg fun heq => key_ne_of_mem h.nodup (hrows q hq) (heq.trans hkey.symm)
    have hstore : storeLine types c definition (l₁ ++ r :: l₂) line =
        l₁ ++ stmt.updateRow types r :: l₂ := by
      have hmap : storeLine types c definition (l₁ ++ r :: l₂) line = (l₁ ++ r :: l₂).map f :=
        if_pos (List.mem_map.mp hmem)
      have hr' : f r = stmt.updateRow types r := if_pos hkey
      rw [hmap, List.map_append, List.map_cons, hr',
        hstay l₁ fun q hq => List.mem_append_left _ hq,
        hstay l₂ fun q hq => List.mem_append_right _ hq]
    rw [hstore]
    exact StoreStep.replaced l₁ l₂ r _ l (htime ▸ hl) htime rfl hcolumns (updateRow_columns hcol hts)
  · have hstore : storeLine types c definition d line = d ++ [lineRow types c definition line] :=
      if_neg fun hstored => hmem (List.mem_map.mpr hstored)
    rw [hstore]
    apply StoreStep.added d _ hmem
    rw [lastOfTime_eq_none]
    intro l hl heq
    obtain ⟨r, hr, hrl⟩ := h.stored l hl
    exact hmem ((h.mem_keys_iff line).mpr ⟨r, hr, hrl.trans heq⟩)

theorem Tabulates.storeLine (h : Tabulates types c definition col lines d)
    (hcol : col ∈ definition.keys) (hts : col ≠ "timestamp") (line : Json) :
    Tabulates types c definition col (lines ++ [line]) (storeLine types c definition d line) := by
  have hcases := h.storeLine_cases hcol hts line
  generalize WatchedBack.storeLine types c definition d line = d' at hcases ⊢
  cases hcases with
  | added d hnone hnew => exact h.append hcol hnew
  | replaced l₁ l₂ r r' l hlast htime hkey hold hnew => exact h.replace htime hkey hnew

/-! ### Aggregates of the rows -/

/-- The aggregates are asked for where the table has rows, and everywhere else nothing was
measured. -/
theorem Tabulates.aggregatesMeasured_iff (h : Tabulates types c definition col lines d)
    (cfg : AggregData) :
    AggregatesMeasured types definition cfg lines d col ↔
      ∀ minute, Aggregate.ofValues (columnIn d col minute) =
        measuredIn types definition lines col minute := by
  have hrow (r : Sample String) (hr : r ∈ d) :
      (bucketRow 60000 colm d r.res (r.bucket 60000)).columns col =
        Aggregate.ofValues (columnIn d col (r.bucket 60000)) := by
    have hgroup : group (fun r : Sample String => (r.res, r.bucket 60000)) (r.res, r.bucket 60000) d =
        d.filter fun q => q.bucket 60000 = r.bucket 60000 := by
      apply List.filter_congr
      intro q hq
      simp [h.res q hq, h.res r hr]
    rw [columnIn, ← hgroup]
    rfl
  constructor
  · intro hmeasured minute
    by_cases hsome : ∃ r ∈ d, r.bucket 60000 = minute
    · obtain ⟨r, hr, rfl⟩ := hsome
      rw [← hrow r hr]
      have hbucket : (bucketRow 60000 colm d r.res (r.bucket 60000)).bucket 60000 = r.bucket 60000 :=
        bucketRow_bucket (by decide) _ _
      -- the clock of a create that comes to the row
      let now := 60 * ((r.bucket 60000).toNat + 1 + cfg.delayAm)
      have hcutoff : r.bucket 60000 < cutoff now 60 cfg.delayAm := by
        unfold cutoff
        rw [Nat.mul_div_cancel_left _ (by decide)]
        omega
      have hmem : bucketRow 60000 colm d r.res (r.bucket 60000) ∈ createAm cfg now d :=
        mem_createSelect.mpr ⟨r, hr, hcutoff, rfl⟩
      rw [hmeasured now [] _ (Or.inl hmem), hbucket]
    · have hrows : d.filter (fun r => r.bucket 60000 = minute) = [] := by
        rw [List.filter_eq_nil_iff]
        intro r hr
        simpa using fun heq => hsome ⟨r, hr, heq⟩
      have hlines : lines.filter (fun l => l.minute definition = minute) = [] := by
        rw [List.filter_eq_nil_iff]
        intro l hl
        obtain ⟨r, hr, htime⟩ := h.stored l hl
        have hminute : r.bucket 60000 = l.minute definition := by
          rw [Row.bucket, htime]
          rfl
        simpa using fun heq => hsome ⟨r, hr, hminute.trans heq⟩
      rw [columnIn, measuredIn, hrows, hlines]
      rfl
  · intro hall now am r hr
    obtain ⟨q, hq, rfl⟩ : ∃ q ∈ d, r = bucketRow 60000 colm d q.res (q.bucket 60000) := by
      rcases hr with hr | hr
      · obtain ⟨q, hq, -, heq⟩ := mem_createSelect.mp hr
        exact ⟨q, hq, heq⟩
      · obtain ⟨q, hq, -, -, heq⟩ := mem_baseSelect.mp hr
        exact ⟨q, hq, heq⟩
    rw [hrow q hq, hall, bucketRow_bucket (by decide)]

theorem columnIn_append (d d' : List (Sample String)) (minute : ℤ) :
    columnIn (d ++ d') col minute = columnIn d col minute ++ columnIn d' col minute := by
  simp [columnIn]

theorem columnIn_cons (r : Sample String) (d : List (Sample String)) (minute : ℤ) :
    columnIn (r :: d) col minute =
      if r.bucket 60000 = minute then r.columns col :: columnIn d col minute
      else columnIn d col minute := by
  by_cases h : r.bucket 60000 = minute <;> simp [columnIn, h]

theorem measuredIn_concat (minute : ℤ) :
    measuredIn types definition (lines ++ [line]) col minute =
      Aggregate.ofValues ((lines.filter fun l => l.minute definition = minute).map
          (fun l => l.measured types col) ++
        if line.minute definition = minute then [line.measured types col] else []) := by
  rw [measuredIn, Aggregate.ofValues_map_some_filterMap, List.filter_append, List.map_append]
  by_cases h : line.minute definition = minute <;> simp [h]

/-- What a further line does to the aggregates of a column. -/
theorem Tabulates.measured_step (h : Tabulates types c definition col lines d)
    (hcol : col ∈ definition.keys) (hts : col ≠ "timestamp") (hline : line.IsContainer)
    (hmeasured : ∀ minute, Aggregate.ofValues (columnIn d col minute) =
      measuredIn types definition lines col minute) :
    (∀ minute, Aggregate.ofValues (columnIn (WatchedBack.storeLine types c definition d line) col minute) =
        measuredIn types definition (lines ++ [line]) col minute) ↔
      CarriesOnce types definition lines line col := by
  have hcases := h.storeLine_cases hcol hts line
  generalize WatchedBack.storeLine types c definition d line = d' at hcases ⊢
  simp only [measuredIn, Aggregate.ofValues_map_some_filterMap] at hmeasured
  simp only [measuredIn_concat]
  have hcount := Aggregate.count_eq_of_ofValues (hmeasured (line.minute definition))
  cases hcases with
  | added d hnone hnew =>
      have hbucket : (lineRow types c definition line).bucket 60000 = line.minute definition := by
        rw [Row.bucket, lineRow_timestamp]
        rfl
      rw [CarriesOnce, hnone]
      dsimp only
      simp only [columnIn_append, columnIn_cons, hbucket, lineRow_columns hcol]
      constructor
      · intro hnext
        by_contra hnot
        have hnext := Aggregate.count_eq_of_ofValues (hnext (line.minute definition))
        have hmiss : line.measured types col = none := if_neg hnot
        simp only [if_true, hmiss, columnIn, List.filter_nil, List.map_nil] at hnext hcount
        simp [count, List.countP_append] at hnext hcount
        omega
      · intro hcarried minute
        rw [measured_of_carried hcarried]
        exact Aggregate.ofValues_append_congr (hmeasured minute) _
  | replaced l₁ l₂ r r' l hlast htime hkey hold hnew =>
      have hbucket : r.bucket 60000 = line.minute definition := by
        rw [Row.bucket, htime]
        rfl
      have hbucket' : r'.bucket 60000 = line.minute definition := by
        rw [Row.bucket, (Prod.mk.inj hkey).2]
        exact hbucket
      rw [CarriesOnce, hlast]
      dsimp only
      simp only [columnIn_append, columnIn_cons, hbucket, hbucket', hold, hnew] at hmeasured hcount ⊢
      constructor
      · intro hnext
        have hnext := hnext (line.minute definition)
        have hnow := hmeasured (line.minute definition)
        simp only [if_true] at hnext hnow hcount
        have hnone : line.carried col = none := by
          by_contra hcarried
          have hmore := Aggregate.count_eq_of_ofValues hnext
          rw [measured_of_carried (Option.isSome_iff_ne_none.mpr hcarried)] at hmore
          simp [count, List.countP_append] at hmore hcount
          omega
        have hmiss : line.measured types col = none := by
          simp [Json.measured, hnone]
        rw [hmiss, Aggregate.ofValues_append_none, ← hnow, Aggregate.ofValues_replace_iff,
          floatAt_of_not_carried hnone hline, stored_zero] at hnext
        exact ⟨hnone, hnext.symm⟩
      · rintro ⟨hnone, hzero⟩ minute
        have hmiss : line.measured types col = none := by
          simp [Json.measured, hnone]
        have hnow := hmeasured minute
        rw [hzero] at hnow
        rw [floatAt_of_not_carried hnone hline, stored_zero, hmiss, hnow]
        by_cases hm : line.minute definition = minute
        · rw [if_pos hm, Aggregate.ofValues_append_none]
        · rw [if_neg hm, List.append_nil]

end rows

/-! ### Runs -/

section runs

variable {types : String → PropertyType} {c : RessourceClient} {definition line : Json} {col : String}
  {answers : ℕ → Answer} {s s' : ParseState}

/-- A line that is handled adds the insert of its own values. -/
theorem rows_of_parseLine (hline : line.Numeric)
    (h : parseLine (c.updateDefs definition) answers line s = .ok s') :
    s'.rows types = storeLine types c definition (s.rows types) line := by
  obtain ⟨closed, hinserts, h⟩ := storeSample_of_parseLine h
  have hread (k : String) (_ : k ∈ definition.keys) : Succeeds (line.member k >>= Json.asFloat) :=
    Json.timestamp_succeeds_iff.mpr (hline k)
  rw [storeSample_eq_ownInsert hread] at h
  cases h
  simp only [ParseState.rows, hinserts, List.foldl_append, List.foldl_cons, List.foldl_nil]
  rfl

/-- Lines of numbers are all handled, and the table has their last values. -/
theorem exists_tabulates (answers : ℕ → Answer) (m : EventMap) (db : Database)
    (hcol : col ∈ definition.keys) (hts : col ≠ "timestamp") {lines : List Json}
    (hlines : ∀ l ∈ lines, l.IsSample) :
    ∃ s, parseLines (c.updateDefs definition) answers (.start m db) lines = .ok s ∧
      Tabulates types c definition col lines (s.rows types) := by
  induction lines using List.reverseRecOn with
  | nil => exact ⟨_, rfl, Tabulates.nil⟩
  | append_singleton lines line ih =>
      obtain ⟨s, hs, htab⟩ := ih fun l hl => hlines l (List.mem_append_left _ hl)
      have hline : line.Numeric := (hlines line (by simp)).numeric
      obtain ⟨s', hs'⟩ : Succeeds (parseLine (c.updateDefs definition) answers line s) :=
        parseLine_of_numeric hline
      refine ⟨s', foldlM_append_eq_ok.mpr ⟨s, hs, foldlM_cons_eq_ok.mpr ⟨s', hs', rfl⟩⟩, ?_⟩
      rw [rows_of_parseLine hline hs']
      exact htab.storeLine hcol hts line

/-- After each line the aggregates of a column are those of what was measured, exactly if the first
line of every time carries the column, and a further line of that time carries nothing over a 0. -/
theorem aggregates_measured_iff (types : String → PropertyType) (c : RessourceClient)
    (definition : Json) (answers : ℕ → Answer) (m : EventMap) (db : Database) (cfg : AggregData)
    (lines : List Json) (hlines : ∀ l ∈ lines, l.IsSample) (col : String)
    (hcol : col ∈ definition.keys) (hts : col ≠ "timestamp") :
    (∀ before after, lines = before ++ after →
      ∃ s, parseLines (c.updateDefs definition) answers (.start m db) before = .ok s ∧
        AggregatesMeasured types definition cfg before (s.rows types) col) ↔
      ∀ before line after, lines = before ++ line :: after →
        CarriesOnce types definition before line col := by
  let Measured : List Json → Prop := fun before =>
    ∃ s, parseLines (c.updateDefs definition) answers (.start m db) before = .ok s ∧
      AggregatesMeasured types definition cfg before (s.rows types) col
  have hstep (before : List Json) (line : Json) (hbefore : ∀ l ∈ before, l.IsSample)
      (hline : line.IsSample) (hP : Measured before) :
      Measured (before ++ [line]) ↔ CarriesOnce types definition before line col := by
    obtain ⟨s, hs, htab⟩ := exists_tabulates answers m db hcol hts hbefore
    obtain ⟨s₀, hs₀, hmeasured⟩ := hP
    rw [hs] at hs₀
    cases hs₀
    obtain ⟨s', hs'⟩ : Succeeds (parseLine (c.updateDefs definition) answers line s) :=
      parseLine_of_numeric hline.numeric
    have hrun : parseLines (c.updateDefs definition) answers (.start m db) (before ++ [line]) =
        .ok s' := foldlM_append_eq_ok.mpr ⟨s, hs, foldlM_cons_eq_ok.mpr ⟨s', hs', rfl⟩⟩
    rw [← htab.measured_step hcol hts hline.numeric.isContainer
      ((htab.aggregatesMeasured_iff cfg).mp hmeasured), ← rows_of_parseLine hline.numeric hs']
    have htab' : Tabulates types c definition col (before ++ [line]) (s'.rows types) := by
      rw [rows_of_parseLine hline.numeric hs']
      exact htab.storeLine hcol hts line
    rw [← htab'.aggregatesMeasured_iff cfg]
    constructor
    · rintro ⟨s₁, hs₁, hnext⟩
      rw [hrun] at hs₁
      cases hs₁
      exact hnext
    · intro hnext
      exact ⟨s', hrun, hnext⟩
  have hempty : Tabulates types c definition col [] [] := Tabulates.nil
  have hnil : Measured [] := ⟨_, rfl, (hempty.aggregatesMeasured_iff cfg).mpr fun _ => rfl⟩
  have hall : Runs.EachStep (fun ls l => ls ++ [l]) (fun _ l => Json.IsSample l) [] lines := by
    intro before line after heq
    exact hlines line (by simp [heq])
  have hruns := Runs.always_iff_eachStep_of (f := fun ls l => ls ++ [l])
    (fun ls => ∀ l ∈ ls, Json.IsSample l) (fun _ l => Json.IsSample l)
    (fun ls l hls hl => by simpa [or_imp, forall_and] using ⟨hls, hl⟩)
    (fun ls l hls hl hP => hstep ls l hls hl hP) (by simp) hnil hall
  simpa only [Runs.Always, Runs.EachStep, Runs.foldl_concat, List.nil_append] using hruns

theorem aggregates_measured_iff_disk :
    ∃ s, parseLines (diskClient.updateDefs diskDefinition) countedIds (.start ∅ emptyDatabase)
        [diskLine 60000 10, diskLine 61000 30] = .ok s ∧
      AggregatesMeasured (fun _ => .number) diskDefinition unitDelays
        [diskLine 60000 10, diskLine 61000 30] (s.rows fun _ => .number) "pctfree" := by
  refine (aggregates_measured_iff (fun _ => .number) diskClient diskDefinition countedIds ∅
    emptyDatabase unitDelays [diskLine 60000 10, diskLine 61000 30] (by simp [diskLine_isSample])
    "pctfree" (by decide) (by decide)).mpr ?_ _ [] (by simp)
  have hfirst (before : List Json) (line : Json)
      (hnone : (lastOfTime diskDefinition before (line.storedTime diskDefinition)).isNone = true)
      (hcarried : (line.carried "pctfree").isSome = true) :
      CarriesOnce (fun _ => .number) diskDefinition before line "pctfree" := by
    rw [CarriesOnce, Option.isNone_iff_eq_none.mp hnone]
    exact hcarried
  intro before line after heq
  rcases List.cons_eq_append_iff.mp heq with ⟨rfl, hhead⟩ | ⟨rest, rfl, htail⟩
  · cases hhead
    exact hfirst _ _ (by decide +kernel) (by decide)
  · rcases List.cons_eq_append_iff.mp htail with ⟨rfl, hhead⟩ | ⟨more, rfl, hend⟩
    · cases hhead
      exact hfirst _ _ (by decide +kernel) (by decide)
    · simp at hend

/-- The lines of a minute: one with a measurement, and one without. -/
def sparseLines : List Json := [diskLine 60000 10, .obj [("timestamp", .int 61000)]]

/-- The second line makes the minimum 0, and the count 2. -/
theorem absent_measurement_counts :
    (∀ l ∈ sparseLines, l.IsSample) ∧
    ¬ ∀ before after, sparseLines = before ++ after →
      ∃ s, parseLines (diskClient.updateDefs diskDefinition) countedIds (.start ∅ emptyDatabase)
          before = .ok s ∧
        AggregatesMeasured (fun _ => .number) diskDefinition unitDelays before
          (s.rows fun _ => .number) "pctfree" := by
  constructor
  · intro l hl
    simp only [sparseLines, List.mem_cons, List.not_mem_nil, or_false] at hl
    rcases hl with rfl | rfl
    · exact diskLine_isSample _ _
    · intro p hp
      rw [List.mem_singleton.mp hp]
      exact ⟨_, rfl⟩
  · intro h
    obtain ⟨s, hs, hmeasured⟩ := h sparseLines [] (by simp)
    have hrun : (parseLines (diskClient.updateDefs diskDefinition) countedIds
        (.start ∅ emptyDatabase) sparseLines).toOption.map (fun s =>
          (createAm unitDelays 1000 (s.rows fun _ => .number)).map fun r =>
            (r.bucket 60000, (r.columns "pctfree").cnt)) = some [(1, 2)] := by
      decide +kernel
    obtain ⟨s', hs', hrows⟩ := exists_ok_of_toOption_map hrun
    rw [hs] at hs'
    cases hs'
    obtain ⟨r, hr, heq⟩ := List.mem_map.mp (hrows ▸ List.mem_singleton_self _)
    obtain ⟨hbucket, hcnt⟩ := Prod.mk.inj heq
    rw [hmeasured 1000 [] r (Or.inl hr), hbucket] at hcnt
    revert hcnt
    decide +kernel

end runs

end WatchedBack
