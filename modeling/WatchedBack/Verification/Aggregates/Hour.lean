import WatchedBack.Verification.Aggregates.Minute

/-! # Hour aggregates

The rows of `am$` that an hour is made of are all its minutes: days leave `am$` as a whole, so
merging them aggregates the raw samples of the hour. -/

namespace WatchedBack

open NullAggregates Grouping AggregState

variable {ι : Type} {cfg : AggregData} {actions : List (AggregAction ι)} {s : AggregState ι}
  {now : ℕ} {stmt : AggregStmt} {log : List (Executed ι)} {a p : ℤ}

/-- The row that an hour of a resource deserves: the aggregates of its raw samples. -/
def hourRow (actions : List (AggregAction ι)) (res : ℕ × ℕ) (hour : ℤ) : AggregRow ι :=
  bucketRow 3600000 colm (stored actions) res hour

/-- Whenever the hour job runs, a minute job has run that took all minutes before the cut-off. -/
def HoursDue (cfg : AggregData) (log : List (Executed ι)) : Prop :=
  ∀ l₁ e l₂, log = l₁ ++ e :: l₂ → e.stmt.insertsAh = true →
    ∃ e' ∈ l₁, e'.stmt.insertsAm = true ∧
      60 * cutoff e.now 3600 cfg.delayAh ≤ cutoff e'.now 60 cfg.delayAm

/-- No statement meets a row that it selects, and each row is what its hour deserves. -/
structure HoursExact (cfg : AggregData) (actions : List (AggregAction ι))
    (log : List (Executed ι)) : Prop where
  fresh : ∀ e ∈ log, e.stmt.insertsAh = true →
    ((e.before.ahRows ++ e.stmt.selected cfg e.now e.before).map Row.key).Nodup
  exact : ∀ e ∈ log, e.stmt.insertsAh = true → ∀ x ∈ e.stmt.selected cfg e.now e.before,
    ∃ row ∈ stored actions, row.bucket 3600000 < cutoff e.now 3600 cfg.delayAh ∧
      x = hourRow actions row.res (row.bucket 3600000)

theorem hoursDue_iff :
    HoursDue cfg log ↔ ∀ i : Fin log.length, log[i].stmt.insertsAh = true →
      ∃ e' ∈ log.take i, e'.stmt.insertsAm = true ∧
        60 * cutoff log[i].now 3600 cfg.delayAh ≤ cutoff e'.now 60 cfg.delayAm := by
  constructor
  · intro h i hins
    exact h _ _ (log.drop (i + 1)) (by simp) hins
  · intro h l₁ e l₂ hlog hins
    subst hlog
    have hi := h ⟨l₁.length, by simp⟩
    simp only [Fin.getElem_fin, List.getElem_append_right (le_refl _), Nat.sub_self,
      List.getElem_cons_zero, List.take_left'] at hi
    exact hi hins

instance : Decidable (HoursDue cfg log) := decidable_of_iff _ hoursDue_iff.symm

theorem HoursDue.of_concat {e : Executed ι} (h : HoursDue cfg (log ++ [e])) : HoursDue cfg log := by
  intro l₁ e' l₂ hlog
  exact h l₁ e' (l₂ ++ [e]) (by simp [hlog])

theorem Row.bucket_hour {ν : Type} (r : Row ι ν) : r.bucket 3600000 = r.bucket 60000 / 60 :=
  @Row.bucket_mul ι ν 60000 60 r

/-! ### What the hour job selects -/

/-- An hour with a row in `am$` whose minutes have all been aggregated has all its rows there. -/
theorem Aggregated.hour_exact (h : Aggregated cfg actions s a p) {x : AggregRow ι}
    (hx : x ∈ s.tables.amRows) (hlt : 60 * (x.bucket 3600000 + 1) ≤ a) :
    bucketRow 3600000 colh s.tables.amRows x.res (x.bucket 3600000) =
      hourRow actions x.res (x.bucket 3600000) := by
  have hexact : ∀ y ∈ s.tables.amRows, y = minuteRow actions y.res (y.bucket 60000) := by
    intro y hy
    obtain ⟨row, -, -, rfl⟩ := h.am_exact y hy
    rw [minuteRow, bucketRow_bucket (by decide)]
    rfl
  have hminute : ∀ y : AggregRow ι, y = minuteRow actions y.res (y.bucket 60000) →
      y.key = (y.res, (y.bucket 60000 : ℚ) * 60000) := by
    exact fun y hy => congrArg Row.key hy
  obtain ⟨b, hb⟩ := h.am_closed x.res
  obtain ⟨hlow, -, -⟩ := (hb (x.bucket 60000)).mp ⟨x, hx, hminute x (hexact x hx)⟩
  refine @bucketRow_merge ι 60000 60 s.tables.amRows (stored actions) x.res _ h.am_nodup ?_ ?_
  · intro y hy hres _
    have hy' := hexact y hy
    rwa [hres] at hy'
  · intro r hr hres hhour
    -- the minute lies in the hour of `x`, so on the same day
    have hx' : x.bucket 60000 / 60 = x.bucket 3600000 := (Row.bucket_hour x).symm
    have hday : b * 1440 ≤ r.bucket 60000 := by
      push_cast at hhour
      omega
    have hbefore : r.bucket 60000 < a := by
      push_cast at hhour
      omega
    obtain ⟨y, hy, hkey⟩ := (hb (r.bucket 60000)).mpr ⟨hday, hbefore, r, hr, hres, rfl⟩
    refine ⟨y, hy, congrArg Prod.fst hkey, Row.bucket_of_timestamp (by decide) ?_⟩
    exact congrArg Prod.snd hkey

theorem Aggregated.selected_ah_exact (h : Aggregated cfg actions s a p)
    (hins : stmt.insertsAh = true) (hdue : 60 * cutoff now 3600 cfg.delayAh ≤ a) :
    ∀ x ∈ stmt.selected cfg now s.tables, ∃ row ∈ stored actions,
      row.bucket 3600000 < cutoff now 3600 cfg.delayAh ∧
        x = hourRow actions row.res (row.bucket 3600000) := by
  have hrow : ∀ y ∈ s.tables.amRows, y.bucket 3600000 < cutoff now 3600 cfg.delayAh →
      ∃ row ∈ stored actions, row.bucket 3600000 < cutoff now 3600 cfg.delayAh ∧
        bucketRow 3600000 colh s.tables.amRows y.res (y.bucket 3600000) =
          hourRow actions row.res (row.bucket 3600000) := by
    intro y hy hlt
    have hsame := h.hour_exact hy (by omega)
    obtain ⟨row, hrow, -, rfl⟩ := h.am_exact y hy
    have hbucket : (minuteRow actions row.res (row.bucket 60000)).bucket 3600000 =
        row.bucket 3600000 := by
      rw [Row.bucket_hour, Row.bucket_hour, minuteRow, bucketRow_bucket (by decide)]
    rw [hbucket] at hlt hsame ⊢
    exact ⟨row, hrow, hlt, hsame⟩
  intro x hx
  simp only [AggregStmt.insertsAh, decide_eq_true_eq] at hins
  rcases hins with rfl | rfl
  · obtain ⟨y, hy, hlt, rfl⟩ := mem_createSelect.mp hx
    exact hrow y hy hlt
  · obtain ⟨y, hy, hlt, -, rfl⟩ := mem_baseSelect.mp hx
    exact hrow y hy hlt

theorem nodup_selected_ah (hah : (s.tables.ahRows.map Row.key).Nodup)
    (hcreate : stmt = .createAh → s.tables.ah = none) (hins : stmt.insertsAh = true) :
    ((s.tables.ahRows ++ stmt.selected cfg now s.tables).map Row.key).Nodup := by
  simp only [AggregStmt.insertsAh, decide_eq_true_eq] at hins
  rcases hins with rfl | rfl
  · have hnone : s.tables.ahRows = [] := by simp [Tables.ahRows, hcreate rfl]
    rw [hnone, List.nil_append]
    exact nodup_aggregate (by decide)
  · exact nodup_append_baseSelect (by decide) hah

/-! ### Runs -/

/-- The invariant of runs whose hour jobs are due. -/
def HourRecorded (cfg : AggregData) (actions : List (AggregAction ι)) (s : AggregState ι) : Prop :=
  Recorded cfg actions s ∧
    ((∀ e ∈ s.log, e.stmt.insertsAm = true → e.done = true) → HoursDue cfg s.log →
      HoursExact cfg actions s.log ∧ (s.tables.ahRows.map Row.key).Nodup)

theorem HoursExact.concat {e : Executed ι} (h : HoursExact cfg actions log)
    (hfresh : e.stmt.insertsAh = true →
      ((e.before.ahRows ++ e.stmt.selected cfg e.now e.before).map Row.key).Nodup)
    (hexact : e.stmt.insertsAh = true → ∀ x ∈ e.stmt.selected cfg e.now e.before,
      ∃ row ∈ stored actions, row.bucket 3600000 < cutoff e.now 3600 cfg.delayAh ∧
        x = hourRow actions row.res (row.bucket 3600000)) :
    HoursExact cfg actions (log ++ [e]) := by
  refine ⟨?_, ?_⟩
  · intro e' he' hins
    rw [List.mem_append, List.mem_singleton] at he'
    rcases he' with hold | rfl
    · exact h.fresh e' hold hins
    · exact hfresh hins
  · intro e' he' hins
    rw [List.mem_append, List.mem_singleton] at he'
    rcases he' with hold | rfl
    · exact h.exact e' hold hins
    · exact hexact hins

/-- An entry of the log that met the tables of the state. -/
theorem HourRecorded.concat_entry (h : HourRecorded cfg actions s)
    (hcreate : stmt = .createAh → s.tables.ah = none) (done : Bool)
    (hdone : ∀ e ∈ s.log ++ [⟨stmt, now, s.tables, done⟩],
      e.stmt.insertsAm = true → e.done = true)
    (hdue : HoursDue cfg (s.log ++ [⟨stmt, now, s.tables, done⟩])) :
    HoursExact cfg actions (s.log ++ [⟨stmt, now, s.tables, done⟩]) := by
  obtain ⟨⟨a, p, hA, -⟩, himp⟩ := h
  have hdone' : ∀ e ∈ s.log, e.stmt.insertsAm = true → e.done = true :=
    fun e he => hdone e (List.mem_append_left _ he)
  obtain ⟨hexact, hah⟩ := himp hdone' hdue.of_concat
  refine hexact.concat (nodup_selected_ah hah hcreate) fun hins => ?_
  obtain ⟨e', he', hins', hcut⟩ := hdue s.log _ [] rfl hins
  exact hA.selected_ah_exact hins (hcut.trans (hA.cutoff_le e' he' hins' (hdone' e' he' hins')))

theorem HourRecorded.send (h : HourRecorded cfg actions s) (hO : Orderly cfg actions)
    (hpass : InPass actions now) (ok : AggregStmt → Bool) (hadm : Admissible cfg now s stmt) :
    HourRecorded cfg actions (s.send cfg ok now stmt).1 := by
  have hcreate : stmt = .createAh → s.tables.ah = none := by
    rintro rfl
    exact hadm
  refine ⟨h.1.send hO hpass ok hadm, ?_⟩
  rw [send_log]
  intro hdone hdue
  refine ⟨h.concat_entry hcreate _ hdone hdue, ?_⟩
  have hah := (h.2 (fun e he => hdone e (List.mem_append_left _ he)) hdue.of_concat).2
  rcases send_cases cfg ok now s stmt with ⟨t, ht, heq⟩ | heq
  · rw [heq]
    change (t.ahRows.map Row.key).Nodup
    rw [exec_ah ht]
    split
    · next hins => exact nodup_selected_ah hah hcreate hins
    · split
      · exact hah.sublist (List.filter_sublist.map _)
      · exact hah
  · rw [heq]
    exact hah

theorem HourRecorded.skip (h : HourRecorded cfg actions s) (hpass : InPass actions now)
    (hjob : stmt.creates = false) (hne : stmt ≠ .baseAm) :
    HourRecorded cfg actions { s with log := s.log ++ [⟨stmt, now, s.tables, false⟩] } := by
  refine ⟨h.1.skip hpass (insertsAm_eq_false hjob hne), fun hdone hdue => ⟨?_, ?_⟩⟩
  · refine h.concat_entry ?_ false hdone hdue
    rintro rfl
    cases hjob
  · exact (h.2 (fun e he => hdone e (List.mem_append_left _ he)) hdue.of_concat).2

theorem HourRecorded.sample {row : Sample ι} (h : HourRecorded cfg actions s)
    (hO : Orderly cfg (actions ++ [.sample row])) :
    HourRecorded cfg (actions ++ [.sample row]) (s.step cfg (.sample row)) := by
  obtain ⟨⟨a, p, hA, hL⟩, himp⟩ := h
  refine ⟨⟨a, p, hA.sample hO, hL.sample hO (hA.le_bucket hO)⟩, fun hdone hdue => ?_⟩
  obtain ⟨hexact, hah⟩ := himp hdone hdue
  refine ⟨⟨hexact.fresh, fun e he hins x hx => ?_⟩, hah⟩
  obtain ⟨r, hr, hlt, rfl⟩ := hexact.exact e he hins x hx
  refine ⟨r, by simp [mem_stored.mp hr], hlt, ?_⟩
  -- the new sample lies past the minutes of the job that fed this one
  obtain ⟨l₁, l₂, hlog⟩ := List.append_of_mem he
  obtain ⟨e', he', -, hcut⟩ := hdue l₁ e l₂ hlog hins
  have he'' : e' ∈ s.log := by
    change e' ∈ (s.step cfg (.sample row)).log
    rw [hlog]
    exact List.mem_append_left _ he'
  obtain ⟨fp, ok, hmem⟩ := hL.sent e' he''
  have hlate : cutoff e'.now 60 cfg.delayAm ≤ row.bucket 60000 := hO.inOrder_last hmem
  rw [hourRow, hourRow, stored_concat_sample]
  refine (bucketRow_append_of_ne fun _ hsame => ?_).symm
  rw [Row.bucket_hour row] at hsame
  omega

theorem hourRecorded_run (hO : Orderly cfg actions) :
    HourRecorded cfg actions (run cfg actions) := by
  have hother : ∀ {actions : List (AggregAction ι)} {x : AggregAction ι} {s : AggregState ι},
      stored (actions ++ [x]) = stored actions → HourRecorded cfg actions s →
      HourRecorded cfg (actions ++ [x]) s := by
    intro actions x s hx h
    refine ⟨h.1.concat hx, fun hdone hdue => ?_⟩
    obtain ⟨hexact, hah⟩ := h.2 hdone hdue
    exact ⟨⟨hexact.fresh, by simpa only [hourRow, hx] using hexact.exact⟩, hah⟩
  induction actions using List.reverseRecOn with
  | nil =>
      refine ⟨recorded_initial, fun _ _ => ⟨⟨?_, ?_⟩, ?_⟩⟩ <;>
        simp [run, initial, Tables.ahRows]
  | append_singleton actions x ih =>
      have h := ih hO.of_concat
      rw [run_concat]
      cases x with
      | sample row => exact h.sample hO
      | pass fp now ok =>
          exact pass_rule (fun s => HourRecorded cfg (actions ++ [.pass fp now ok]) s)
            (fun s data hs => ⟨hs.1.setData data, hs.2⟩)
            (fun s stmt hadm hs => hs.send hO hO.inPass ok hadm)
            (fun s stmt hjob hne hs => hs.skip hO.inPass hjob hne)
            (hother (stored_concat_pass fp now ok) h)
      | restart =>
          have h' := hother stored_concat_restart h
          exact ⟨h'.1.setData none, h'.2⟩

/-- An hour is given a row again only after a purge at the end of the retention has taken the
row that it had. -/
def OncePerRetention (cfg : AggregData) (log : List (Executed ι)) : Prop :=
  ∀ l₁ e l₂ e' l₃, log = l₁ ++ e :: (l₂ ++ e' :: l₃) → e.done = true → e.stmt.insertsAh = true →
    e'.stmt.insertsAh = true → ∀ x ∈ e.stmt.selected cfg e.now e.before,
      ∀ y ∈ e'.stmt.selected cfg e'.now e'.before, x.key = y.key →
        0 < cfg.retentionAh ∧ ∃ e'' ∈ l₂, e''.PurgesAh cfg x

theorem oncePerRetention_run
    (h : ∀ e ∈ (run cfg actions).log, e.stmt.insertsAh = true →
      ((e.before.ahRows ++ e.stmt.selected cfg e.now e.before).map Row.key).Nodup) :
    OncePerRetention cfg (run cfg actions).log := by
  intro l₁ e l₂ e' l₃ hlog hdone hins hins' x hx y hy hkey
  have hnot : x ∉ e'.before.ahRows := by
    intro hmem
    have hnodup := h e' (by simp [hlog]) hins'
    rw [List.map_append, List.nodup_append] at hnodup
    exact hnodup.2.2 _ (List.mem_map_of_mem hmem) _ (List.mem_map_of_mem hy) hkey
  obtain ⟨e'', he'', hpurge⟩ :=
    (explained_run cfg actions).purged_between hlog hdone hins hx hnot
  have hret := retention_of_purgeAh cfg actions e'' (by simp [hlog, he'']) hpurge.1 hpurge.2.1
  exact ⟨hret, e'', he'', hpurge⟩

/-- Hour aggregates of aggregates are direct aggregates: no statement meets a row that it
selects, each row has the aggregates of all raw samples of its hour that are ever stored, and an
hour has one row, unless the retention of `ah$` ends. -/
theorem hours_exact {ι : Type} (cfg : AggregData) (actions : List (AggregAction ι))
    (hO : Orderly cfg actions)
    (hok : ∀ fp now ok, .pass fp now ok ∈ actions → ∀ stmt, ok stmt = true)
    (hdue : HoursDue cfg (run cfg actions).log) :
    HoursExact cfg actions (run cfg actions).log ∧ OncePerRetention cfg (run cfg actions).log := by
  have hexact := ((hourRecorded_run hO).2 (amDone_run hO hok).done hdue).1
  exact ⟨hexact, oncePerRetention_run hexact.fresh⟩

/-! ### A sample, and passes over two days -/

/-- The jobs of the last pass find the hour in `am$`, but no longer in `ah$`. -/
def hourTwice : List (AggregAction Unit) :=
  [.sample (sampleAt 864060000 3), passAt 874800, passAt 994200, passAt 1035000, passAt 1038000,
    passAt 1039200]

theorem orderly_hourTwice : Orderly unitDelays hourTwice := by
  refine ⟨by simp [hourTwice, passAt, InOrder], ?_, by decide⟩
  intro row hrow
  obtain rfl : row = sampleAt 864060000 3 := by simpa [hourTwice, passAt] using hrow
  norm_num [sampleAt]

theorem ok_hourTwice : ∀ fp now ok, .pass fp now ok ∈ hourTwice → ∀ stmt, ok stmt = true := by
  intro fp now ok hmem stmt
  simp only [hourTwice, passAt, List.mem_cons, AggregAction.pass.injEq, reduceCtorEq, false_or,
    List.not_mem_nil, or_false] at hmem
  rcases hmem with ⟨-, -, rfl⟩ | ⟨-, -, rfl⟩ | ⟨-, -, rfl⟩ | ⟨-, -, rfl⟩ | ⟨-, -, rfl⟩ <;> rfl

theorem hours_exact_hourTwice :
    HoursExact unitDelays hourTwice (run unitDelays hourTwice).log ∧
      OncePerRetention unitDelays (run unitDelays hourTwice).log :=
  hours_exact unitDelays hourTwice orderly_hourTwice ok_hourTwice (by decide +kernel)

/-- Under all the conditions an hour gets two rows over the run, as `ah$` is purged between two
purges of `am$`. -/
theorem hour_inserted_twice :
    Orderly unitDelays hourTwice ∧
      (∀ fp now ok, .pass fp now ok ∈ hourTwice → ∀ stmt, ok stmt = true) ∧
      HoursDue unitDelays (run unitDelays hourTwice).log ∧
      unitDelays.delayAh < 24 * unitDelays.retentionAm ∧
      unitDelays.retentionD ≤ unitDelays.retentionAm ∧
      unitDelays.retentionAm ≤ unitDelays.retentionAh ∧ unitDelays.retentionAd = 0 ∧
      ¬ ((insertedAh unitDelays (run unitDelays hourTwice).log).map Row.key).Nodup := by
  refine ⟨orderly_hourTwice, ok_hourTwice, ?_, by decide, by decide, by decide, rfl, ?_⟩
  · decide +kernel
  · decide +kernel

end WatchedBack
