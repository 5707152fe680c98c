import WatchedBack.Model.Aggregators
import WatchedBack.Verification.Aggregates.Passes

/-! # Every aggregate is that of samples, none of them counted twice -/

namespace WatchedBack

open NullAggregates Grouping

/-! ### Rows that are made of samples -/

section madeOf

variable {ι : Type} {samples samples' : List (Sample ι)} {unit : ℕ} {rows more : List (AggregRow ι)}

/-- The row of a bucket for some samples of its resource. -/
structure MadeOf (samples : List (Sample ι)) (unit : ℕ) (x : AggregRow ι)
    (parts : List (Sample ι)) : Prop where
  ne_nil : parts ≠ []
  stored : ∀ r ∈ parts, r ∈ samples
  /-- No sample is counted twice. -/
  nodup : (parts.map Row.key).Nodup
  inBucket : ∀ r ∈ parts, r.res = x.res ∧ r.bucket unit = x.bucket unit
  timestamp_eq : x.timestamp = x.bucket unit * unit
  columns_eq : ∀ c, x.columns c = .ofValues (parts.map fun r => r.columns c)

/-- A table of one level. -/
structure SoundRows (samples : List (Sample ι)) (unit : ℕ) (rows : List (AggregRow ι)) : Prop where
  nodup : (rows.map Row.key).Nodup
  made : ∀ x ∈ rows, ∃ parts, MadeOf samples unit x parts

/-- The columns of a row fit together, whichever samples it is made of. -/
theorem MadeOf.coherent {x : AggregRow ι} {parts : List (Sample ι)}
    (h : MadeOf samples unit x parts) (c : ι) : (x.columns c).Coherent := by
  rw [h.columns_eq c]
  exact Aggregate.coherent_ofValues _

theorem SoundRows.mono (h : SoundRows samples unit rows) (hsub : samples ⊆ samples') :
    SoundRows samples' unit rows := by
  refine ⟨h.nodup, fun x hx => ?_⟩
  obtain ⟨parts, hparts⟩ := h.made x hx
  exact ⟨parts, { hparts with stored := fun r hr => hsub (hparts.stored r hr) }⟩

theorem SoundRows.purge (h : SoundRows samples unit rows) (now retention : ℕ) :
    SoundRows samples unit (purge now retention rows) := by
  have hsub : (WatchedBack.purge now retention rows).Sublist rows := List.filter_sublist
  exact ⟨h.nodup.sublist (hsub.map _), fun x hx => h.made x (hsub.subset hx)⟩

theorem SoundRows.append (h : SoundRows samples unit rows)
    (hnodup : ((rows ++ more).map Row.key).Nodup)
    (hmore : ∀ x ∈ more, ∃ parts, MadeOf samples unit x parts) :
    SoundRows samples unit (rows ++ more) := by
  refine ⟨hnodup, fun x hx => ?_⟩
  rcases List.mem_append.mp hx with hold | hnew
  · exact h.made x hold
  · exact hmore x hnew

/-- A minute takes its samples from `d$`, where keys are unique. -/
theorem madeOf_raw {d : List (Sample ι)} (hunit : 0 < unit) (hnodup : (d.map Row.key).Nodup)
    (hd : d ⊆ samples) {r : Sample ι} (hr : r ∈ d) :
    ∃ parts, MadeOf samples unit (bucketRow unit colm d r.res (r.bucket unit)) parts := by
  refine ⟨group (fun q : Sample ι => (q.res, q.bucket unit)) (r.res, r.bucket unit) d, ?_⟩
  have hbucket : (bucketRow unit colm d r.res (r.bucket unit)).bucket unit = r.bucket unit :=
    bucketRow_bucket hunit r.res (r.bucket unit)
  refine ⟨?_, ?_, ?_, ?_, ?_, fun c => rfl⟩
  · exact List.ne_nil_of_mem (mem_group.mpr ⟨hr, rfl⟩)
  · exact fun q hq => hd (mem_group.mp hq).1
  · exact hnodup.sublist (List.filter_sublist.map _)
  · intro q hq
    obtain ⟨hres, hb⟩ := Prod.mk.inj (mem_group.mp hq).2
    exact ⟨hres, hb.trans hbucket.symm⟩
  · rw [hbucket]
    rfl

/-- The cell of a sample can be read off its key. -/
def cellOfKey (unit : ℕ) (k : (ℕ × ℕ) × ℚ) : (ℕ × ℕ) × ℤ := (k.1, ⌊k.2 / unit⌋)

/-- Rows of one level lie in different buckets. -/
theorem SoundRows.nodup_cells (h : SoundRows samples unit rows) :
    (rows.map fun x => (x.res, x.bucket unit)).Nodup := by
  have hnd : rows.Nodup := List.Nodup.of_map _ h.nodup
  refine List.Nodup.map_on (fun x hx y hy heq => ?_) hnd
  obtain ⟨_, hx'⟩ := h.made x hx
  obtain ⟨_, hy'⟩ := h.made y hy
  obtain ⟨hres, hb⟩ := Prod.mk.inj heq
  refine List.inj_on_of_nodup_map h.nodup hx hy (Prod.ext hres ?_)
  change x.timestamp = y.timestamp
  rw [hx'.timestamp_eq, hy'.timestamp_eq, hb]

/-- A coarser bucket takes the samples of the rows in it together. -/
theorem SoundRows.madeOf_merged {n : ℕ} (hunit : 0 < unit * n) (h : SoundRows samples unit rows)
    {r : AggregRow ι} (hr : r ∈ rows) :
    ∃ parts, MadeOf samples (unit * n)
      (bucketRow (unit * n) colh rows r.res (r.bucket (unit * n))) parts := by
  choose! parts hparts using h.made
  let cell := group (fun x : AggregRow ι => (x.res, x.bucket (unit * n)))
    (r.res, r.bucket (unit * n)) rows
  have hcell : ∀ x ∈ cell, x ∈ rows ∧ x.res = r.res ∧ x.bucket (unit * n) = r.bucket (unit * n) := by
    intro x hx
    obtain ⟨hmem, hkey⟩ := mem_group.mp hx
    obtain ⟨hres, hb⟩ := Prod.mk.inj hkey
    exact ⟨hmem, hres, hb⟩
  have hbucket : (bucketRow (unit * n) colh rows r.res (r.bucket (unit * n))).bucket (unit * n) =
      r.bucket (unit * n) :=
    bucketRow_bucket hunit r.res (r.bucket (unit * n))
  refine ⟨cell.flatMap parts, ?_, ?_, ?_, ?_, ?_, fun c => ?_⟩
  · obtain ⟨q, hq⟩ := List.exists_mem_of_ne_nil _ (hparts r hr).ne_nil
    exact List.ne_nil_of_mem (List.mem_flatMap.mpr ⟨r, mem_group.mpr ⟨hr, rfl⟩, hq⟩)
  · intro q hq
    obtain ⟨x, hx, hmem⟩ := List.mem_flatMap.mp hq
    exact (hparts x (hcell x hx).1).stored q hmem
  · refine nodup_map_flatMap (cellOfKey unit)
      (h.nodup_cells.sublist (List.filter_sublist.map _)) ?_ ?_
    · exact fun x hx => (hparts x (hcell x hx).1).nodup
    · intro x hx q hq
      obtain ⟨hres, hb⟩ := (hparts x (hcell x hx).1).inBucket q hq
      exact Prod.ext hres hb
  · intro q hq
    obtain ⟨x, hx, hmem⟩ := List.mem_flatMap.mp hq
    obtain ⟨hrows, hres, hb⟩ := hcell x hx
    obtain ⟨hqres, hqb⟩ := (hparts x hrows).inBucket q hmem
    refine ⟨hqres.trans hres, ?_⟩
    rw [hbucket, ← hb, Row.bucket_mul, Row.bucket_mul, hqb]
  · rw [hbucket]
    rfl
  · have hvalues : (cell.map fun x => x.columns c) =
        (cell.map fun x => (parts x).map fun q => q.columns c).map Aggregate.ofValues := by
      rw [List.map_map]
      exact List.map_congr_left fun x hx => (hparts x (hcell x hx).1).columns_eq c
    change colh (cell.map fun x => x.columns c) = _
    rw [hvalues, colh, Aggregate.merge_map_ofValues, List.map_flatMap, List.flatMap_def]

end madeOf

/-! ### The tables -/

section tables

variable {ι : Type} {samples : List (Sample ι)} {cfg : AggregData} {now : ℕ} {stmt : AggregStmt}
  {t t' : Tables ι}

/-- `d$` holds samples under unique keys, and every level is made of them. -/
structure Tables.Sound (samples : List (Sample ι)) (t : Tables ι) : Prop where
  d_nodup : (t.d.map Row.key).Nodup
  d_stored : t.d ⊆ samples
  am : SoundRows samples 60000 t.amRows
  ah : SoundRows samples 3600000 t.ahRows
  ad : SoundRows samples 86400000 t.adRows

/-- A statement that is done leaves no key twice in the table that it inserts into. -/
theorem exec_nodup (h : t.exec cfg now stmt = some t') :
    (stmt.insertsAm = true → ((t.amRows ++ stmt.selected cfg now t).map Row.key).Nodup) ∧
      (stmt.insertsAh = true → ((t.ahRows ++ stmt.selected cfg now t).map Row.key).Nodup) ∧
      (stmt.insertsAd = true → ((t.adRows ++ stmt.selected cfg now t).map Row.key).Nodup) := by
  cases stmt <;>
    simp only [AggregStmt.insertsAm, AggregStmt.insertsAh, AggregStmt.insertsAd, reduceCtorEq,
      or_self, or_true, true_or, decide_true, decide_false, forall_const, IsEmpty.forall_iff,
      and_true, true_and, Bool.false_eq_true]
  case createAm =>
    have hrows : t.amRows = [] := by
      simp only [Tables.exec, Option.ite_none_right_eq_some] at h
      simp [Tables.amRows, Option.isNone_iff_eq_none.mp h.1]
    rw [hrows, List.nil_append]
    exact nodup_aggregate (by decide)
  case createAh =>
    have hrows : t.ahRows = [] := by
      simp only [Tables.exec, Option.ite_none_right_eq_some] at h
      simp [Tables.ahRows, Option.isNone_iff_eq_none.mp h.1.1]
    rw [hrows, List.nil_append]
    exact nodup_aggregate (by decide)
  case createAd =>
    have hrows : t.adRows = [] := by
      simp only [Tables.exec, Option.ite_none_right_eq_some] at h
      simp [Tables.adRows, Option.isNone_iff_eq_none.mp h.1.1]
    rw [hrows, List.nil_append]
    exact nodup_aggregate (by decide)
  case baseAm =>
    simp only [Tables.exec, Option.bind_eq_bind, Option.bind_eq_some_iff, insertRows_eq_some] at h
    obtain ⟨am, ham, _, ⟨hnodup, -⟩, -⟩ := h
    simpa [Tables.amRows, ham] using hnodup
  case baseAh =>
    simp only [Tables.exec, Option.bind_eq_bind, Option.bind_eq_some_iff, insertRows_eq_some] at h
    obtain ⟨ah, hah, _, _, _, ⟨hnodup, -⟩, -⟩ := h
    simpa [Tables.ahRows, hah] using hnodup
  case baseAd =>
    simp only [Tables.exec, Option.bind_eq_bind, Option.bind_eq_some_iff, insertRows_eq_some] at h
    obtain ⟨ad, had, _, _, _, _, _, ⟨hnodup, -⟩, -⟩ := h
    simpa [Tables.adRows, had] using hnodup

/-- What a statement selects is made of samples. -/
theorem Tables.Sound.selected (h : t.Sound samples) (cfg : AggregData) (now : ℕ)
    (stmt : AggregStmt) :
    (stmt.insertsAm = true → ∀ x ∈ stmt.selected cfg now t, ∃ parts, MadeOf samples 60000 x parts) ∧
      (stmt.insertsAh = true →
        ∀ x ∈ stmt.selected cfg now t, ∃ parts, MadeOf samples 3600000 x parts) ∧
      (stmt.insertsAd = true →
        ∀ x ∈ stmt.selected cfg now t, ∃ parts, MadeOf samples 86400000 x parts) := by
  have hminute : ∀ r ∈ t.d, ∃ parts, MadeOf samples 60000
      (bucketRow 60000 colm t.d r.res (r.bucket 60000)) parts :=
    fun r hr => madeOf_raw (by decide) h.d_nodup h.d_stored hr
  have hhour : ∀ r ∈ t.amRows, ∃ parts, MadeOf samples 3600000
      (bucketRow 3600000 colh t.amRows r.res (r.bucket 3600000)) parts :=
    fun r hr => h.am.madeOf_merged (n := 60) (by decide) hr
  have hday : ∀ r ∈ t.ahRows, ∃ parts, MadeOf samples 86400000
      (bucketRow 86400000 colh t.ahRows r.res (r.bucket 86400000)) parts :=
    fun r hr => h.ah.madeOf_merged (n := 24) (by decide) hr
  refine ⟨fun hins x hx => ?_, fun hins x hx => ?_, fun hins x hx => ?_⟩
  · simp only [AggregStmt.insertsAm, decide_eq_true_eq] at hins
    rcases hins with rfl | rfl
    · obtain ⟨r, hr, -, rfl⟩ := mem_createSelect.mp hx
      exact hminute r hr
    · obtain ⟨r, hr, -, -, rfl⟩ := mem_baseSelect.mp hx
      exact hminute r hr
  · simp only [AggregStmt.insertsAh, decide_eq_true_eq] at hins
    rcases hins with rfl | rfl
    · obtain ⟨r, hr, -, rfl⟩ := mem_createSelect.mp hx
      exact hhour r hr
    · obtain ⟨r, hr, -, -, rfl⟩ := mem_baseSelect.mp hx
      exact hhour r hr
  · simp only [AggregStmt.insertsAd, decide_eq_true_eq] at hins
    rcases hins with rfl | rfl
    · obtain ⟨r, hr, -, rfl⟩ := mem_createSelect.mp hx
      exact hday r hr
    · obtain ⟨r, hr, -, -, rfl⟩ := mem_baseSelect.mp hx
      exact hday r hr

theorem Tables.Sound.exec (h : t.Sound samples) (ht : t.exec cfg now stmt = some t') :
    t'.Sound samples := by
  obtain ⟨hnodupAm, hnodupAh, hnodupAd⟩ := exec_nodup ht
  obtain ⟨hselAm, hselAh, hselAd⟩ := h.selected cfg now stmt
  have hd : t'.d.Sublist t.d := by
    rw [exec_d ht]
    split
    · exact List.filter_sublist
    · exact List.Sublist.refl _
  refine ⟨h.d_nodup.sublist (hd.map _), fun r hr => h.d_stored (hd.subset hr), ?_, ?_, ?_⟩
  · rw [exec_am ht]
    split
    · next hins => exact h.am.append (hnodupAm hins) (hselAm hins)
    · split
      · exact h.am.purge now _
      · exact h.am
  · rw [exec_ah ht]
    split
    · next hins => exact h.ah.append (hnodupAh hins) (hselAh hins)
    · split
      · exact h.ah.purge now _
      · exact h.ah
  · rw [exec_ad ht]
    split
    · next hins => exact h.ad.append (hnodupAd hins) (hselAd hins)
    · split
      · exact h.ad.purge now _
      · exact h.ad

/-- A sample that is stored again replaces the earlier one. -/
theorem nodup_insertSample {d : List (Sample ι)} (h : (d.map Row.key).Nodup) (row : Sample ι) :
    ((insertSample d row).map Row.key).Nodup := by
  rw [insertSample]
  split
  · have hkeys : (d.map fun r => if r.key = row.key then row else r).map Row.key = d.map Row.key := by
      rw [List.map_map]
      refine List.map_congr_left fun r _ => ?_
      by_cases hk : r.key = row.key <;> simp [hk]
    rw [hkeys]
    exact h
  · next hnew =>
    rw [List.map_append, List.nodup_append]
    refine ⟨h, List.nodup_singleton _, fun k hk k' hk' => ?_⟩
    obtain rfl := List.mem_singleton.mp hk'
    rintro rfl
    exact hnew hk

theorem mem_insertSample {d : List (Sample ι)} {row r : Sample ι} (h : r ∈ insertSample d row) :
    r ∈ d ∨ r = row := by
  rw [insertSample] at h
  split at h
  · obtain ⟨q, hq, rfl⟩ := List.mem_map.mp h
    by_cases hk : q.key = row.key
    · exact Or.inr (if_pos hk)
    · rw [if_neg hk]
      exact Or.inl hq
  · simpa using h

theorem Tables.Sound.sample (h : t.Sound samples) (row : Sample ι) :
    ({ t with d := insertSample t.d row } : Tables ι).Sound (samples ++ [row]) := by
  have hmore : samples ⊆ samples ++ [row] := List.subset_append_left _ _
  refine ⟨nodup_insertSample h.d_nodup row, fun r hr => ?_, h.am.mono hmore, h.ah.mono hmore,
    h.ad.mono hmore⟩
  rcases mem_insertSample hr with hold | rfl
  · exact hmore (h.d_stored hold)
  · simp

end tables

/-! ### Runs of all backends -/

namespace Aggregators

variable {ι : Type} {s : Aggregators ι} {samples : List (Sample ι)}

/-- The samples that are stored in a run. -/
def stored (moves : List (AggregMove ι)) : List (Sample ι) :=
  moves.filterMap fun
    | .sample row => some row
    | _ => none

/-- A statement is done, or leaves all tables alone. -/
theorem exec_cases (s : Aggregators ι) (cfg : AggregData) (now : ℕ) (ok : Bool) (stmt : AggregStmt) :
    (∃ t, ok = true ∧ s.tables.exec cfg now stmt = some t ∧
      s.exec cfg now ok stmt =
        ({ s with tables := t, log := s.log ++ [⟨stmt, now, s.tables, true⟩] }, true)) ∨
    s.exec cfg now ok stmt =
      ({ s with log := s.log ++ [⟨stmt, now, s.tables, false⟩] }, false) := by
  cases h : if ok = true then s.tables.exec cfg now stmt else none with
  | none => exact Or.inr (by simp [exec, h])
  | some t =>
      refine Or.inl ⟨t, ?_, ?_, by simp [exec, h]⟩
      · by_contra hok
        simp [hok] at h
      · split at h
        · exact h
        · cases h

/-- What a step can do to the tables: a sample is stored, a backend has a statement carried out, or
nothing happens to them. -/
theorem step_tables (s : Aggregators ι) (m : AggregMove ι) :
    (∃ row, m = .sample row ∧ (s.step m).tables = { s.tables with d := insertSample s.tables.d row }) ∨
    (∃ cfg now stmt, s.tables.exec cfg now stmt = some (s.step m).tables) ∨
    (s.step m).tables = s.tables := by
  cases m with
  | sample row => exact Or.inl ⟨row, rfl, rfl⟩
  | read b row =>
      refine Or.inr (Or.inr ?_)
      change (s.read b row).tables = _
      unfold read
      split <;> rfl
  | look b ok =>
      refine Or.inr (Or.inr ?_)
      change (s.look b ok).tables = _
      unfold look
      split <;> rfl
  | start b fp =>
      refine Or.inr (Or.inr ?_)
      change (s.start b fp).tables = _
      unfold start
      split <;> rfl
  | restart b => exact Or.inr (Or.inr rfl)
  | send b now ok =>
      change _ ∨ (∃ cfg now' stmt, s.tables.exec cfg now' stmt = some (s.send b now ok).tables) ∨
        (s.send b now ok).tables = s.tables
      right
      unfold send
      split
      · next e stmt rest _ _ =>
        rcases exec_cases s e.sent now ok stmt with ⟨t, -, ht, heq⟩ | heq
        · exact Or.inl ⟨e.sent, now, stmt, by simpa [heq, setThread] using ht⟩
        · exact Or.inr (by simp [heq, setThread])
      · next e stmt rest clean _ _ =>
        rcases exec_cases s e.sent now (clean && ok) stmt with ⟨t, -, ht, heq⟩ | heq
        · exact Or.inl ⟨e.sent, now, stmt, by simpa [heq, setThread] using ht⟩
        · exact Or.inr (by simp [heq, setThread])
      · exact Or.inr rfl

theorem stored_concat (moves : List (AggregMove ι)) (m : AggregMove ι) :
    stored (moves ++ [m]) = stored moves ++ stored [m] := by
  simp [stored]

theorem run_concat (moves : List (AggregMove ι)) (m : AggregMove ι) :
    run (moves ++ [m]) = (run moves).step m := by
  simp [run]

theorem sound_run (moves : List (AggregMove ι)) : (run moves).tables.Sound (stored moves) := by
  induction moves using List.reverseRecOn with
  | nil => exact ⟨by simp [run, initial], by simp [run, initial],
      ⟨by simp [run, initial, Tables.amRows], by simp [run, initial, Tables.amRows]⟩,
      ⟨by simp [run, initial, Tables.ahRows], by simp [run, initial, Tables.ahRows]⟩,
      ⟨by simp [run, initial, Tables.adRows], by simp [run, initial, Tables.adRows]⟩⟩
  | append_singleton moves m ih =>
      rw [run_concat, stored_concat]
      have hmore : stored moves ⊆ stored moves ++ stored [m] := List.subset_append_left _ _
      have hold : (run moves).tables.Sound (stored moves ++ stored [m]) :=
        ⟨ih.d_nodup, fun r hr => hmore (ih.d_stored hr), ih.am.mono hmore, ih.ah.mono hmore,
          ih.ad.mono hmore⟩
      rcases step_tables (run moves) m with ⟨row, rfl, heq⟩ | ⟨cfg, now, stmt, ht⟩ | heq
      · rw [heq]
        exact ih.sample row
      · exact hold.exec ht
      · rw [heq]
        exact hold

/-- In every state that the backends reach, in any order of their statements and whatever fails,
each row of `am$`, `ah$` and `ad$` is the aggregate of samples that were stored for its resource in
its minute, hour or day, none of them counted twice; and in each of its columns the average is the
total by the count and lies between the extremes, or there is nothing to aggregate. -/
theorem aggregates_made_of_samples (moves : List (AggregMove ι)) :
    (run moves).tables.Sound (stored moves) ∧
      ∀ x ∈ (run moves).tables.amRows ++ (run moves).tables.ahRows ++ (run moves).tables.adRows,
        ∀ c, (x.columns c).Coherent := by
  have h := sound_run moves
  refine ⟨h, fun x hx c => ?_⟩
  rw [List.mem_append, List.mem_append] at hx
  rcases hx with (hx | hx) | hx
  · obtain ⟨_, hparts⟩ := h.am.made x hx
    exact hparts.coherent c
  · obtain ⟨_, hparts⟩ := h.ah.made x hx
    exact hparts.coherent c
  · obtain ⟨_, hparts⟩ := h.ad.made x hx
    exact hparts.coherent c

end Aggregators

end WatchedBack
