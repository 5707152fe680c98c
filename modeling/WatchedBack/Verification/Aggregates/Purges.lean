import WatchedBack.Library.Watermarks
import WatchedBack.Verification.Aggregates.Hour

/-! # What a purge deletes has been aggregated -/

namespace WatchedBack

open NullAggregates Grouping AggregState Ledger Watermarks

/-! ### The two jobs -/

/-- The statements that insert into a table, how long its buckets are in milliseconds, and the
cut-off at a time of the clock. -/
structure AggregJob where
  inserts : AggregStmt → Bool
  unit : ℕ
  before : ℕ → ℤ

namespace AggregData

variable (cfg : AggregData)

/-- From `d$` to `am$`. -/
def minutes : AggregJob := ⟨AggregStmt.insertsAm, 60000, fun now => cutoff now 60 cfg.delayAm⟩

/-- From `am$` to `ah$`. -/
def hours : AggregJob := ⟨AggregStmt.insertsAh, 3600000, fun now => cutoff now 3600 cfg.delayAh⟩

end AggregData

namespace AggregJob

variable {ι : Type} (l : AggregJob)

/-- The cut-offs of the inserts that were done. -/
def passed (log : List (Executed ι)) : Set ℤ :=
  {c | ∃ e ∈ log, l.inserts e.stmt = true ∧ e.done = true ∧ l.before e.now = c}

/-- The bucket of a resource has been given a row. -/
def Inserted (cfg : AggregData) (log : List (Executed ι)) (res : ℕ × ℕ) (b : ℤ) : Prop :=
  ∃ e ∈ log, l.inserts e.stmt = true ∧ e.done = true ∧
    ∃ x ∈ e.stmt.selected cfg e.now e.before, x.res = res ∧ x.bucket l.unit = b

def given (cfg : AggregData) (log : List (Executed ι)) : Set ((ℕ × ℕ) × ℤ) :=
  {k | l.Inserted cfg log k.1 k.2}

end AggregJob

/-- The buckets that have rows. -/
def buckets {ι ν : Type} (unit : ℕ) (rows : List (Row ι ν)) : Set ((ℕ × ℕ) × ℤ) :=
  {k | ∃ r ∈ rows, (r.res, r.bucket unit) = k}

/-- Those from the second on. -/
def dueBuckets {ι ν : Type} (unit : ℕ) (rows : List (Row ι ν)) : Set ((ℕ × ℕ) × ℤ) :=
  {k ∈ buckets unit rows | 1 ≤ k.2}

section buckets

variable {ι ν : Type} {unit : ℕ} {rows rows' : List (Row ι ν)}

theorem mem_buckets {r : Row ι ν} (h : r ∈ rows) : (r.res, r.bucket unit) ∈ buckets unit rows :=
  ⟨r, h, rfl⟩

theorem buckets_mono (h : rows' ⊆ rows) : buckets unit rows' ⊆ buckets unit rows := by
  intro k hk
  obtain ⟨r, hr, rfl⟩ := hk
  exact mem_buckets (h hr)

theorem dueBuckets_mono (h : rows' ⊆ rows) : dueBuckets unit rows' ⊆ dueBuckets unit rows :=
  fun _ hk => ⟨buckets_mono h hk.1, hk.2⟩

theorem buckets_append : buckets unit (rows ++ rows') = buckets unit rows ∪ buckets unit rows' := by
  ext k
  simp only [buckets, Set.mem_ofPred_eq, Set.mem_union, List.mem_append, or_and_right, exists_or]

theorem dueBuckets_append :
    dueBuckets unit (rows ++ rows') = dueBuckets unit rows ∪ dueBuckets unit rows' := by
  ext k
  simp only [dueBuckets, buckets_append, Set.mem_ofPred_eq, Set.mem_union, or_and_right]

theorem buckets_nil : buckets unit ([] : List (Row ι ν)) = ∅ := by
  ext k
  simp [buckets]

theorem dueBuckets_nil : dueBuckets unit ([] : List (Row ι ν)) = ∅ := by
  ext k
  simp [dueBuckets, buckets_nil]

theorem purge_subset (now retention : ℕ) (rows : List (Row ι ν)) :
    purge now retention rows ⊆ rows :=
  List.filter_subset_self _

theorem purgedIf_subset (now retention : ℕ) (rows : List (Row ι ν)) (purges : Prop)
    [Decidable purges] : (if purges then purge now retention rows else rows) ⊆ rows := by
  split
  · exact purge_subset now retention rows
  · exact List.Subset.refl rows

/-- A purge deletes only rows of buckets before its midnight. -/
theorem bucket_lt_of_purged {n now retention : ℕ} {r : Row ι ν} (hday : unit * n = 86400000)
    (hr : r ∈ rows) (hgone : r ∉ purge now retention rows) :
    r.bucket unit < cutoff now sec2day retention * n := by
  have hn : 0 < n := by
    refine Nat.pos_of_ne_zero fun h => ?_
    simp [h] at hday
  have hkept : ¬ cutoff now sec2day retention ≤ r.bucket 86400000 := by
    intro hle
    refine hgone (List.mem_filter.mpr ⟨hr, ?_⟩)
    exact decide_eq_true ((purge_keeps_iff now retention r).mpr hle)
  rw [← hday, Row.bucket_mul, Int.le_ediv_iff_mul_le (by exact_mod_cast hn)] at hkept
  exact not_le.mp hkept

end buckets

/-! ### What the jobs take over -/

/-- A select that inserts: its rows lie before the limit, and of the source it leaves out only
what the target has passed. -/
structure TakesOver {ι ν : Type} (unit : ℕ) (before : ℤ) (source : List (Row ι ν))
    (target selected : List (AggregRow ι)) : Prop where
  lt_before : ∀ k ∈ buckets unit selected, k.2 < before
  all : ∀ k ∈ dueBuckets unit source, k.2 < before →
    k ∈ buckets unit selected ∨ ∃ k' ∈ buckets unit target, k.2 ≤ k'.2

section select

variable {ι ν : Type} {unit : ℕ} {col : List ν → Aggregate ℚ} {source : List (Row ι ν)}
  {target : List (AggregRow ι)} {before : ℤ}

theorem takesOver_createSelect (hunit : 0 < unit) :
    TakesOver unit before source target (createSelect unit col before source) := by
  refine ⟨?_, ?_⟩
  · intro k hk
    obtain ⟨x, hx, rfl⟩ := hk
    obtain ⟨r, -, hlt, rfl⟩ := mem_createSelect.mp hx
    rw [bucketRow_bucket hunit]
    exact hlt
  · intro k hk hlt
    obtain ⟨⟨r, hr, rfl⟩, -⟩ := hk
    refine Or.inl ⟨_, mem_createSelect.mpr ⟨r, hr, hlt, rfl⟩, ?_⟩
    rw [bucketRow_res, bucketRow_bucket hunit]

/-- The join holds 0 for each resource of the source, so the first bucket is left out. -/
theorem takesOver_baseSelect (hunit : 0 < unit) :
    TakesOver unit before source target
      (baseSelect unit col before target (source.map Row.res) source) := by
  refine ⟨?_, ?_⟩
  · intro k hk
    obtain ⟨x, hx, rfl⟩ := hk
    obtain ⟨r, -, hlt, -, rfl⟩ := mem_baseSelect.mp hx
    rw [bucketRow_bucket hunit]
    exact hlt
  · intro k hk hlt
    obtain ⟨⟨r, hr, rfl⟩, hone⟩ := hk
    have hpos : (0 : ℚ) < unit := by exact_mod_cast hunit
    by_cases hold : ∀ x ∈ target, x.res = r.res → x.timestamp < (r.bucket unit : ℚ) * unit
    · have hzero : (0 : ℚ) < (r.bucket unit : ℚ) * unit := by
        have hbucket : (1 : ℚ) ≤ r.bucket unit := by exact_mod_cast hone
        positivity
      have hnew : Newer unit target (source.map Row.res) r.res (r.bucket unit) :=
        ⟨Or.inr (List.mem_map_of_mem hr), hold, fun _ => hzero⟩
      refine Or.inl ⟨_, mem_baseSelect.mpr ⟨r, hr, hlt, hnew, rfl⟩, ?_⟩
      rw [bucketRow_res, bucketRow_bucket hunit]
    · push Not at hold
      obtain ⟨x, hx, -, hle⟩ := hold
      exact Or.inr ⟨_, mem_buckets hx, (Row.le_bucket_iff hunit).mpr hle⟩

end select

section stmts

variable {ι : Type} {cfg : AggregData} {now : ℕ} {stmt : AggregStmt} {t : Tables ι}

theorem takesOver_am (hins : stmt.insertsAm = true) :
    TakesOver 60000 (cfg.minutes.before now) t.d t.amRows (stmt.selected cfg now t) := by
  simp only [AggregStmt.insertsAm, decide_eq_true_eq] at hins
  rcases hins with rfl | rfl
  · exact takesOver_createSelect (by decide)
  · exact takesOver_baseSelect (by decide)

theorem takesOver_ah (hins : stmt.insertsAh = true) :
    TakesOver 3600000 (cfg.hours.before now) t.amRows t.ahRows (stmt.selected cfg now t) := by
  simp only [AggregStmt.insertsAh, decide_eq_true_eq] at hins
  rcases hins with rfl | rfl
  · exact takesOver_createSelect (by decide)
  · exact takesOver_baseSelect (by decide)

end stmts

/-! ### What an entry adds to the log -/

section log

variable {ι : Type} {cfg : AggregData} {l : AggregJob} {log : List (Executed ι)} {e : Executed ι}

theorem AggregJob.mem_passed_concat (hins : l.inserts e.stmt = true) (hdone : e.done = true) :
    l.before e.now ∈ l.passed (log ++ [e]) :=
  ⟨e, List.mem_append_right _ List.mem_cons_self, hins, hdone, rfl⟩

theorem AggregJob.passed_concat (hins : l.inserts e.stmt = true) (hdone : e.done = true) :
    l.passed (log ++ [e]) = insert (l.before e.now) (l.passed log) := by
  ext c
  simp only [AggregJob.passed, List.mem_append, List.mem_singleton, Set.mem_ofPred_eq,
    Set.mem_insert_iff]
  constructor
  · rintro ⟨e', he' | rfl, hrest⟩
    · exact Or.inr ⟨e', he', hrest⟩
    · exact Or.inl hrest.2.2.symm
  · rintro (rfl | ⟨e', he', hrest⟩)
    · exact ⟨e, Or.inr rfl, hins, hdone, rfl⟩
    · exact ⟨e', Or.inl he', hrest⟩

theorem AggregJob.passed_concat_of_not (h : ¬ (l.inserts e.stmt = true ∧ e.done = true)) :
    l.passed (log ++ [e]) = l.passed log := by
  ext c
  simp only [AggregJob.passed, List.mem_append, List.mem_singleton, Set.mem_ofPred_eq]
  constructor
  · rintro ⟨e', he' | rfl, hrest⟩
    · exact ⟨e', he', hrest⟩
    · exact absurd ⟨hrest.1, hrest.2.1⟩ h
  · rintro ⟨e', he', hrest⟩
    exact ⟨e', Or.inl he', hrest⟩

theorem AggregJob.given_concat : l.given cfg log ⊆ l.given cfg (log ++ [e]) := by
  rintro k ⟨e', he', hrest⟩
  exact ⟨e', List.mem_append_left _ he', hrest⟩

theorem AggregJob.selected_given (hins : l.inserts e.stmt = true) (hdone : e.done = true) :
    buckets l.unit (e.stmt.selected cfg e.now e.before) ⊆ l.given cfg (log ++ [e]) := by
  rintro k ⟨x, hx, rfl⟩
  exact ⟨e, List.mem_append_right _ List.mem_cons_self, hins, hdone, x, hx, rfl, rfl⟩

end log

/-! ### The invariant -/

/-- The source of a level is taken over into its target. -/
def AggregJob.Covered {ι ν : Type} (l : AggregJob) (cfg : AggregData) (log : List (Executed ι))
    (source : List (Row ι ν)) (target : List (AggregRow ι)) : Prop :=
  Covers Prod.snd (l.passed log) (l.given cfg log) (dueBuckets l.unit source)
    (buckets l.unit target)

section covered

variable {ι ν : Type} {cfg : AggregData} {l : AggregJob} {log : List (Executed ι)} {e : Executed ι}
  {source source' : List (Row ι ν)} {target target' : List (AggregRow ι)}

theorem covered_nil : l.Covered cfg log ([] : List (Row ι ν)) [] := by
  rw [AggregJob.Covered, dueBuckets_nil, buckets_nil]
  exact covers_empty _ _ _

theorem AggregJob.Covered.drop (h : l.Covered cfg log source target) (hsource : source' ⊆ source)
    (htarget : target' ⊆ target) : l.Covered cfg log source' target' :=
  Covers.drop h (dueBuckets_mono hsource) (buckets_mono htarget)

/-- A statement of another level, or one that is not done. -/
theorem AggregJob.Covered.concat (h : l.Covered cfg log source target)
    (he : ¬ (l.inserts e.stmt = true ∧ e.done = true)) :
    l.Covered cfg (log ++ [e]) source target := by
  rw [AggregJob.Covered, AggregJob.passed_concat_of_not he]
  exact Covers.give h AggregJob.given_concat

theorem AggregJob.Covered.arrive (h : l.Covered cfg log source target)
    (hmore : ∀ r ∈ source', ∀ c ∈ l.passed log, c ≤ r.bucket l.unit) :
    l.Covered cfg log (source ++ source') target := by
  rw [AggregJob.Covered, dueBuckets_append]
  apply Covers.arrive h
  intro k hk c hc
  obtain ⟨⟨r, hr, rfl⟩, -⟩ := hk
  exact hmore r hr c hc

/-- An insert that is done. -/
theorem AggregJob.Covered.cut (h : l.Covered cfg log source target)
    (hins : l.inserts e.stmt = true) (hdone : e.done = true)
    (htakes : TakesOver l.unit (l.before e.now) source target
      (e.stmt.selected cfg e.now e.before)) :
    l.Covered cfg (log ++ [e]) source (target ++ e.stmt.selected cfg e.now e.before) := by
  rw [AggregJob.Covered, AggregJob.passed_concat hins hdone, buckets_append]
  apply Covers.cut h AggregJob.given_concat htakes.lt_before
  intro k hk hlt
  rcases htakes.all k hk hlt with hnew | hold
  · exact Or.inl (AggregJob.selected_given hins hdone hnew)
  · exact Or.inr hold

/-- Where an insert of the level was done at the time of the purge and the retention exceeds
its delay, the deleted rows have been taken over. -/
theorem AggregJob.Covered.inserted (h : l.Covered cfg log source target) {n now retention : ℕ}
    (hday : l.unit * n = 86400000) (hpassed : l.before now ∈ l.passed log)
    (hretention : cutoff now sec2day retention * n ≤ l.before now) {r : Row ι ν}
    (hr : r ∈ source) (hgone : r ∉ purge now retention source) (hone : 1 ≤ r.bucket l.unit) :
    l.Inserted cfg log r.res (r.bucket l.unit) := by
  have hlt := bucket_lt_of_purged hday hr hgone
  exact h.source_given _ ⟨mem_buckets hr, hone⟩ _ hpassed (hlt.trans_le hretention)

end covered

/-- Each positive retention exceeds the delay of the job that reads the table. -/
structure AggregData.Retains (cfg : AggregData) : Prop where
  d : 0 < cfg.retentionD → cfg.delayAm < 1440 * cfg.retentionD
  am : 0 < cfg.retentionAm → cfg.delayAh < 24 * cfg.retentionAm

theorem AggregData.Retains.minutes_before {cfg : AggregData} (h : cfg.Retains)
    (hret : 0 < cfg.retentionD) (now : ℕ) :
    cutoff now sec2day cfg.retentionD * (1440 : ℕ) ≤ cfg.minutes.before now := by
  have hdelay := h.d hret
  have hdiv : now / 86400 * 1440 ≤ now / 60 := by omega
  simp only [AggregData.minutes, cutoff, sec2day]
  push_cast
  omega

theorem AggregData.Retains.hours_before {cfg : AggregData} (h : cfg.Retains)
    (hret : 0 < cfg.retentionAm) (now : ℕ) :
    cutoff now sec2day cfg.retentionAm * (24 : ℕ) ≤ cfg.hours.before now := by
  have hdelay := h.am hret
  have hdiv : now / 86400 * 24 ≤ now / 3600 := by omega
  simp only [AggregData.hours, cutoff, sec2day]
  push_cast
  omega

/-- The rows that a purge deletes, but for those of the first bucket of the epoch, belong to
buckets whose rows were inserted before. -/
def PurgesCovered {ι : Type} (cfg : AggregData) (log : List (Executed ι)) : Prop :=
  ∀ l₁ e l₂, log = l₁ ++ e :: l₂ → e.done = true →
    (e.stmt = .purgeD → ∀ r ∈ e.before.d, r ∉ purge e.now cfg.retentionD e.before.d →
      1 ≤ r.bucket 60000 → cfg.minutes.Inserted cfg l₁ r.res (r.bucket 60000)) ∧
    (e.stmt = .purgeAm → ∀ r ∈ e.before.amRows,
      r ∉ purge e.now cfg.retentionAm e.before.amRows →
      1 ≤ r.bucket 3600000 → cfg.hours.Inserted cfg l₁ r.res (r.bucket 3600000))

/-- No row of `am$` is inserted after an hour job whose cut-off lies beyond its hour. -/
def MinutesInTime {ι : Type} (cfg : AggregData) (log : List (Executed ι)) : Prop :=
  log.Pairwise fun e e' => e.stmt.insertsAh = true → e.done = true →
    e'.stmt.insertsAm = true → e'.done = true →
      ∀ x ∈ e'.stmt.selected cfg e'.now e'.before, cfg.hours.before e.now ≤ x.bucket 3600000

instance {ι : Type} (cfg : AggregData) (log : List (Executed ι)) :
    Decidable (MinutesInTime cfg log) :=
  inferInstanceAs (Decidable (List.Pairwise _ _))

theorem MinutesInTime.of_concat {ι : Type} {cfg : AggregData} {log : List (Executed ι)}
    {e : Executed ι} (h : MinutesInTime cfg (log ++ [e])) : MinutesInTime cfg log :=
  (List.pairwise_append.mp h).1

theorem MinutesInTime.last {ι : Type} {cfg : AggregData} {log : List (Executed ι)}
    {e : Executed ι} (h : MinutesInTime cfg (log ++ [e])) (hins : e.stmt.insertsAm = true)
    (hdone : e.done = true) : ∀ x ∈ e.stmt.selected cfg e.now e.before,
      ∀ c ∈ cfg.hours.passed log, c ≤ x.bucket 3600000 := by
  intro x hx c hc
  obtain ⟨e', he', hah, hdone', rfl⟩ := hc
  exact (List.pairwise_append.mp h).2.2 e' he' e List.mem_cons_self hah hdone' hins hdone x hx

/-- The invariant of runs. -/
structure Kept {ι : Type} (cfg : AggregData) (s : AggregState ι) : Prop where
  minutes : cfg.minutes.Covered cfg s.log s.tables.d s.tables.amRows
  hours : cfg.hours.Covered cfg s.log s.tables.amRows s.tables.ahRows
  purges : PurgesCovered cfg s.log

section kept

variable {ι : Type} {cfg : AggregData} {s : AggregState ι} {now : ℕ} {stmt : AggregStmt}
  {t : Tables ι}

theorem Kept.skip (h : Kept cfg s) (stmt : AggregStmt) (now : ℕ) :
    Kept cfg { s with log := s.log ++ [⟨stmt, now, s.tables, false⟩] } := by
  refine ⟨h.minutes.concat (by simp), h.hours.concat (by simp), ?_⟩
  apply forall_split_concat h.purges
  exact fun hdone => by cases hdone

/-- What a purge deletes was aggregated by the insert before it. -/
theorem Kept.purges_concat (h : Kept cfg s) (hcfg : cfg.Retains) (done : Bool)
    (hprep : Prepared cfg now s stmt) :
    PurgesCovered cfg (s.log ++ [⟨stmt, now, s.tables, done⟩]) := by
  apply forall_split_concat h.purges
  intro _
  refine ⟨?_, ?_⟩
  · rintro rfl r hr hgone hone
    obtain ⟨⟨hret, log, t, hlog⟩, -⟩ := hprep
    have hpassed : cfg.minutes.before now ∈ cfg.minutes.passed s.log := by
      rw [hlog]
      exact AggregJob.mem_passed_concat rfl rfl
    have hday : cfg.minutes.unit * 1440 = 86400000 := by norm_num [AggregData.minutes]
    exact h.minutes.inserted hday hpassed (hcfg.minutes_before hret now) hr hgone hone
  · rintro rfl r hr hgone hone
    obtain ⟨hret, hlast⟩ := hprep
    obtain ⟨log, t, hlog⟩ := hlast rfl
    have hpassed : cfg.hours.before now ∈ cfg.hours.passed s.log := by
      rw [hlog]
      exact AggregJob.mem_passed_concat rfl rfl
    have hday : cfg.hours.unit * 24 = 86400000 := by norm_num [AggregData.hours]
    exact h.hours.inserted hday hpassed (hcfg.hours_before hret now) hr hgone hone

/-- `d$` and `am$` after a statement that is done. -/
theorem Kept.minutes_exec (h : Kept cfg s) (ht : s.tables.exec cfg now stmt = some t) :
    cfg.minutes.Covered cfg (s.log ++ [⟨stmt, now, s.tables, true⟩]) t.d t.amRows := by
  rw [exec_d ht, exec_am ht]
  by_cases hins : stmt.insertsAm = true
  · have hne : stmt ≠ .purgeD := by
      rintro rfl
      cases hins
    rw [if_neg hne, if_pos hins]
    exact h.minutes.cut hins rfl (takesOver_am hins)
  · rw [if_neg hins]
    have hkept := h.minutes.concat (e := ⟨stmt, now, s.tables, true⟩) fun hboth => hins hboth.1
    exact hkept.drop (purgedIf_subset now _ _ _) (purgedIf_subset now _ _ _)

/-- `am$` and `ah$` after a statement that is done. -/
theorem Kept.hours_exec (h : Kept cfg s) (ht : s.tables.exec cfg now stmt = some t)
    (htime : MinutesInTime cfg (s.log ++ [⟨stmt, now, s.tables, true⟩])) :
    cfg.hours.Covered cfg (s.log ++ [⟨stmt, now, s.tables, true⟩]) t.amRows t.ahRows := by
  rw [exec_am ht, exec_ah ht]
  by_cases hah : stmt.insertsAh = true
  · have hne : stmt.insertsAm = false ∧ stmt ≠ .purgeAm := by
      simp only [AggregStmt.insertsAh, decide_eq_true_eq] at hah
      rcases hah with rfl | rfl
      · exact ⟨rfl, by decide⟩
      · exact ⟨rfl, by decide⟩
    rw [if_pos hah, hne.1, if_neg Bool.false_ne_true, if_neg hne.2]
    exact h.hours.cut hah rfl (takesOver_ah hah)
  · have hkept : cfg.hours.Covered cfg (s.log ++ [⟨stmt, now, s.tables, true⟩])
        (if stmt.insertsAm = true then s.tables.amRows ++ stmt.selected cfg now s.tables
          else s.tables.amRows) s.tables.ahRows := by
      refine AggregJob.Covered.concat ?_ fun hboth => hah hboth.1
      split
      · next ham =>
        exact h.hours.arrive (htime.last ham rfl)
      · exact h.hours
    rw [if_neg hah]
    refine hkept.drop ?_ ?_
    · split
      · exact List.Subset.refl _
      · exact purgedIf_subset now _ _ _
    · exact purgedIf_subset now _ _ _

theorem Kept.send (h : Kept cfg s) (hcfg : cfg.Retains) (ok : AggregStmt → Bool)
    (hprep : Prepared cfg now s stmt) (htime : MinutesInTime cfg (s.send cfg ok now stmt).1.log) :
    Kept cfg (s.send cfg ok now stmt).1 := by
  rcases send_cases cfg ok now s stmt with ⟨t, ht, heq⟩ | heq
  · rw [heq] at htime ⊢
    exact ⟨h.minutes_exec ht, h.hours_exec ht htime, h.purges_concat hcfg true hprep⟩
  · rw [heq]
    exact h.skip stmt now

/-- A sample that is stored before the cut-offs have passed its minute. -/
theorem Kept.sample (h : Kept cfg s) {row : Sample ι}
    (hrow : ∀ c ∈ cfg.minutes.passed s.log, c ≤ row.bucket 60000) :
    Kept cfg (s.step cfg (.sample row)) := by
  refine ⟨?_, h.hours, h.purges⟩
  have harrived : cfg.minutes.Covered cfg s.log (s.tables.d ++ [row]) s.tables.amRows := by
    apply h.minutes.arrive
    intro r hr
    rw [List.mem_singleton.mp hr]
    exact hrow
  refine harrived.drop ?_ (List.Subset.refl _)
  intro r hr
  change r ∈ insertSample s.tables.d row at hr
  rw [insertSample] at hr
  split at hr
  · obtain ⟨r', hr', rfl⟩ := List.mem_map.mp hr
    split
    · exact List.mem_append_right _ List.mem_cons_self
    · exact List.mem_append_left _ hr'
  · exact hr

end kept

/-! ### Runs -/

section runs

variable {ι : Type} {cfg : AggregData} {actions : List (AggregAction ι)}

/-- Each row arrives before the cut-off of a job that was done has passed its bucket: a sample
before the minute jobs, a row of `am$` before the hour jobs. -/
structure ArriveInTime (cfg : AggregData) (actions : List (AggregAction ι)) : Prop where
  samples : ∀ as row bs, actions = as ++ .sample row :: bs →
    ∀ c ∈ cfg.minutes.passed (run cfg as).log, c ≤ row.bucket 60000
  minutes : MinutesInTime cfg (run cfg actions).log

/-- The log speaks of the passes of the run only. -/
theorem samples_of_inOrder (h : actions.Pairwise (InOrder cfg)) :
    ∀ as row bs, actions = as ++ .sample row :: bs →
      ∀ c ∈ cfg.minutes.passed (run cfg as).log, c ≤ row.bucket 60000 := by
  intro as row bs hsplit c hc
  obtain ⟨e, he, -, -, rfl⟩ := hc
  rw [hsplit, List.pairwise_append] at h
  obtain ⟨has, -, hrow⟩ := h
  have hforward : as.Pairwise Forward := by
    refine has.imp fun {x y} hxy => ?_
    cases x <;> cases y <;> first | exact hxy | trivial
  obtain ⟨fp, ok, hmem⟩ := (timed_run hforward).1 e he
  exact hrow _ hmem _ List.mem_cons_self

theorem kept_run (hcfg : cfg.Retains)
    (hsamples : ∀ as row bs, actions = as ++ .sample row :: bs →
      ∀ c ∈ cfg.minutes.passed (run cfg as).log, c ≤ row.bucket 60000) :
    MinutesInTime cfg (run cfg actions).log → Kept cfg (run cfg actions) := by
  induction actions using List.reverseRecOn with
  | nil =>
      intro _
      refine ⟨covered_nil, covered_nil, ?_⟩
      · intro l₁ e l₂ hlog
        simp [run, initial] at hlog
  | append_singleton actions x ih =>
      have h := ih fun as row bs hsplit => hsamples as row (bs ++ [x]) (by simp [hsplit])
      rw [run_concat]
      cases x with
      | sample row =>
          intro htime
          exact (h htime).sample (hsamples actions row [] rfl)
      | pass fp now ok =>
          refine prepared_pass_rule (fun s => MinutesInTime cfg s.log → Kept cfg s) ?_ ?_ ?_ h
          · intro s data hs htime
            exact ⟨(hs htime).minutes, (hs htime).hours, (hs htime).purges⟩
          · intro s stmt hprep hs htime
            refine (hs ?_).send hcfg ok hprep htime
            rw [send_log] at htime
            exact htime.of_concat
          · intro s stmt _ _ hs htime
            exact (hs htime.of_concat).skip stmt now
      | restart =>
          intro htime
          exact ⟨(h htime).minutes, (h htime).hours, (h htime).purges⟩

/-- Nothing is purged before it is aggregated, whichever statements fail: a row that a purge of
`d$` or `am$` deletes belongs to a minute or an hour that was given its row before, unless that
is the first of the epoch. -/
theorem purged_after_aggregated {ι : Type} (cfg : AggregData) (actions : List (AggregAction ι))
    (hcfg : cfg.Retains) (htime : ArriveInTime cfg actions) :
    PurgesCovered cfg (run cfg actions).log :=
  (kept_run hcfg htime.samples htime.minutes).purges

end runs

/-! ### A sample that is purged, and one of the first minute -/

theorem retains_unitDelays : unitDelays.Retains := ⟨by decide, by decide⟩

/-- The first pass aggregates the sample, the second deletes it. -/
def purgedDay : List (AggregAction Unit) :=
  [.sample (sampleAt 864060000 3), passAt 875000, passAt 1038000]

theorem purged_after_aggregated_purgedDay :
    PurgesCovered unitDelays (run unitDelays purgedDay).log := by
  refine purged_after_aggregated unitDelays purgedDay retains_unitDelays ⟨?_, ?_⟩
  · exact samples_of_inOrder (by simp [purgedDay, passAt, InOrder])
  · decide +kernel

/-- `am$` exists when the sample comes, so it meets the join, which has 0 for its resource. -/
def firstMinute : List (AggregAction Unit) :=
  [passAt 60, .sample (sampleAt 30000 1), passAt 864000]

/-- The sample arrives in time, and is deleted without a row in `am$`. -/
theorem first_minute_purged :
    unitDelays.Retains ∧ firstMinute.Pairwise (InOrder unitDelays) ∧
      (∀ e ∈ (run unitDelays firstMinute).log, e.stmt.insertsAm = true →
        e.stmt.selected unitDelays e.now e.before = []) ∧
      ∃ l₁ e l₂, (run unitDelays firstMinute).log = l₁ ++ e :: l₂ ∧ e.done = true ∧
        e.stmt = .purgeD ∧ ∃ r ∈ e.before.d, r ∉ purge e.now unitDelays.retentionD e.before.d ∧
          ¬ unitDelays.minutes.Inserted unitDelays l₁ r.res (r.bucket 60000) := by
  have hnone : ∀ e ∈ (run unitDelays firstMinute).log, e.stmt.insertsAm = true →
      e.stmt.selected unitDelays e.now e.before = [] := by
    simp only [← List.isEmpty_iff]
    decide +kernel
  refine ⟨retains_unitDelays, ?_, hnone, ?_⟩
  · simp [firstMinute, passAt, InOrder, cutoff, unitDelays, Row.le_bucket_iff, sampleAt]
  · have hpurge : ∃ e ∈ (run unitDelays firstMinute).log, e.done = true ∧ e.stmt = .purgeD ∧
        ∃ r ∈ e.before.d,
          r.timestamp < cutoff e.now sec2day unitDelays.retentionD * (sec2day * 1000 : ℕ) := by
      decide +kernel
    obtain ⟨e, he, hdone, hstmt, r, hr, hold⟩ := hpurge
    obtain ⟨l₁, l₂, hlog⟩ := List.append_of_mem he
    have hgone : r ∉ purge e.now unitDelays.retentionD e.before.d := by
      intro hmem
      exact absurd hold (of_decide_eq_true (List.mem_filter.mp hmem).2)
    refine ⟨l₁, e, l₂, hlog, hdone, hstmt, r, hr, hgone, ?_⟩
    rintro ⟨e', he', hins, -, x, hx, -⟩
    rw [hnone e' (by simp [hlog, he']) hins] at hx
    cases hx

end WatchedBack
