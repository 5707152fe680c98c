import WatchedBack.Verification.Aggregates.History

/-! # Minute aggregates

`d$` holds the stored samples from some day on, and every earlier sample belongs to a minute
that has been given its row: so a row is always made of all samples of its minute. -/

namespace WatchedBack

open NullAggregates Grouping AggregState Ledger

/-! ### Runs -/

/-- The samples stored in a run. -/
def stored {ι : Type} (actions : List (AggregAction ι)) : List (Sample ι) :=
  actions.filterMap fun
    | .sample row => some row
    | _ => none

/-- What an earlier action of a run says about a later one: each key is written once, the clock
does not go back, and a sample arrives before the cut-off has passed its minute. -/
def InOrder {ι : Type} (cfg : AggregData) : AggregAction ι → AggregAction ι → Prop
  | .sample row, .sample row' => row.key ≠ row'.key
  | .pass _ now _, .sample row => cutoff now 60 cfg.delayAm ≤ row.bucket 60000
  | .pass _ now _, .pass _ now' _ => now ≤ now'
  | _, _ => True

/-- The assumptions on a run. -/
structure Orderly {ι : Type} (cfg : AggregData) (actions : List (AggregAction ι)) : Prop where
  inOrder : actions.Pairwise (InOrder cfg)
  firstMinute : ∀ row, .sample row ∈ actions → 60000 ≤ row.timestamp
  retention : 0 < cfg.retentionD → cfg.delayAm < 1440 * cfg.retentionD

section stored

variable {ι : Type} {cfg : AggregData} {actions : List (AggregAction ι)}

@[simp] theorem mem_stored {row : Sample ι} : row ∈ stored actions ↔ .sample row ∈ actions := by
  rw [stored, List.mem_filterMap]
  constructor
  · rintro ⟨a, ha, h⟩
    cases a <;> simp at h
    exact h ▸ ha
  · exact fun h => ⟨_, h, rfl⟩

@[simp] theorem stored_concat_sample (row : Sample ι) :
    stored (actions ++ [.sample row]) = stored actions ++ [row] := by
  simp [stored]

@[simp] theorem stored_concat_pass (fp : ℚ) (now : ℕ) (ok : AggregStmt → Bool) :
    stored (actions ++ [.pass fp now ok]) = stored actions := by
  simp [stored]

@[simp] theorem stored_concat_restart : stored (actions ++ [.restart]) = stored actions := by
  simp [stored]

theorem Orderly.of_concat {a : AggregAction ι} (h : Orderly cfg (actions ++ [a])) :
    Orderly cfg actions :=
  ⟨(List.pairwise_append.mp h.inOrder).1, fun row hrow => h.firstMinute row (by simp [hrow]),
    h.retention⟩

theorem Orderly.inOrder_last {a b : AggregAction ι} (h : Orderly cfg (actions ++ [a]))
    (hb : b ∈ actions) : InOrder cfg b a :=
  (List.pairwise_append.mp h.inOrder).2.2 b hb a List.mem_cons_self

theorem one_le_bucket {row : Sample ι} (h : 60000 ≤ row.timestamp) : 1 ≤ row.bucket 60000 := by
  rw [Row.le_bucket_iff (by decide)]
  norm_num
  exact h

theorem Orderly.one_le_bucket (h : Orderly cfg actions) {row : Sample ι}
    (hrow : .sample row ∈ actions) : 1 ≤ row.bucket 60000 :=
  WatchedBack.one_le_bucket (h.firstMinute row hrow)

/-- The row that a minute of a resource deserves. -/
def minuteRow (actions : List (AggregAction ι)) (res : ℕ × ℕ) (minute : ℤ) : AggregRow ι :=
  bucketRow 60000 colm (stored actions) res minute

/-! ### A row is written again -/

/-- A sample of the row's key becomes the row. -/
def AggregAction.renew (row : Sample ι) : AggregAction ι → AggregAction ι
  | .sample r => .sample (if r.key = row.key then row else r)
  | x => x

/-- The actions with the row in the place of the one of its key, as if nothing else had ever been
written there, or at the end. -/
def renewed (actions : List (AggregAction ι)) (row : Sample ι) : List (AggregAction ι) :=
  if ∃ r ∈ stored actions, r.key = row.key then actions.map (AggregAction.renew row)
  else actions ++ [.sample row]

theorem stored_renewed (actions : List (AggregAction ι)) (row : Sample ι) :
    stored (renewed actions row) = insertSample (stored actions) row := by
  rw [renewed, insertSample]
  by_cases hknown : ∃ r ∈ stored actions, r.key = row.key
  · rw [if_pos hknown, if_pos (List.mem_map.mpr hknown), stored, stored, List.filterMap_map,
      List.map_filterMap]
    congr 1
    funext x
    cases x <;> rfl
  · rw [if_neg hknown, if_neg fun hmem => hknown (List.mem_map.mp hmem)]
    exact stored_concat_sample row

theorem pass_mem_renewed {row : Sample ι} {fp : ℚ} {now : ℕ} {ok : AggregStmt → Bool} :
    .pass fp now ok ∈ renewed actions row ↔ .pass fp now ok ∈ actions := by
  rw [renewed]
  split
  · rw [List.mem_map]
    constructor
    · rintro ⟨x, hx, heq⟩
      cases x with
      | sample r => cases heq
      | pass fp' now' ok' => exact heq ▸ hx
      | restart => cases heq
    · exact fun h => ⟨_, h, rfl⟩
  · simp

theorem Orderly.renewed_eq {row : Sample ι} (h : Orderly cfg (actions ++ [.sample row])) :
    renewed actions row = actions ++ [.sample row] := by
  apply if_neg
  rintro ⟨r, hr, hkey⟩
  exact h.inOrder_last (mem_stored.mp hr) hkey

theorem bucket_of_key {row r : Sample ι} (h : r.key = row.key) (unit : ℕ) :
    r.bucket unit = row.bucket unit := by
  rw [Row.bucket, Row.bucket, show r.timestamp = row.timestamp from congrArg Prod.snd h]

section insertSample

variable {d : List (Sample ι)} {row r : Sample ι} {p : Sample ι → Bool}

theorem filter_insertSample_of_not (hp : ∀ r, r.key = row.key → p r = false) :
    (insertSample d row).filter p = d.filter p := by
  rw [insertSample]
  split
  · have hcomp : (p ∘ fun r => if r.key = row.key then row else r) = p := by
      funext r
      rw [Function.comp_apply]
      split
      · next hkey => rw [hp r hkey, hp row rfl]
      · rfl
    rw [List.filter_map, hcomp]
    conv_rhs => rw [← List.map_id (d.filter p)]
    apply List.map_congr_left
    intro r hr
    apply if_neg
    intro hkey
    rw [List.mem_filter, hp r hkey] at hr
    cases hr.2
  · rw [List.filter_append, List.filter_singleton, hp row rfl]
    exact List.append_nil _

theorem filter_insertSample_of (hp : ∀ r, r.key = row.key → p r = true) :
    (insertSample d row).filter p = insertSample (d.filter p) row := by
  have hmem : row.key ∈ (d.filter p).map Row.key ↔ row.key ∈ d.map Row.key := by
    simp only [List.mem_map, List.mem_filter]
    exact exists_congr fun r => ⟨fun h => ⟨h.1.1, h.2⟩, fun h => ⟨⟨h.1, hp r h.2⟩, h.2⟩⟩
  rw [insertSample, insertSample]
  simp only [hmem]
  split
  · have hcomp : (p ∘ fun r => if r.key = row.key then row else r) = p := by
      funext r
      rw [Function.comp_apply]
      split
      · next hkey => rw [hp r hkey, hp row rfl]
      · rfl
    rw [List.filter_map, hcomp]
  · rw [List.filter_append, List.filter_singleton, hp row rfl]
    rfl

theorem mem_insertSample_of_ne (h : r.key ≠ row.key) : r ∈ insertSample d row ↔ r ∈ d := by
  have hfilter : (insertSample d row).filter (fun x => decide (x.key ≠ row.key)) =
      d.filter fun x => decide (x.key ≠ row.key) :=
    filter_insertSample_of_not fun x hx => decide_eq_false (not_not.mpr hx)
  have hmem : r ∈ (insertSample d row).filter (fun x => decide (x.key ≠ row.key)) ↔
      r ∈ d.filter fun x => decide (x.key ≠ row.key) := by rw [hfilter]
  simpa [h] using hmem

end insertSample

end stored

/-! ### The invariant -/

section invariant

variable {ι : Type} {cfg : AggregData} {actions : List (AggregAction ι)} {s : AggregState ι}
  {now : ℕ} {stmt : AggregStmt} {t : Tables ι} {a p : ℤ}

/-- The resource has a row for the minute. -/
def HasMinute (rows : List (AggregRow ι)) (res : ℕ × ℕ) (minute : ℤ) : Prop :=
  ∃ x ∈ rows, x.key = (res, (minute : ℚ) * 60000)

/-- The resource has a sample in the minute. -/
def HasSample (actions : List (AggregAction ι)) (res : ℕ × ℕ) (minute : ℤ) : Prop :=
  ∃ row ∈ stored actions, row.res = res ∧ row.bucket 60000 = minute

/-- The samples before minute `a` have been aggregated, and `d$` holds those from day `p` on. -/
structure Aggregated (cfg : AggregData) (actions : List (AggregAction ι)) (s : AggregState ι)
    (a p : ℤ) : Prop where
  d_eq : s.tables.d = (stored actions).filter fun r => p * 1440 ≤ r.bucket 60000
  purged_le : p * 1440 ≤ a
  /-- No later sample lies before `a`. -/
  bound : ∀ m, 1 ≤ m →
    (∀ fp now ok, .pass fp now ok ∈ actions → cutoff now 60 cfg.delayAm ≤ m) → a ≤ m
  cutoff_le : ∀ e ∈ s.log, e.stmt.insertsAm = true → e.done = true →
    cutoff e.now 60 cfg.delayAm ≤ a
  am_nodup : (s.tables.amRows.map Row.key).Nodup
  /-- The rows of `am$` are those that their minutes deserve. -/
  am_exact : ∀ x ∈ s.tables.amRows, ∃ row ∈ stored actions, row.bucket 60000 < a ∧
    x = minuteRow actions row.res (row.bucket 60000)
  /-- Of each resource, `am$` has all the minutes from some day on. -/
  am_closed : ∀ res, ∃ b : ℤ, ∀ m, HasMinute s.tables.amRows res m ↔
    b * 1440 ≤ m ∧ m < a ∧ HasSample actions res m

theorem HasSample.one_le (hO : Orderly cfg actions) {res : ℕ × ℕ} {m : ℤ}
    (h : HasSample actions res m) : 1 ≤ m := by
  obtain ⟨row, hrow, -, rfl⟩ := h
  exact hO.one_le_bucket (mem_stored.mp hrow)

theorem minuteRow_key (res : ℕ × ℕ) (m : ℤ) :
    (minuteRow actions res m).key = (res, (m : ℚ) * 60000) := rfl

theorem minuteRow_renewed {row : Sample ι} {res : ℕ × ℕ} {m : ℤ} (h : m < row.bucket 60000) :
    minuteRow (renewed actions row) res m = minuteRow actions res m := by
  have hfilter (rows : List (Sample ι)) :
      bucketRow 60000 colm (rows.filter fun r => decide (r.bucket 60000 < row.bucket 60000)) res m =
        bucketRow 60000 colm rows res m :=
    bucketRow_filter fun r _ _ hb => decide_eq_true (hb ▸ h)
  rw [minuteRow, minuteRow, stored_renewed, ← hfilter, filter_insertSample_of_not, hfilter]
  intro r hkey
  rw [bucket_of_key hkey]
  exact decide_eq_false (lt_irrefl _)

theorem mem_renewed_of_lt {row r : Sample ι} (h : r.bucket 60000 < row.bucket 60000) :
    r ∈ stored (renewed actions row) ↔ r ∈ stored actions := by
  rw [stored_renewed]
  apply mem_insertSample_of_ne
  intro hkey
  rw [bucket_of_key hkey] at h
  exact lt_irrefl _ h

theorem hasSample_renewed {row : Sample ι} {res : ℕ × ℕ} {m : ℤ} (h : m < row.bucket 60000) :
    HasSample (renewed actions row) res m ↔ HasSample actions res m := by
  refine exists_congr fun r => ⟨?_, ?_⟩
  · rintro ⟨hr, hres, rfl⟩
    exact ⟨(mem_renewed_of_lt h).mp hr, hres, rfl⟩
  · rintro ⟨hr, hres, rfl⟩
    exact ⟨(mem_renewed_of_lt h).mpr hr, hres, rfl⟩

/-! ### A sample is stored -/

theorem Aggregated.le_bucket {row : Sample ι} (h : Aggregated cfg actions s a p)
    (hO : Orderly cfg (actions ++ [.sample row])) : a ≤ row.bucket 60000 := by
  refine h.bound _ (hO.one_le_bucket (by simp)) fun fp now ok hpass => ?_
  exact hO.inOrder_last hpass

/-- A row whose minute has not been aggregated is written, for the first time or again. -/
theorem Aggregated.renewed {row : Sample ι} (h : Aggregated cfg actions s a p)
    (hrow : a ≤ row.bucket 60000) :
    Aggregated cfg (renewed actions row) (s.step cfg (.sample row)) a p := by
  have hkeep : p * 1440 ≤ row.bucket 60000 := h.purged_le.trans hrow
  refine ⟨?_, h.purged_le, ?_, h.cutoff_le, h.am_nodup, ?_, ?_⟩
  · change insertSample s.tables.d row = _
    rw [h.d_eq, stored_renewed, filter_insertSample_of]
    intro r hkey
    rw [bucket_of_key hkey]
    exact decide_eq_true hkeep
  · intro m hm hpass
    exact h.bound m hm fun fp now ok hmem => hpass fp now ok (pass_mem_renewed.mpr hmem)
  · intro x hx
    obtain ⟨r, hr, hlt, rfl⟩ := h.am_exact x hx
    have hbefore := hlt.trans_le hrow
    exact ⟨r, (mem_renewed_of_lt hbefore).mpr hr, hlt, (minuteRow_renewed hbefore).symm⟩
  · intro res
    obtain ⟨b, hb⟩ := h.am_closed res
    refine ⟨b, fun m => (hb m).trans (and_congr_right fun _ => and_congr_right fun hlt => ?_)⟩
    exact (hasSample_renewed (hlt.trans_le hrow)).symm

theorem Aggregated.sample {row : Sample ι} (h : Aggregated cfg actions s a p)
    (hO : Orderly cfg (actions ++ [.sample row])) :
    Aggregated cfg (actions ++ [.sample row]) (s.step cfg (.sample row)) a p := by
  rw [← hO.renewed_eq]
  exact h.renewed (h.le_bucket hO)

/-! ### A pass begins, or the program is restarted -/

theorem Aggregated.concat {x : AggregAction ι} (h : Aggregated cfg actions s a p)
    (hx : stored (actions ++ [x]) = stored actions) :
    Aggregated cfg (actions ++ [x]) s a p := by
  refine ⟨?_, h.purged_le, ?_, h.cutoff_le, h.am_nodup, ?_, ?_⟩
  · simpa only [hx] using h.d_eq
  · intro m hm hpass
    exact h.bound m hm fun fp now ok hmem => hpass fp now ok (by simp [hmem])
  · simpa only [minuteRow, hx] using h.am_exact
  · simpa only [HasSample, hx] using h.am_closed

/-! ### A statement is sent -/

/-- Every minute that counts as aggregated lies before the cut-off of the pass. -/
theorem Aggregated.lt_cutoff (h : Aggregated cfg actions s a p) (hpass : InPass actions now)
    {m : ℤ} (hm : 1 ≤ m) (hlt : m < a) : m < cutoff now 60 cfg.delayAm := by
  by_contra hge
  have hle := h.bound m hm fun fp now' ok hmem =>
    (cutoff_mono (hpass.2 fp now' ok hmem) 60 cfg.delayAm).trans (not_lt.mp hge)
  omega

/-- A statement selects for `am$` the newer minutes before the cut-off, each with all its samples. -/
theorem Aggregated.mem_selected_am (h : Aggregated cfg actions s a p) (hO : Orderly cfg actions)
    (hadm : Admissible cfg now s stmt) (hstmt : stmt.insertsAm = true) {x : AggregRow ι} :
    x ∈ stmt.selected cfg now s.tables ↔ ∃ row ∈ s.tables.d,
      row.bucket 60000 < cutoff now 60 cfg.delayAm ∧
      Newer 60000 s.tables.amRows (s.tables.d.map Row.res) row.res (row.bucket 60000) ∧
      x = minuteRow actions row.res (row.bucket 60000) := by
  have hd : ∀ r ∈ s.tables.d, p * 1440 ≤ r.bucket 60000 ∧ 1 ≤ r.bucket 60000 := by
    intro r hr
    rw [h.d_eq, List.mem_filter, decide_eq_true_eq] at hr
    exact ⟨hr.2, hO.one_le_bucket (mem_stored.mp hr.1)⟩
  have hcreate : stmt = .createAm → s.tables.am = none := by
    rintro rfl
    exact hadm
  rw [selected_am hstmt (fun r hr => (hd r hr).2) hcreate, baseAm, mem_baseSelect]
  refine exists_congr fun row => and_congr_right fun hrow => and_congr_right fun _ =>
    and_congr_right fun _ => ?_
  -- `d$` holds all samples of the minute, as it holds one
  have hall : bucketRow 60000 colm s.tables.d row.res (row.bucket 60000) =
      minuteRow actions row.res (row.bucket 60000) := by
    rw [h.d_eq]
    refine bucketRow_filter fun r _ _ hb => ?_
    rw [hb]
    exact decide_eq_true (hd row hrow).1
  rw [hall]

/-! ### What the statement does to the tables -/

theorem Aggregated.nodup_selected_am (h : Aggregated cfg actions s a p)
    (hadm : Admissible cfg now s stmt) (hstmt : stmt.insertsAm = true) :
    ((s.tables.amRows ++ stmt.selected cfg now s.tables).map Row.key).Nodup := by
  simp only [AggregStmt.insertsAm, decide_eq_true_eq] at hstmt
  rcases hstmt with rfl | rfl
  · have ham : s.tables.amRows = [] := by
      simp [Tables.amRows, show s.tables.am = none from hadm]
    rw [ham, List.nil_append]
    exact nodup_aggregate (by decide)
  · exact nodup_append_baseSelect (by decide) h.am_nodup

theorem purge_keeps_minute_iff {ν : Type} (now retention : ℕ) (r : Row ι ν) :
    ¬ r.timestamp < cutoff now sec2day retention * (sec2day * 1000 : ℕ) ↔
      cutoff now sec2day retention * 1440 ≤ r.bucket 60000 := by
  have hday : r.bucket 86400000 = r.bucket 60000 / 1440 := @Row.bucket_mul ι ν 60000 1440 r
  rw [purge_keeps_iff, hday, Int.le_ediv_iff_mul_le (by decide)]

/-- A statement that does not insert into `am$` and purges neither of the two tables. -/
theorem Aggregated.of_tables_eq {s' : AggregState ι} (h : Aggregated cfg actions s a p)
    (hd : s'.tables.d = s.tables.d) (ham : s'.tables.amRows = s.tables.amRows)
    (hlog : ∀ e ∈ s'.log, e.stmt.insertsAm = true → e.done = true → e ∈ s.log) :
    Aggregated cfg actions s' a p := by
  refine ⟨hd ▸ h.d_eq, h.purged_le, h.bound, ?_, ham ▸ h.am_nodup, ham ▸ h.am_exact, ?_⟩
  · exact fun e he hins hdone => h.cutoff_le e (hlog e he hins hdone) hins hdone
  · exact ham ▸ h.am_closed

/-- A statement that does not insert into `am$` has no cut-off. -/
theorem Aggregated.cutoff_le_concat (h : Aggregated cfg actions s a p) {e : Executed ι}
    (he : e.stmt.insertsAm = false) : ∀ e' ∈ s.log ++ [e], e'.stmt.insertsAm = true →
      e'.done = true → cutoff e'.now 60 cfg.delayAm ≤ a := by
  intro e' he' hins hdone
  rw [List.mem_append, List.mem_singleton] at he'
  rcases he' with hold | rfl
  · exact h.cutoff_le e' hold hins hdone
  · rw [he] at hins
    cases hins

/-- The purge of `d$`: a `base_am` of the same pass has aggregated what it deletes. -/
theorem Aggregated.purgeD (h : Aggregated cfg actions s a p) (hO : Orderly cfg actions)
    (hadm : Admissible cfg now s .purgeD) (ht : s.tables.exec cfg now .purgeD = some t)
    (e : Executed ι) (he : e.stmt = .purgeD) :
    Aggregated cfg actions { s with tables := t, log := s.log ++ [e] } a
      (max p (cutoff now sec2day cfg.retentionD)) := by
  obtain ⟨hret, log, tb, hlog⟩ := hadm
  have hd := exec_d ht
  have ham := exec_am ht
  simp only [if_true, AggregStmt.insertsAm, reduceCtorEq, or_self, decide_false, if_false] at hd ham
  have hcut : cutoff now 60 cfg.delayAm ≤ a :=
    h.cutoff_le ⟨.baseAm, now, tb, true⟩ (by simp [hlog]) rfl rfl
  have hday : cutoff now sec2day cfg.retentionD * 1440 ≤ a := by
    have hdelay := hO.retention hret
    have hdiv : now / 86400 * 1440 ≤ now / 60 := by omega
    simp only [cutoff, sec2day] at hcut ⊢
    push_cast at hcut ⊢
    omega
  refine ⟨?_, ?_, h.bound, ?_, by simpa [ham] using h.am_nodup, by simpa [ham] using h.am_exact,
    by simpa [ham] using h.am_closed⟩
  · rw [hd, purge, h.d_eq, List.filter_filter]
    refine List.filter_congr fun r _ => ?_
    rw [Bool.eq_iff_iff]
    simp only [Bool.and_eq_true, decide_eq_true_eq, purge_keeps_minute_iff]
    omega
  · have := h.purged_le
    omega
  · exact h.cutoff_le_concat (by rw [he]; rfl)

/-- The purge of `am$`: it deletes whole days. -/
theorem Aggregated.purgeAm (h : Aggregated cfg actions s a p)
    (ht : s.tables.exec cfg now .purgeAm = some t) (e : Executed ι) (he : e.stmt = .purgeAm) :
    Aggregated cfg actions { s with tables := t, log := s.log ++ [e] } a p := by
  have hd := exec_d ht
  have ham := exec_am ht
  simp only [if_true, AggregStmt.insertsAm, reduceCtorEq, or_self, decide_false, if_false,
    Bool.false_eq_true] at hd ham
  have hsub : t.amRows.Sublist s.tables.amRows := ham ▸ List.filter_sublist
  refine ⟨by simpa [hd] using h.d_eq, h.purged_le, h.bound, ?_,
    h.am_nodup.sublist (hsub.map _), fun x hx => h.am_exact x (hsub.subset hx), ?_⟩
  · exact h.cutoff_le_concat (by rw [he]; rfl)
  · intro res
    obtain ⟨b, hb⟩ := h.am_closed res
    refine ⟨max b (cutoff now sec2day cfg.retentionAm), fun m => ?_⟩
    have hkept : HasMinute t.amRows res m ↔
        HasMinute s.tables.amRows res m ∧ cutoff now sec2day cfg.retentionAm * 1440 ≤ m := by
      have hiff : ∀ x : AggregRow ι, x.key = (res, (m : ℚ) * 60000) →
          (x ∈ t.amRows ↔ x ∈ s.tables.amRows ∧ cutoff now sec2day cfg.retentionAm * 1440 ≤ m) := by
        intro x hx
        have hbucket : x.bucket 60000 = m :=
          Row.bucket_of_timestamp (by decide) (congrArg Prod.snd hx)
        rw [ham, purge, List.mem_filter, decide_eq_true_eq, purge_keeps_minute_iff, hbucket]
      constructor
      · rintro ⟨x, hx, hkey⟩
        exact ⟨⟨x, ((hiff x hkey).mp hx).1, hkey⟩, ((hiff x hkey).mp hx).2⟩
      · rintro ⟨⟨x, hx, hkey⟩, hle⟩
        exact ⟨x, (hiff x hkey).mpr ⟨hx, hle⟩, hkey⟩
    change HasMinute t.amRows res m ↔ _
    rw [hkept, hb m]
    constructor
    · rintro ⟨⟨h₁, h₂, h₃⟩, h₄⟩
      exact ⟨by omega, h₂, h₃⟩
    · rintro ⟨h₁, h₂, h₃⟩
      exact ⟨⟨by omega, h₂, h₃⟩, by omega⟩

/-- The minutes that an insert selects, when the resource has a sample from `d$` in them. -/
theorem Aggregated.hasMinute_selected_iff (h : Aggregated cfg actions s a p)
    (hO : Orderly cfg actions) (hadm : Admissible cfg now s stmt)
    (hstmt : stmt.insertsAm = true) {res : ℕ × ℕ} {m : ℤ} :
    HasMinute (stmt.selected cfg now s.tables) res m ↔
      p * 1440 ≤ m ∧ m < cutoff now 60 cfg.delayAm ∧ HasSample actions res m ∧
        Newer 60000 s.tables.amRows (s.tables.d.map Row.res) res m := by
  constructor
  · rintro ⟨x, hx, hkey⟩
    obtain ⟨row, hrow, hlt, hnew, rfl⟩ := (h.mem_selected_am hO hadm hstmt).mp hx
    obtain ⟨rfl, hm⟩ := Prod.mk.inj hkey
    obtain rfl : row.bucket 60000 = m := by simpa [minuteRow] using hm
    rw [h.d_eq, List.mem_filter, decide_eq_true_eq] at hrow
    exact ⟨hrow.2, hlt, ⟨row, hrow.1, rfl, rfl⟩, hnew⟩
  · rintro ⟨hp, hlt, ⟨row, hrow, rfl, rfl⟩, hnew⟩
    have hd : row ∈ s.tables.d := by
      rw [h.d_eq, List.mem_filter, decide_eq_true_eq]
      exact ⟨hrow, hp⟩
    exact ⟨_, (h.mem_selected_am hO hadm hstmt).mpr ⟨row, hd, hlt, hnew, rfl⟩, rfl⟩

/-- The rows of a resource are all older than a minute that has not been aggregated. -/
theorem Aggregated.newer_of_le (h : Aggregated cfg actions s a p) (hO : Orderly cfg actions)
    {res : ℕ × ℕ} {m : ℤ} (hsample : HasSample actions res m) (hp : p * 1440 ≤ m)
    (hge : a ≤ m ∨ ∀ x ∈ s.tables.amRows, x.res ≠ res) :
    Newer 60000 s.tables.amRows (s.tables.d.map Row.res) res m := by
  obtain ⟨row, hrow, rfl, rfl⟩ := hsample
  have hd : row ∈ s.tables.d := by
    rw [h.d_eq, List.mem_filter, decide_eq_true_eq]
    exact ⟨hrow, hp⟩
  refine ⟨Or.inr (List.mem_map_of_mem hd), ?_, fun _ => ?_⟩
  · intro x hx hres
    rcases hge with hge | hnone
    · obtain ⟨r, -, hlt, rfl⟩ := h.am_exact x hx
      have hlt' : ((r.bucket 60000 : ℤ) : ℚ) < row.bucket 60000 := by
        exact_mod_cast hlt.trans_le hge
      simp only [minuteRow, bucketRow_timestamp]
      gcongr
    · exact absurd hres (hnone x hx)
  · have hpos : (1 : ℚ) ≤ row.bucket 60000 := by
      exact_mod_cast hO.one_le_bucket (mem_stored.mp hrow)
    positivity

/-- Of each resource, `am$` still has all the minutes from some day on. -/
theorem Aggregated.closed_insert (h : Aggregated cfg actions s a p) (hO : Orderly cfg actions)
    (hpass : InPass actions now) (hadm : Admissible cfg now s stmt)
    (hstmt : stmt.insertsAm = true) (res : ℕ × ℕ) :
    ∃ b : ℤ, ∀ m, HasMinute (s.tables.amRows ++ stmt.selected cfg now s.tables) res m ↔
      b * 1440 ≤ m ∧ m < max a (cutoff now 60 cfg.delayAm) ∧ HasSample actions res m := by
  obtain ⟨b, hb⟩ := h.am_closed res
  have hsplit : ∀ m, HasMinute (s.tables.amRows ++ stmt.selected cfg now s.tables) res m ↔
      HasMinute s.tables.amRows res m ∨ HasMinute (stmt.selected cfg now s.tables) res m := by
    intro m
    simp only [HasMinute, List.mem_append, or_and_right, exists_or]
  by_cases hsome : ∃ x ∈ s.tables.amRows, x.res = res
  · -- the resource has rows: the insert continues after the last of them
    refine ⟨b, fun m => ?_⟩
    obtain ⟨x, hx, hres⟩ := hsome
    rw [hsplit, hb m, h.hasMinute_selected_iff hO hadm hstmt]
    constructor
    · rintro (⟨h₁, h₂, h₃⟩ | ⟨-, h₂, h₃, hnew⟩)
      · exact ⟨h₁, by omega, h₃⟩
      · refine ⟨?_, by omega, h₃⟩
        obtain ⟨r, -, -, rfl⟩ := h.am_exact x hx
        have hlow := ((hb (r.bucket 60000)).mp ⟨_, hx, by rw [minuteRow_key, ← hres]; rfl⟩).1
        have hlt := hnew.2.1 _ hx hres
        simp only [minuteRow, bucketRow_timestamp] at hlt
        have hlt' : r.bucket 60000 < m := by
          have := lt_of_mul_lt_mul_right hlt (by norm_num)
          exact_mod_cast this
        omega
    · rintro ⟨h₁, h₂, h₃⟩
      by_cases hlt : m < a
      · exact Or.inl ⟨h₁, hlt, h₃⟩
      · have hge : a ≤ m := not_lt.mp hlt
        have hp : p * 1440 ≤ m := h.purged_le.trans hge
        exact Or.inr ⟨hp, by omega, h₃, h.newer_of_le hO h₃ hp (Or.inl hge)⟩
  · -- the resource starts anew, with all of its samples in `d$`
    refine ⟨p, fun m => ?_⟩
    have hnone : ∀ x ∈ s.tables.amRows, x.res ≠ res := fun x hx hres => hsome ⟨x, hx, hres⟩
    have hnot : ¬ HasMinute s.tables.amRows res m := by
      rintro ⟨x, hx, hkey⟩
      exact hnone x hx (congrArg Prod.fst hkey)
    rw [hsplit, h.hasMinute_selected_iff hO hadm hstmt]
    constructor
    · rintro (hold | ⟨h₁, h₂, h₃, -⟩)
      · exact absurd hold hnot
      · exact ⟨h₁, by omega, h₃⟩
    · rintro ⟨h₁, h₂, h₃⟩
      have hlt : m < cutoff now 60 cfg.delayAm := by
        by_cases hlt : m < a
        · exact h.lt_cutoff hpass (h₃.one_le hO) hlt
        · omega
      exact Or.inr ⟨h₁, hlt, h₃, h.newer_of_le hO h₃ h₁ (Or.inr hnone)⟩

/-- An insert into `am$` that is done. -/
theorem Aggregated.insertAm (h : Aggregated cfg actions s a p) (hO : Orderly cfg actions)
    (hpass : InPass actions now) (hadm : Admissible cfg now s stmt)
    (hstmt : stmt.insertsAm = true) (ht : s.tables.exec cfg now stmt = some t) (done : Bool) :
    Aggregated cfg actions { s with tables := t, log := s.log ++ [⟨stmt, now, s.tables, done⟩] }
      (max a (cutoff now 60 cfg.delayAm)) p := by
  have hne : stmt ≠ .purgeD := by
    rintro rfl
    cases hstmt
  have hd : t.d = s.tables.d := (exec_d ht).trans (if_neg hne)
  have ham : t.amRows = s.tables.amRows ++ stmt.selected cfg now s.tables :=
    (exec_am ht).trans (if_pos hstmt)
  have hle := h.purged_le
  refine ⟨by simpa [hd] using h.d_eq, by omega, ?_, ?_, ?_, ?_, ?_⟩
  · intro m hm hcut
    obtain ⟨fp, ok, hmem⟩ := hpass.1
    exact max_le (h.bound m hm hcut) (hcut fp now ok hmem)
  · intro e he hins hdone
    rw [List.mem_append, List.mem_singleton] at he
    rcases he with hold | rfl
    · exact (h.cutoff_le e hold hins hdone).trans (le_max_left _ _)
    · exact le_max_right _ _
  · change (t.amRows.map Row.key).Nodup
    rw [ham]
    exact h.nodup_selected_am hadm hstmt
  · intro x hx
    change x ∈ t.amRows at hx
    rw [ham, List.mem_append] at hx
    rcases hx with hx | hx
    · obtain ⟨row, hrow, hlt, hx⟩ := h.am_exact x hx
      exact ⟨row, hrow, hlt.trans_le (le_max_left _ _), hx⟩
    · obtain ⟨row, hrow, hlt, -, hx⟩ := (h.mem_selected_am hO hadm hstmt).mp hx
      rw [h.d_eq] at hrow
      exact ⟨row, List.mem_of_mem_filter hrow, hlt.trans_le (le_max_right _ _), hx⟩
  · intro res
    change ∃ b : ℤ, ∀ m, HasMinute t.amRows res m ↔ _
    rw [ham]
    exact h.closed_insert hO hpass hadm hstmt res

/-- Whatever a pass sends, the invariant is kept, and more may have been aggregated. -/
theorem Aggregated.send (h : Aggregated cfg actions s a p) (hO : Orderly cfg actions)
    (hpass : InPass actions now) (ok : AggregStmt → Bool) (hadm : Admissible cfg now s stmt) :
    ∃ a' p', Aggregated cfg actions (s.send cfg ok now stmt).1 a' p' ∧
      (a' = a ∨ stmt.insertsAm = true ∧ (s.send cfg ok now stmt).2 = true ∧
        a' = max a (cutoff now 60 cfg.delayAm)) := by
  rcases send_cases cfg ok now s stmt with ⟨t, ht, heq⟩ | heq
  · rw [heq]
    by_cases hins : stmt.insertsAm = true
    · exact ⟨_, p, h.insertAm hO hpass hadm hins ht true, Or.inr ⟨hins, rfl, rfl⟩⟩
    · by_cases hpd : stmt = .purgeD
      · subst hpd
        exact ⟨a, _, h.purgeD hO hadm ht _ rfl, Or.inl rfl⟩
      · by_cases hpa : stmt = .purgeAm
        · subst hpa
          exact ⟨a, p, h.purgeAm ht _ rfl, Or.inl rfl⟩
        · have hd : t.d = s.tables.d := (exec_d ht).trans (if_neg hpd)
          have ham : t.amRows = s.tables.amRows :=
            (exec_am ht).trans ((if_neg hins).trans (if_neg hpa))
          refine ⟨a, p, h.of_tables_eq hd ham ?_, Or.inl rfl⟩
          intro e he hins' _
          rw [List.mem_append, List.mem_singleton] at he
          rcases he with hold | rfl
          · exact hold
          · exact absurd hins' hins
  · rw [heq]
    refine ⟨a, p, h.of_tables_eq rfl rfl ?_, Or.inl rfl⟩
    intro e he _ hdone
    rw [List.mem_append, List.mem_singleton] at he
    rcases he with hold | rfl
    · exact hold
    · cases hdone

/-! ### What the log tells -/

/-- The minute has been given its row by a statement of the log. -/
def Given (cfg : AggregData) (log : List (Executed ι)) (res : ℕ × ℕ) (minute : ℤ) : Prop :=
  ∃ e ∈ log, e.stmt.insertsAm = true ∧ e.done = true ∧
    HasMinute (e.stmt.selected cfg e.now e.before) res minute

/-- No statement meets a row that it selects; each row is what its minute deserves; and after a
statement that is done, all minutes before its cut-off have been given their rows. -/
structure MinutesExact (cfg : AggregData) (actions : List (AggregAction ι))
    (log : List (Executed ι)) : Prop where
  fresh : ∀ e ∈ log, e.stmt.insertsAm = true →
    ((e.before.amRows ++ e.stmt.selected cfg e.now e.before).map Row.key).Nodup
  exact : ∀ e ∈ log, e.stmt.insertsAm = true → ∀ x ∈ e.stmt.selected cfg e.now e.before,
    ∃ row ∈ stored actions, row.bucket 60000 < cutoff e.now 60 cfg.delayAm ∧
      x = minuteRow actions row.res (row.bucket 60000)
  complete : ∀ l₁ e l₂, log = l₁ ++ e :: l₂ → e.stmt.insertsAm = true → e.done = true →
    ∀ res m, HasSample actions res m → m < cutoff e.now 60 cfg.delayAm →
      Given cfg (l₁ ++ [e]) res m

/-- With the passes that sent the statements, and what has been aggregated so far. -/
structure MinuteLog (cfg : AggregData) (actions : List (AggregAction ι))
    (log : List (Executed ι)) (a : ℤ) : Prop extends MinutesExact cfg actions log where
  sent : ∀ e ∈ log, ∃ fp ok, .pass fp e.now ok ∈ actions
  given : ∀ res m, HasSample actions res m → m < a → Given cfg log res m

theorem Given.append {log : List (Executed ι)} {res : ℕ × ℕ} {m : ℤ} (h : Given cfg log res m)
    (more : List (Executed ι)) : Given cfg (log ++ more) res m := by
  obtain ⟨e, he, hrest⟩ := h
  exact ⟨e, List.mem_append_left _ he, hrest⟩

theorem MinuteLog.renewed {row : Sample ι} {log : List (Executed ι)}
    (h : MinuteLog cfg actions log a) (hrow : a ≤ row.bucket 60000)
    (hlate : ∀ fp now ok, .pass fp now ok ∈ actions →
      cutoff now 60 cfg.delayAm ≤ row.bucket 60000) :
    MinuteLog cfg (renewed actions row) log a := by
  have hcut : ∀ e ∈ log, cutoff e.now 60 cfg.delayAm ≤ row.bucket 60000 := by
    intro e he
    obtain ⟨fp, ok, hmem⟩ := h.sent e he
    exact hlate fp e.now ok hmem
  refine ⟨⟨h.fresh, ?_, ?_⟩, ?_, ?_⟩
  · intro e he hins x hx
    obtain ⟨r, hr, hlt, rfl⟩ := h.exact e he hins x hx
    have hbefore := hlt.trans_le (hcut e he)
    exact ⟨r, (mem_renewed_of_lt hbefore).mpr hr, hlt, (minuteRow_renewed hbefore).symm⟩
  · intro l₁ e l₂ hlog hins hdone res m hsample hlt
    have he : e ∈ log := by simp [hlog]
    rw [hasSample_renewed (hlt.trans_le (hcut e he))] at hsample
    exact h.complete l₁ e l₂ hlog hins hdone res m hsample hlt
  · intro e he
    obtain ⟨fp, ok, hmem⟩ := h.sent e he
    exact ⟨fp, ok, pass_mem_renewed.mpr hmem⟩
  · intro res m hsample hlt
    rw [hasSample_renewed (hlt.trans_le hrow)] at hsample
    exact h.given res m hsample hlt

theorem MinuteLog.sample {row : Sample ι} {log : List (Executed ι)} (h : MinuteLog cfg actions log a)
    (hO : Orderly cfg (actions ++ [.sample row])) (hrow : a ≤ row.bucket 60000) :
    MinuteLog cfg (actions ++ [.sample row]) log a := by
  rw [← hO.renewed_eq]
  exact h.renewed hrow fun fp now ok hmem => hO.inOrder_last hmem

theorem MinuteLog.concat_action {x : AggregAction ι} {log : List (Executed ι)}
    (h : MinuteLog cfg actions log a) (hx : stored (actions ++ [x]) = stored actions) :
    MinuteLog cfg (actions ++ [x]) log a := by
  refine ⟨⟨h.fresh, ?_, ?_⟩, ?_, ?_⟩
  · simpa only [minuteRow, hx] using h.exact
  · simpa only [HasSample, hx] using h.complete
  · intro e he
    obtain ⟨fp, ok, hmem⟩ := h.sent e he
    exact ⟨fp, ok, by simp [hmem]⟩
  · simpa only [HasSample, hx] using h.given

/-- The statement at the end of the log is the only new one. -/
theorem MinuteLog.concat_entry {log : List (Executed ι)} {e : Executed ι} {a' : ℤ}
    (h : MinuteLog cfg actions log a) (hsent : ∃ fp ok, .pass fp e.now ok ∈ actions)
    (hfresh : e.stmt.insertsAm = true →
      ((e.before.amRows ++ e.stmt.selected cfg e.now e.before).map Row.key).Nodup)
    (hexact : e.stmt.insertsAm = true → ∀ x ∈ e.stmt.selected cfg e.now e.before,
      ∃ row ∈ stored actions, row.bucket 60000 < cutoff e.now 60 cfg.delayAm ∧
        x = minuteRow actions row.res (row.bucket 60000))
    (hgiven : ∀ res m, HasSample actions res m → m < a' → Given cfg (log ++ [e]) res m)
    (hcut : e.stmt.insertsAm = true → e.done = true → cutoff e.now 60 cfg.delayAm ≤ a') :
    MinuteLog cfg actions (log ++ [e]) a' := by
  have hall : ∀ e' ∈ log ++ [e], e' ∈ log ∨ e' = e := by simp
  refine ⟨⟨?_, ?_, ?_⟩, ?_, hgiven⟩
  · intro e' he' hins
    rcases hall e' he' with hold | rfl
    · exact h.fresh e' hold hins
    · exact hfresh hins
  · intro e' he' hins
    rcases hall e' he' with hold | rfl
    · exact h.exact e' hold hins
    · exact hexact hins
  · apply forall_split_concat h.complete
    intro hins hdone res m hsample hlt
    exact hgiven res m hsample (hlt.trans_le (hcut hins hdone))
  · intro e' he'
    rcases hall e' he' with hold | rfl
    · exact h.sent e' hold
    · exact hsent

/-- The invariant of runs. -/
def Recorded (cfg : AggregData) (actions : List (AggregAction ι)) (s : AggregState ι) : Prop :=
  ∃ a p, Aggregated cfg actions s a p ∧ MinuteLog cfg actions s.log a

theorem Recorded.send (h : Recorded cfg actions s) (hO : Orderly cfg actions)
    (hpass : InPass actions now) (ok : AggregStmt → Bool) (hadm : Admissible cfg now s stmt) :
    Recorded cfg actions (s.send cfg ok now stmt).1 := by
  obtain ⟨a, p, hA, hL⟩ := h
  obtain ⟨a', p', hA', ha'⟩ := hA.send hO hpass ok hadm
  refine ⟨a', p', hA', ?_⟩
  rw [send_log]
  refine hL.concat_entry hpass.1 (hA.nodup_selected_am hadm) ?_ ?_ ?_
  · intro hins x hx
    obtain ⟨row, hrow, hlt, -, rfl⟩ := (hA.mem_selected_am hO hadm hins).mp hx
    rw [hA.d_eq] at hrow
    exact ⟨row, List.mem_of_mem_filter hrow, hlt, rfl⟩
  · intro res m hsample hlt
    by_cases hold : m < a
    · exact (hL.given res m hsample hold).append _
    · -- a minute that this statement aggregates
      have hge : a ≤ m := not_lt.mp hold
      rcases ha' with rfl | ⟨hins, hdone, rfl⟩
      · exact absurd hlt hold
      · have hp : p * 1440 ≤ m := hA.purged_le.trans hge
        refine ⟨_, List.mem_append_right _ List.mem_cons_self, hins, hdone, ?_⟩
        exact (hA.hasMinute_selected_iff hO hadm hins).mpr
          ⟨hp, by omega, hsample, hA.newer_of_le hO hsample hp (Or.inl hge)⟩
  · intro hins hdone
    exact hA'.cutoff_le _ (by rw [send_log]; simp) hins hdone

theorem Recorded.skip (h : Recorded cfg actions s) (hpass : InPass actions now)
    (hstmt : stmt.insertsAm = false) :
    Recorded cfg actions { s with log := s.log ++ [⟨stmt, now, s.tables, false⟩] } := by
  obtain ⟨a, p, hA, hL⟩ := h
  refine ⟨a, p, hA.of_tables_eq rfl rfl ?_, hL.concat_entry hpass.1 ?_ ?_ ?_ ?_⟩
  · intro e he _ hdone
    rw [List.mem_append, List.mem_singleton] at he
    rcases he with hold | rfl
    · exact hold
    · cases hdone
  · exact fun hins => absurd hins (by simp [hstmt])
  · exact fun hins => absurd hins (by simp [hstmt])
  · exact fun res m hsample hlt => (hL.given res m hsample hlt).append _
  · exact fun hins => absurd hins (by simp [hstmt])

theorem Recorded.setData (h : Recorded cfg actions s) (data : Option Schedule) :
    Recorded cfg actions { s with data := data } := by
  obtain ⟨a, p, hA, hL⟩ := h
  exact ⟨a, p, hA.of_tables_eq rfl rfl fun e he _ _ => he, hL⟩

theorem Recorded.concat {x : AggregAction ι} (h : Recorded cfg actions s)
    (hx : stored (actions ++ [x]) = stored actions) : Recorded cfg (actions ++ [x]) s := by
  obtain ⟨a, p, hA, hL⟩ := h
  exact ⟨a, p, hA.concat hx, hL.concat_action hx⟩

theorem insertsAm_eq_false (hjob : stmt.creates = false) (hne : stmt ≠ .baseAm) :
    stmt.insertsAm = false := by
  cases stmt <;> simp_all [AggregStmt.creates, AggregStmt.insertsAm]

theorem Recorded.pass (h : Recorded cfg actions s) (hO : Orderly cfg actions)
    (hpass : InPass actions now) (fp : ℚ) (ok : AggregStmt → Bool) :
    Recorded cfg actions (s.pass cfg ok fp now) :=
  pass_rule (fun s => Recorded cfg actions s) (fun _ data hs => hs.setData data)
    (fun _ _ hadm hs => hs.send hO hpass ok hadm)
    (fun _ _ hjob hne hs => hs.skip hpass (insertsAm_eq_false hjob hne)) h

theorem Orderly.inPass {fp : ℚ} {ok : AggregStmt → Bool}
    (hO : Orderly cfg (actions ++ [.pass fp now ok])) :
    InPass (actions ++ [.pass fp now ok]) now := by
  apply inPass_concat
  refine hO.inOrder.imp fun {x y} h => ?_
  cases x <;> cases y <;> first | exact h | trivial

theorem recorded_initial : Recorded cfg [] (initial ι) := by
  refine ⟨0, 0, ⟨rfl, by simp, fun m hm _ => by omega, by simp [initial], ?_, ?_, ?_⟩,
    ⟨⟨by simp [initial], by simp [initial], by simp [initial]⟩, by simp [initial], ?_⟩⟩
  · simp [initial, Tables.amRows]
  · simp [initial, Tables.amRows]
  · exact fun res => ⟨0, by simp [initial, Tables.amRows, HasMinute, HasSample, stored]⟩
  · simp [HasSample, stored]

theorem recorded_run (hO : Orderly cfg actions) : Recorded cfg actions (run cfg actions) := by
  induction actions using List.reverseRecOn with
  | nil => exact recorded_initial
  | append_singleton actions x ih =>
      have h := ih hO.of_concat
      rw [run_concat]
      cases x with
      | sample row =>
          obtain ⟨a, p, hA, hL⟩ := h
          exact ⟨a, p, hA.sample hO, hL.sample hO (hA.le_bucket hO)⟩
      | pass fp now ok => exact (h.concat (by simp)).pass hO hO.inPass fp ok
      | restart => exact (h.concat (by simp)).setData none

/-! ### Every insert is done -/

/-- Where the server carries out every statement, no insert into `am$` fails. -/
structure AmDone (s : AggregState ι) : Prop where
  loaded : s.data.isSome → s.tables.am.isSome
  done : ∀ e ∈ s.log, e.stmt.insertsAm = true → e.done = true

theorem AmDone.log_concat {e : Executed ι} (h : ∀ e ∈ s.log, e.stmt.insertsAm = true → e.done = true)
    (he : e.stmt.insertsAm = true → e.done = true) :
    ∀ e' ∈ s.log ++ [e], e'.stmt.insertsAm = true → e'.done = true := by
  intro e' he'
  rw [List.mem_append, List.mem_singleton] at he'
  rcases he' with hold | rfl
  · exact h e' hold
  · exact he

theorem Recorded.send_done (h : Recorded cfg actions s) {ok : AggregStmt → Bool}
    (hok : ∀ stmt, ok stmt = true) (hadm : Admissible cfg now s stmt)
    (ham : stmt = .baseAm → s.tables.am.isSome) (hins : stmt.insertsAm = true) :
    (s.send cfg ok now stmt).2 = true := by
  obtain ⟨a, p, hA, -⟩ := h
  have hnodup := hA.nodup_selected_am hadm hins
  simp only [AggregStmt.insertsAm, decide_eq_true_eq] at hins
  rcases hins with rfl | rfl
  · have hnone : s.tables.am = none := hadm
    simp [AggregState.send, hok, Tables.exec, hnone]
  · obtain ⟨am, hsome⟩ := Option.isSome_iff_exists.mp (ham rfl)
    have hrows : s.tables.amRows = am := by simp [Tables.amRows, hsome]
    rw [hrows] at hnodup
    have hinsert := insertRows_eq_some.mpr ⟨hnodup, rfl⟩
    simp [AggregState.send, hok, Tables.exec, hsome, hinsert]

theorem AmDone.pass (h : AmDone s) (hR : Recorded cfg actions s) (hO : Orderly cfg actions)
    (hpass : InPass actions now) (fp : ℚ) {ok : AggregStmt → Bool} (hok : ∀ stmt, ok stmt = true) :
    AmDone (s.pass cfg ok fp now) := by
  have hload : Recorded cfg actions (s.load cfg ok now) ∧
      ∀ e ∈ (s.load cfg ok now).log, e.stmt.insertsAm = true → e.done = true := by
    refine load_rule (fun s => Recorded cfg actions s ∧
      ∀ e ∈ s.log, e.stmt.insertsAm = true → e.done = true)
      (fun s data hs => ⟨hs.1.setData data, hs.2⟩) ?_ ⟨hR, h.done⟩
    intro s stmt hcreates hadm ⟨hs, hdone⟩
    refine ⟨hs.send hO hpass ok hadm, ?_⟩
    rw [send_log]
    refine AmDone.log_concat hdone (hs.send_done hok hadm ?_)
    rintro rfl
    cases hcreates
  have ham : (s.load cfg ok now).tables.am.isSome := load_am_isSome hok h.loaded
  unfold AggregState.pass
  simp only
  split
  · exact ⟨fun _ => ham, hload.2⟩
  · next next _ =>
      let Q : AggregState ι → Prop := fun s => Recorded cfg actions s ∧ s.tables.am.isSome ∧
        ∀ e ∈ s.log, e.stmt.insertsAm = true → e.done = true
      have hjobs : Q ((lowJobs cfg fp next ++ medJobs cfg fp next ++ highJobs cfg fp next).foldl
          (AggregState.append cfg ok now) (s.load cfg ok now, true)).1 := by
        refine jobs_rule Q next ?_ ?_ ⟨hload.1, ham, hload.2⟩
        · intro s stmt _ hadm ⟨hs, hsome, hdone⟩
          refine ⟨hs.send hO hpass ok hadm, send_am_isSome cfg ok now stmt hsome, ?_⟩
          rw [send_log]
          exact AmDone.log_concat hdone (hs.send_done hok hadm fun _ => hsome)
        · intro s stmt hjob hne ⟨hs, hsome, hdone⟩
          have hins := insertsAm_eq_false hjob hne
          exact ⟨hs.skip hpass hins, hsome, AmDone.log_concat hdone (by simp [hins])⟩
      exact ⟨fun _ => hjobs.2.1, hjobs.2.2⟩

theorem amDone_run (hO : Orderly cfg actions)
    (hok : ∀ fp now ok, .pass fp now ok ∈ actions → ∀ stmt, ok stmt = true) :
    AmDone (run cfg actions) := by
  induction actions using List.reverseRecOn with
  | nil => exact ⟨by simp [run, initial], by simp [run, initial]⟩
  | append_singleton actions x ih =>
      have h := ih hO.of_concat fun fp now ok hmem => hok fp now ok (by simp [hmem])
      rw [run_concat]
      cases x with
      | sample row => exact ⟨h.loaded, h.done⟩
      | pass fp now ok =>
          have hR := (recorded_run hO.of_concat).concat (stored_concat_pass fp now ok)
          exact h.pass hR hO hO.inPass fp (hok fp now ok (by simp))
      | restart => exact ⟨by simp [step], h.done⟩

end invariant

/-- Minute aggregates are exact over whole runs: no statement meets a row that it selects, every
row is made of all samples of its minute that are ever stored, all statements are done, and after
each of them every minute before its cut-off that has samples has been given its row. -/
theorem minutes_exact {ι : Type} (cfg : AggregData) (actions : List (AggregAction ι))
    (hO : Orderly cfg actions)
    (hok : ∀ fp now ok, .pass fp now ok ∈ actions → ∀ stmt, ok stmt = true) :
    MinutesExact cfg actions (run cfg actions).log ∧
      ∀ e ∈ (run cfg actions).log, e.stmt.insertsAm = true → e.done = true := by
  obtain ⟨a, p, -, hL⟩ := recorded_run hO
  exact ⟨hL.toMinutesExact, (amDone_run hO hok).done⟩

/-! ### One resource -/

/-- Every delay and retention is one unit; days are kept for ever. -/
def unitDelays : AggregData := ⟨1, 1, 1, 1, 1, 1, 0⟩

/-- A sample of one resource with one column. -/
def sampleAt (timestamp : ℚ) (value : ℚ) : Sample Unit := ⟨1, 2, timestamp, fun _ => some value⟩

/-- A pass whose statements are all carried out. -/
def passAt (now : ℕ) : AggregAction Unit := .pass (now * 1000) now fun _ => true

/-- Two samples of one minute, and one that arrives while a pass has aggregated that minute only. -/
def threeSamples : List (AggregAction Unit) :=
  [.sample (sampleAt 864060000 3), .sample (sampleAt 864090000 5), passAt 864300,
    .sample (sampleAt 864270000 7), passAt 864500, passAt 868200]

theorem minutes_exact_day :
    MinutesExact unitDelays threeSamples (run unitDelays threeSamples).log := by
  have hO : Orderly unitDelays threeSamples := by
    refine ⟨?_, ?_, by decide⟩
    · have hminute : cutoff 864300 60 unitDelays.delayAm ≤ (sampleAt 864270000 7).bucket 60000 := by
        rw [Row.le_bucket_iff (by decide)]
        norm_num [cutoff, unitDelays, sampleAt]
      simpa [threeSamples, InOrder, passAt, sampleAt, Row.key] using hminute
    · intro row hrow
      simp only [threeSamples, passAt, List.mem_cons, List.not_mem_nil, or_false,
        AggregAction.sample.injEq, reduceCtorEq, false_or] at hrow
      rcases hrow with rfl | rfl | rfl <;> norm_num [sampleAt]
  refine (minutes_exact unitDelays _ hO ?_).1
  intro fp now ok hmem stmt
  simp only [threeSamples, passAt, List.mem_cons, List.not_mem_nil, or_false,
    AggregAction.pass.injEq, reduceCtorEq, false_or] at hmem
  rcases hmem with ⟨-, -, rfl⟩ | ⟨-, -, rfl⟩ | ⟨-, -, rfl⟩ <;> rfl

end WatchedBack
