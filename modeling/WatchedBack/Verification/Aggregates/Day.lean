import WatchedBack.Verification.Aggregates.Hour

/-! # Day aggregates

The day jobs take days before a limit that is counted in hours, so nearly every day. A row has
all hours of its day in those runs where no day job meets a day that is still being filled. -/

namespace WatchedBack

open NullAggregates Grouping AggregState Ledger

variable {ι : Type} {cfg : AggregData} {actions : List (AggregAction ι)} {log : List (Executed ι)}
  {now : ℕ}

/-- Every hour is inserted before its day has been over for the delay. -/
def HoursEarly (cfg : AggregData) (log : List (Executed ι)) : Prop :=
  ∀ e ∈ log, e.done = true → e.stmt.insertsAh = true →
    ∀ x ∈ e.stmt.selected cfg e.now e.before,
      cutoff e.now sec2day cfg.delayAd ≤ x.bucket 86400000

/-- The rows of `ah$` that a day job looks at: all, or those newer than the last day. -/
def Executed.Considers (e : Executed ι) (r : AggregRow ι) : Prop :=
  e.stmt = .createAd ∨ Newer 86400000 e.before.adRows (e.before.amRows.map Row.res) r.res
    (r.bucket 86400000)

instance (e : Executed ι) (r : AggregRow ι) : Decidable (e.Considers r) :=
  inferInstanceAs (Decidable (_ ∨ _))

/-- No day job meets a day between the limit in days and the one in hours. -/
def DayJobsDue (cfg : AggregData) (log : List (Executed ι)) : Prop :=
  ∀ e ∈ log, e.done = true → e.stmt.insertsAd = true → ∀ r ∈ e.before.ahRows, e.Considers r →
    r.bucket 86400000 < cutoff e.now 3600 cfg.delayAd →
      r.bucket 86400000 < cutoff e.now sec2day cfg.delayAd

/-- No purge takes an hour from `ah$` whose day has not been over for the delay. -/
def PurgesDue (cfg : AggregData) (log : List (Executed ι)) : Prop :=
  ∀ e ∈ log, ∀ r ∈ e.before.ahRows, e.PurgesAh cfg r →
    r.bucket 86400000 < cutoff e.now sec2day cfg.delayAd

/-- The row that a day of a resource deserves: made of all its hours that are ever inserted. -/
def dayRow (cfg : AggregData) (log : List (Executed ι)) (res : ℕ × ℕ) (day : ℤ) : AggregRow ι :=
  bucketRow 86400000 colh (insertedAh cfg log) res day

/-- Each row is made when its day is over, and has all of it. -/
def DaysComplete (cfg : AggregData) (log : List (Executed ι)) : Prop :=
  ∀ e ∈ log, e.done = true → e.stmt.insertsAd = true →
    ∀ x ∈ e.stmt.selected cfg e.now e.before,
      x.bucket 86400000 < (e.now / sec2day : ℕ) ∧ x = dayRow cfg log x.res (x.bucket 86400000)

/-! ### What the day jobs select -/

theorem mem_selected_ad {e : Executed ι} (hins : e.stmt.insertsAd = true) {x : AggregRow ι} :
    x ∈ e.stmt.selected cfg e.now e.before ↔ ∃ r ∈ e.before.ahRows,
      r.bucket 86400000 < cutoff e.now 3600 cfg.delayAd ∧ e.Considers r ∧
        x = bucketRow 86400000 colh e.before.ahRows r.res (r.bucket 86400000) := by
  simp only [AggregStmt.insertsAd, decide_eq_true_eq] at hins
  rcases hins with h | h
  · rw [h]
    refine mem_createSelect.trans (exists_congr fun r => ?_)
    simp [Executed.Considers, h, Tables.ahRows]
  · rw [h]
    refine mem_baseSelect.trans (exists_congr fun r => ?_)
    simp [Executed.Considers, h, Tables.ahRows, Tables.adRows, Tables.amRows]

/-! ### What `ah$` holds -/

/-- At any time `ah$` holds all hours ever inserted of the days from some bound on, and the
bound lies before the days that are still being filled. -/
theorem from_changesAh (hsorted : log.Pairwise fun e e' => e.now ≤ e'.now)
    (hearly : HoursEarly cfg log) (hpurge : PurgesDue cfg log)
    (hbefore : ∀ l₁ e l₂, log = l₁ ++ e :: l₂ → e.before.ahRows = replay (changesAh cfg l₁))
    (hnow : ∀ e ∈ log, e.now ≤ now) :
    ∃ bound ≤ cutoff now sec2day cfg.delayAd,
      From (Row.bucket 86400000) bound (changesAh cfg log) := by
  induction log using List.reverseRecOn generalizing now with
  | nil => exact ⟨_, le_rfl, from_nil _ _⟩
  | append_singleton log e ih =>
      obtain ⟨hold, -, hle⟩ := List.pairwise_append.mp hsorted
      have hlast : e ∈ log ++ [e] := by simp
      obtain ⟨bound, hbound, hfrom⟩ := ih hold
        (fun e' he' => hearly e' (List.mem_append_left _ he'))
        (fun e' he' => hpurge e' (List.mem_append_left _ he'))
        (fun l₁ e' l₂ hlog => hbefore l₁ e' (l₂ ++ [e]) (by simp [hlog]))
        (fun e' he' => hle e' he' e List.mem_cons_self)
      have hcut : cutoff e.now sec2day cfg.delayAd ≤ cutoff now sec2day cfg.delayAd :=
        cutoff_mono (hnow e hlast) _ _
      rw [changesAh_append, changesAh_cons, changesAh_nil, Executed.changeAh]
      split
      · next h =>
        -- an insert: its days are still being filled
        refine ⟨bound, hbound.trans hcut, hfrom.insert fun x hx => ?_⟩
        exact hbound.trans (hearly e hlast h.1 h.2 x hx)
      · split
        · next h =>
          -- a purge: the days that it takes are complete
          refine ⟨_, max_le (hbound.trans hcut) (min_le_right (cutoff e.now sec2day cfg.retentionAh)
            _ |>.trans hcut), hfrom.keep fun x hx => ?_⟩
          rw [← hbefore log e [] rfl] at hx
          rw [decide_eq_true_eq, purge_keeps_iff, min_le_iff]
          refine ⟨Or.inl, fun hor => ?_⟩
          by_contra hlt
          have htaken : e.PurgesAh cfg x := by
            refine ⟨h.2, h.1, ?_⟩
            by_contra hge
            exact hlt ((purge_keeps_iff _ _ _).mp hge)
          have := hpurge e hlast x hx htaken
          omega
        · exact ⟨bound, hbound.trans hcut, hfrom.insert (by simp)⟩

/-- Daily aggregates are complete where no day job meets a day that is still being filled, and
no purge takes hours of such a day. -/
theorem days_complete {ι : Type} (cfg : AggregData) (actions : List (AggregAction ι))
    (hdelay : 1 ≤ cfg.delayAd) (hclock : actions.Pairwise Forward)
    (hearly : HoursEarly cfg (run cfg actions).log) (hdue : DayJobsDue cfg (run cfg actions).log)
    (hpurge : PurgesDue cfg (run cfg actions).log) :
    DaysComplete cfg (run cfg actions).log := by
  obtain ⟨-, hsorted⟩ := timed_run hclock
  obtain ⟨-, hbefore⟩ := explained_run cfg actions
  intro e he hdone hins x hx
  obtain ⟨r, hr, hlt, hcons, rfl⟩ := (mem_selected_ad hins).mp hx
  have hover := hdue e he hdone hins r hr hcons hlt
  rw [bucketRow_bucket (by decide), bucketRow_res]
  refine ⟨?_, ?_⟩
  · simp only [cutoff] at hover
    omega
  · -- the hours before the job are in `ah$`, and those after it are of later days
    obtain ⟨l₁, l₂, hlog⟩ := List.append_of_mem he
    rw [hlog] at hsorted hearly hpurge
    obtain ⟨hsorted₁, hsorted₂, hle⟩ := List.pairwise_append.mp hsorted
    obtain ⟨bound, -, hfrom⟩ := from_changesAh hsorted₁
      (fun e' he' => hearly e' (List.mem_append_left _ he'))
      (fun e' he' => hpurge e' (List.mem_append_left _ he'))
      (fun l₁' e' l₂' h => hbefore l₁' e' (l₂' ++ e :: l₂) (by simp [hlog, h]))
      (fun e' he' => hle e' he' e List.mem_cons_self)
    have hbound : bound ≤ r.bucket 86400000 := by
      rw [hbefore l₁ e l₂ hlog, hfrom, List.mem_filter, decide_eq_true_eq] at hr
      exact hr.2
    have hfound : bucketRow 86400000 colh e.before.ahRows r.res (r.bucket 86400000) =
        bucketRow 86400000 colh (insertedAh cfg l₁) r.res (r.bucket 86400000) := by
      rw [hbefore l₁ e l₂ hlog, hfrom]
      refine bucketRow_filter fun q _ _ hq => ?_
      rw [hq]
      exact decide_eq_true hbound
    have hall : insertedAh cfg (l₁ ++ e :: l₂) =
        insertedAh cfg l₁ ++ insertedAh cfg (e :: l₂) := by
      rw [insertedAh, changesAh_append, inserted_append]
      rfl
    rw [hfound, dayRow, hlog, hall]
    refine (bucketRow_append fun q hq _ => ?_).symm
    obtain ⟨e', he', hdone', hins', hq⟩ := mem_insertedAh.mp hq
    have hday := hearly e' (List.mem_append_right _ he') hdone' hins' q hq
    have hnow : e.now ≤ e'.now := by
      rcases List.mem_cons.mp he' with rfl | hlater
      · exact le_rfl
      · exact (List.pairwise_cons.mp hsorted₂).1 e' hlater
    have := cutoff_mono hnow sec2day cfg.delayAd
    omega

/-! ### A quiet day, and a busy one -/

/-- Unit delays, and everything is kept for ever. -/
def keepAll : AggregData := ⟨1, 1, 1, 0, 0, 0, 0⟩

/-- The day job runs before the only sample, and again two days later. -/
def quietDay : List (AggregAction Unit) :=
  [passAt 865800, .sample (sampleAt 867630000 3), passAt 874800, passAt 1040400]

theorem days_complete_quietDay :
    DaysComplete keepAll (run keepAll quietDay).log ∧
      ∃ e ∈ (run keepAll quietDay).log, e.done = true ∧ e.stmt = .baseAd ∧
        (e.stmt.selected keepAll e.now e.before).map Row.key = [((1, 2), 864000000)] := by
  refine ⟨days_complete keepAll quietDay (by decide) (by simp [quietDay, passAt, Forward])
    ?_ ?_ ?_, by decide +kernel⟩
  · unfold HoursEarly
    decide +kernel
  · unfold DayJobsDue
    decide +kernel
  · unfold PurgesDue
    decide +kernel

/-- The day job first runs at three o'clock, and an hour follows at four. -/
def busyDay : List (AggregAction Unit) :=
  [.sample (sampleAt 864060000 3), passAt 874800, .sample (sampleAt 878400000 5), passAt 889200]

/-- The row of the day is made on the day itself, and misses an hour. -/
theorem day_created_too_soon :
    1 ≤ unitDelays.delayAd ∧ busyDay.Pairwise Forward ∧
      HoursEarly unitDelays (run unitDelays busyDay).log ∧
      ¬ DaysComplete unitDelays (run unitDelays busyDay).log ∧
      ∃ e ∈ (run unitDelays busyDay).log, e.done = true ∧ e.stmt.insertsAd = true ∧
        ∃ x ∈ e.stmt.selected unitDelays e.now e.before,
          ¬ x.bucket 86400000 < (e.now / sec2day : ℕ) ∧ (x.columns ()).cnt = 1 ∧
          ((dayRow unitDelays (run unitDelays busyDay).log x.res (x.bucket 86400000)).columns
            ()).cnt = 2 := by
  have hwrong : ∃ e ∈ (run unitDelays busyDay).log, e.done = true ∧ e.stmt.insertsAd = true ∧
      ∃ x ∈ e.stmt.selected unitDelays e.now e.before,
        ¬ x.bucket 86400000 < (e.now / sec2day : ℕ) ∧ (x.columns ()).cnt = 1 ∧
        ((dayRow unitDelays (run unitDelays busyDay).log x.res (x.bucket 86400000)).columns
          ()).cnt = 2 := by
    decide +kernel
  refine ⟨by decide, by simp [busyDay, passAt, Forward], ?_, ?_, hwrong⟩
  · unfold HoursEarly
    decide +kernel
  · intro h
    obtain ⟨e, he, hdone, hins, x, hx, hnot, -⟩ := hwrong
    exact hnot (h e he hdone hins x hx).1

end WatchedBack
