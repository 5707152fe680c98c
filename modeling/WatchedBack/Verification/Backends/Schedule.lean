import WatchedBack.Verification.Backends.Marking

/-! # Backends on schedule

A backend that keeps its schedule is marked by another one as soon as its `pool_freq` leaves more
than ten minutes between two rounds. -/

namespace WatchedBack

open Runs

/-! ### The schedule -/

section schedule

variable {start poolFreq : ℤ} {k m : ℕ}

theorem sleepFor_nonneg (poolFreq : ℤ) : 0 ≤ sleepFor poolFreq := by
  unfold sleepFor ms
  omega

/-- A round comes no earlier than the one before. -/
theorem roundTime_le_succ (start poolFreq : ℤ) (k : ℕ) :
    roundTime start poolFreq k ≤ roundTime start poolFreq (k + 1) := by
  have hsleep := sleepFor_nonneg poolFreq
  cases k with
  | zero =>
      simp only [roundTime, ms]
      omega
  | succ k =>
      simp only [roundTime]
      omega

theorem roundTime_mono (h : k ≤ m) : roundTime start poolFreq k ≤ roundTime start poolFreq m := by
  induction m, h using Nat.le_induction with
  | base => exact le_rfl
  | succ m _ ih => exact ih.trans (roundTime_le_succ start poolFreq m)

theorem start_le_roundTime (start poolFreq : ℤ) (k : ℕ) : start ≤ roundTime start poolFreq k :=
  roundTime_mono (Nat.zero_le k)

/-- The longest gap is the first one. -/
theorem roundTime_succ_le (start : ℤ) (h : poolFreq ≤ 598) (k : ℕ) :
    roundTime start poolFreq (k + 1) ≤ roundTime start poolFreq k + ms 600000 := by
  cases k with
  | zero =>
      simp only [roundTime, sleepFor, ms]
      omega
  | succ k =>
      simp only [roundTime, sleepFor, ms]
      omega

/-- The second round of a slow backend is ten minutes and a second after the first. -/
theorem le_roundTime_one (start : ℤ) (h : 598 < poolFreq) :
    start + ms 601000 ≤ roundTime start poolFreq 1 := by
  simp only [roundTime, sleepFor, ms]
  omega

end schedule

/-- The rounds of a list are the first that the backends come to on the common clock. Rounds of one
time come in any order. -/
structure Interleaving (backends : Finset ℕ) (time : ℕ → ℕ → ℤ) (rounds : List (ℕ × ℕ)) : Prop where
  mem : ∀ p ∈ rounds, p.1 ∈ backends
  once : rounds.Nodup
  ordered : ∀ before p after, rounds = before ++ p :: after → ∀ i ∈ backends, ∀ m,
    time i m < time p.1 p.2 ∨ i = p.1 ∧ m < p.2 → (i, m) ∈ before

/-- No round inserts a failed row for a backend that has had a round. -/
def Spared (time : ℕ → ℕ → ℤ) (t : BackendHistory) (rounds : List (ℕ × ℕ)) : Prop :=
  ∀ before p after, rounds = before ++ p :: after →
    ∀ r ∈ (t.run time (before ++ [p])).rows, r.failed = 1 → r ∉ (t.run time before).rows →
      ∀ m, (r.backId, m) ∉ before ++ [p]

/-! ### Rounds -/

namespace BackendHistory

variable {t : BackendHistory} {time : ℕ → ℕ → ℤ} {ts : Column} {r : BackHistoryRow} {i : ℕ}
  {before rounds : List (ℕ × ℕ)} {p : ℕ × ℕ}

/-- A round is the statements of a backend without those of others between them. -/
theorem round_eq_moves (s : Backends) (hidle : s.rounds i = .idle) :
    (([.clock i ts, .statement i true, .statement i true] : List BackendMove).foldl Backends.move
      s).history = s.history.round i ts := by
  simp [Backends.move, Backends.setRound, hidle, round]

theorem mem_round : r ∈ (t.round i ts).rows ↔
    r = .beat i ts ∨ (r ∈ t.rows ∧ r.key ≠ (i, ts)) ∨ r ∈ (t.heartbeat i ts).failedRows ts := by
  unfold round
  rw [rows_mark, List.mem_append, heartbeat, Upserts.Table.mem_upsert, or_assoc]
  rfl

theorem run_concat (time : ℕ → ℕ → ℤ) (t : BackendHistory) (before : List (ℕ × ℕ)) (p : ℕ × ℕ) :
    t.run time (before ++ [p]) = (t.run time before).round p.1 ⟨time p.1 p.2⟩ := by
  simp [run]

theorem has_round {k : ℕ × Column} (h : k = (i, ts) ∨ t.has k) : (t.round i ts).has k := by
  have hbeat : (t.heartbeat i ts).has k := Upserts.Table.has_upsert.mpr h
  unfold round Upserts.Table.has
  rw [rows_mark, List.map_append]
  exact List.mem_append_left _ hbeat

/-- Each round has left a row of its time. -/
theorem has_run (h : p ∈ rounds) : (t.run time rounds).has (p.1, ⟨time p.1 p.2⟩) := by
  obtain ⟨before, after, rfl⟩ := List.append_of_mem h
  unfold run
  rw [List.foldl_append, List.foldl_cons]
  apply foldl_invariant (P := fun t : BackendHistory => t.has (p.1, ⟨time p.1 p.2⟩))
  · intro t q _ ht
    exact has_round (Or.inr ht)
  · exact has_round (Or.inl rfl)

/-- A failed row that a round inserts marks a backend whose rows are more than ten minutes old. -/
theorem failed_of_mem_round (hr : r ∈ (t.round i ts).rows) (hfailed : r.failed = 1)
    (hnew : r ∉ t.rows) : ∀ row ∈ (t.heartbeat i ts).rows, row.backId = r.backId →
      row.timestamp.ticks < ts.ticks - ms 600000 := by
  rcases mem_round.mp hr with rfl | ⟨hold, -⟩ | hmark
  · cases hfailed
  · exact absurd hold hnew
  · exact (mem_failedRows.mp hmark).2.2

end BackendHistory

/-! ### Backends that are spared -/

section spared

variable {backends : Finset ℕ} {freq start : ℕ → ℤ} {t : BackendHistory} {rounds : List (ℕ × ℕ)}
  {i j : ℕ}

/-- The last round of a backend in a list. -/
theorem exists_last_round {m : ℕ} (h : (i, m) ∈ rounds) :
    ∃ k, (i, k) ∈ rounds ∧ (i, k + 1) ∉ rounds := by
  by_contra hnone
  push Not at hnone
  have hall (n : ℕ) : (i, m + n) ∈ rounds := by
    induction n with
    | zero => exact h
    | succ n ih => exact hnone _ ih
  have hinj : Function.Injective fun n => (i, m + n) := by
    intro a b heq
    have hadd := (Prod.mk.inj heq).2
    omega
  exact Set.infinite_range_of_injective hinj
    ((List.finite_toSet rounds).subset (by
      rintro _ ⟨n, rfl⟩
      exact hall n))

/-- Backends with at most 598 seconds between two rounds are not marked. -/
theorem spared_of_le (hfreq : ∀ i ∈ backends, ∀ j ∈ backends, i ≠ j → freq i ≤ 598)
    (h : Interleaving backends (fun i => roundTime (start i) (freq i)) rounds) :
    Spared (fun i => roundTime (start i) (freq i)) t rounds := by
  intro before p after heq r hr hfailed hnew m hm
  rw [BackendHistory.run_concat] at hr
  have hold := BackendHistory.failed_of_mem_round hr hfailed hnew
  -- a row of the backend that is not so old
  have hthere (k : ℕ) (hk : (r.backId, k) ∈ before ++ [p])
      (hlate : roundTime (start p.1) (freq p.1) p.2 ≤
        roundTime (start r.backId) (freq r.backId) k + ms 600000) : False := by
    have hhas : ((t.run (fun i => roundTime (start i) (freq i)) before).heartbeat p.1
        ⟨roundTime (start p.1) (freq p.1) p.2⟩).has
          (r.backId, ⟨roundTime (start r.backId) (freq r.backId) k⟩) := by
      apply Upserts.Table.has_upsert.mpr
      rcases List.mem_append.mp hk with hin | hself
      · exact Or.inr (BackendHistory.has_run hin)
      · rw [← List.mem_singleton.mp hself]
        exact Or.inl rfl
    obtain ⟨row, hrow, hkey⟩ := List.mem_map.mp hhas
    obtain ⟨hid, hts⟩ := Prod.mk.inj hkey
    have hlt := hold row hrow hid
    rw [hts] at hlt
    simp only [ms] at hlt hlate
    omega
  by_cases hself : r.backId = p.1
  · apply hthere p.2
    · rw [hself]
      simp
    · rw [hself]
      simp only [ms]
      omega
  · have hin : (r.backId, m) ∈ before := by
      rcases List.mem_append.mp hm with hin | heqp
      · exact hin
      · rw [← List.mem_singleton.mp heqp] at hself
        exact absurd rfl hself
    obtain ⟨k, hk, hnext⟩ := exists_last_round hin
    have hr : r.backId ∈ backends := h.mem (r.backId, m) (by rw [heq]; simp [hin])
    have hp : p.1 ∈ backends := h.mem p (by rw [heq]; simp)
    have hlate := mt (fun hlt => h.ordered before p after heq r.backId hr (k + 1) (Or.inl hlt)) hnext
    have hgap := roundTime_succ_le (start r.backId) (hfreq r.backId hr p.1 hp hself) k
    exact hthere k (List.mem_append_left _ hk) ((not_lt.mp hlate).trans hgap)

/-- One backend starts, another one ten minutes and a second later, and the others after that. -/
def lateStart (i j : ℕ) : ℕ → ℤ := fun b => if b = i then 0 else if b = j then ms 601000 else ms 601001

theorem lateStart_nonneg (i j b : ℕ) : 0 ≤ lateStart i j b := by
  unfold lateStart ms
  split
  · exact le_rfl
  · split <;> norm_num

theorem le_lateStart {b : ℕ} (hb : b ≠ i) : ms 601000 ≤ lateStart i j b := by
  unfold lateStart
  rw [if_neg hb]
  split
  · exact le_rfl
  · norm_num [ms]

theorem interleaving_lateStart (hi : i ∈ backends) (hj : j ∈ backends) (hne : i ≠ j)
    (hfreq : 598 < freq i) :
    Interleaving backends (fun b => roundTime (lateStart i j b) (freq b)) [(i, 0), (j, 0)] where
  mem p hp := by
    simp only [List.mem_cons, List.not_mem_nil, or_false] at hp
    rcases hp with rfl | rfl
    · exact hi
    · exact hj
  once := by simp [hne]
  ordered before p after heq b _ m hearlier := by
    cases before with
    | nil =>
        cases heq
        have hzero : lateStart i j i = 0 := if_pos rfl
        have hle := (lateStart_nonneg i j b).trans (start_le_roundTime _ (freq b) m)
        simp only [roundTime, hzero] at hearlier
        omega
    | cons q before =>
        cases before with
        | cons q' before => simp at heq
        | nil =>
            cases heq
            have hj' : lateStart i j j = ms 601000 := by simp [lateStart, hne.symm]
            simp only [roundTime, hj'] at hearlier
            have hlt := hearlier.resolve_right (by omega)
            by_cases hb : b = i
            · subst hb
              have hzero : lateStart b j b = 0 := if_pos rfl
              rw [hzero] at hlt
              cases m with
              | zero => exact List.mem_singleton_self _
              | succ m =>
                  have hone := le_roundTime_one 0 hfreq
                  have hmono : roundTime 0 (freq b) 1 ≤ roundTime 0 (freq b) (m + 1) :=
                    roundTime_mono (by omega)
                  omega
            · have hle := (le_lateStart (j := j) hb).trans (start_le_roundTime _ (freq b) m)
              omega

/-- The round of the second marks the first, which is not due yet. -/
theorem not_spared_lateStart (hne : i ≠ j) :
    ¬ Spared (fun b => roundTime (lateStart i j b) (freq b)) .empty [(i, 0), (j, 0)] := by
  intro h
  let time : ℕ → ℕ → ℤ := fun b => roundTime (lateStart i j b) (freq b)
  let t : BackendHistory := BackendHistory.run time .empty [(i, 0)]
  let failed : BackHistoryRow := ⟨i, ⟨ms 601000 - ms 300000⟩, 1, 0⟩
  have htime : time i 0 = 0 := if_pos rfl
  have htime' : time j 0 = ms 601000 := by simp [time, roundTime, lateStart, hne.symm]
  have hrow (r : BackHistoryRow) : r ∈ t.rows ↔ r = .beat i ⟨0⟩ := by
    have ht : t = BackendHistory.round .empty i ⟨0⟩ := by simp [t, BackendHistory.run, htime]
    have hbeat : BackHistoryRow.beat i ⟨0⟩ ∈
        (BackendHistory.heartbeat .empty i ⟨0⟩).rows := Upserts.Table.mem_upsert.mpr (Or.inl rfl)
    rw [ht, BackendHistory.mem_round]
    constructor
    · intro hr
      rcases hr with hr | ⟨hold, -⟩ | hmark
      · exact hr
      · cases hold
      · obtain ⟨-, ⟨row, hrow, hid⟩, hlt⟩ := BackendHistory.mem_failedRows.mp hmark
        rcases Upserts.Table.mem_upsert.mp hrow with rfl | ⟨hold, -⟩
        · have hnow := hlt _ hbeat hid
          simp [BackHistoryRow.beat, ms] at hnow
        · cases hold
    · exact Or.inl
  have hmark : failed ∈ (BackendHistory.run time .empty [(i, 0), (j, 0)]).rows := by
    have hrun := BackendHistory.run_concat time .empty [(i, 0)] (j, 0)
    rw [List.singleton_append] at hrun
    rw [hrun, BackendHistory.mem_round, htime']
    apply Or.inr
    apply Or.inr
    rw [BackendHistory.mem_failedRows]
    refine ⟨rfl, ⟨.beat i ⟨0⟩, ?_, rfl⟩, ?_⟩
    · apply Upserts.Table.mem_upsert.mpr
      apply Or.inr
      apply And.intro ((hrow _).mpr rfl)
      intro hkey
      exact hne (Prod.mk.inj hkey).1
    · intro row hmem hid
      rcases Upserts.Table.mem_upsert.mp hmem with rfl | ⟨hold, -⟩
      · exact absurd hid.symm hne
      · rw [(hrow row).mp hold]
        norm_num [BackHistoryRow.beat, ms]
  have hnew : failed ∉ t.rows := by
    rw [hrow]
    intro heq
    have hfailed := congrArg BackHistoryRow.failed heq
    cases hfailed
  exact h [(i, 0)] (j, 0) [] rfl failed hmark rfl hnew 0 List.mem_cons_self

/-- No backend on schedule is ever marked, exactly if no backend beside another one sleeps for more
than 598 seconds. -/
theorem on_schedule_spared_iff (backends : Finset ℕ) (freq : ℕ → ℤ) :
    (∀ (start : ℕ → ℤ) t rounds,
        Interleaving backends (fun i => roundTime (start i) (freq i)) rounds →
          Spared (fun i => roundTime (start i) (freq i)) t rounds) ↔
      ∀ i ∈ backends, ∀ j ∈ backends, i ≠ j → freq i ≤ 598 := by
  constructor
  · intro h i hi j hj hne
    by_contra hfreq
    exact not_spared_lateStart hne
      (h (lateStart i j) .empty _ (interleaving_lateStart hi hj hne (not_le.mp hfreq)))
  · intro h start t rounds hrounds
    exact spared_of_le h hrounds

/-- A backend that is configured for a round each quarter of an hour, beside one with the default. -/
def quarterHourly (b : ℕ) : ℤ := if b = 1 then 900 else 300

/-- The second backend starts ten minutes and a second after the first, which sleeps, and marks it. -/
theorem quarter_hourly_marked :
    Interleaving {1, 2} (fun b => roundTime (lateStart 1 2 b) (quarterHourly b)) [(1, 0), (2, 0)] ∧
      ⟨1, ⟨ms 301000⟩, 1, 0⟩ ∈ (BackendHistory.run
        (fun b => roundTime (lateStart 1 2 b) (quarterHourly b)) .empty [(1, 0), (2, 0)]).rows ∧
      ¬ Spared (fun b => roundTime (lateStart 1 2 b) (quarterHourly b)) .empty [(1, 0), (2, 0)] := by
  refine ⟨interleaving_lateStart (by decide) (by decide) (by decide) (by decide), ?_,
    not_spared_lateStart (by decide)⟩
  decide +kernel

end spared

end WatchedBack
