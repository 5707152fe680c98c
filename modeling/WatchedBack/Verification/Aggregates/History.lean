import WatchedBack.Library.Ledger
import WatchedBack.Verification.Aggregates.Passes

/-! # What the log says about a run -/

namespace WatchedBack

open AggregState Ledger

variable {ι : Type} {cfg : AggregData} {actions : List (AggregAction ι)} {s : AggregState ι}
  {now : ℕ} {stmt : AggregStmt} {log : List (Executed ι)}

theorem run_concat (cfg : AggregData) (actions : List (AggregAction ι)) (x : AggregAction ι) :
    run cfg (actions ++ [x]) = (run cfg actions).step cfg x := by
  simp [run]

/-- What every step keeps holds of every run. -/
theorem run_rule (Q : AggregState ι → Prop) (hinit : Q (initial ι))
    (hsample : ∀ s row, Q s → Q (s.step cfg (.sample row)))
    (hdata : ∀ s data, Q s → Q { s with data := data })
    (hsend : ∀ s ok now stmt, Admissible cfg now s stmt → Q s → Q (s.send cfg ok now stmt).1)
    (hskip : ∀ s now stmt, stmt.creates = false → stmt ≠ .baseAm → Q s →
      Q { s with log := s.log ++ [⟨stmt, now, s.tables, false⟩] })
    (actions : List (AggregAction ι)) : Q (run cfg actions) := by
  induction actions using List.reverseRecOn with
  | nil => exact hinit
  | append_singleton actions x ih =>
      rw [run_concat]
      cases x with
      | sample row => exact hsample _ row ih
      | pass fp now ok =>
          exact pass_rule Q hdata (fun s => hsend s ok now) (fun s => hskip s now) ih
      | restart => exact hdata _ none ih

/-! ### The clock -/

theorem cutoff_mono {now now' : ℕ} (h : now' ≤ now) (seconds delay : ℕ) :
    cutoff now' seconds delay ≤ cutoff now seconds delay := by
  unfold cutoff
  have := Nat.div_le_div_right h (c := seconds)
  omega

/-- A purge deletes whole days. -/
theorem purge_keeps_iff {ν : Type} (now retention : ℕ) (r : Row ι ν) :
    ¬ r.timestamp < cutoff now sec2day retention * (sec2day * 1000 : ℕ) ↔
      cutoff now sec2day retention ≤ r.bucket 86400000 := by
  rw [not_lt, Row.le_bucket_iff (by decide)]
  norm_num [sec2day]

/-- The clock does not go back. -/
def Forward : AggregAction ι → AggregAction ι → Prop
  | .pass _ now _, .pass _ now' _ => now ≤ now'
  | _, _ => True

/-- The latest action is a pass at `now`. -/
def InPass (actions : List (AggregAction ι)) (now : ℕ) : Prop :=
  (∃ fp ok, .pass fp now ok ∈ actions) ∧ ∀ fp now' ok, .pass fp now' ok ∈ actions → now' ≤ now

theorem inPass_concat {fp : ℚ} {ok : AggregStmt → Bool}
    (h : (actions ++ [AggregAction.pass fp now ok]).Pairwise Forward) :
    InPass (actions ++ [.pass fp now ok]) now := by
  refine ⟨⟨fp, ok, by simp⟩, fun fp' now' ok' hmem => ?_⟩
  rw [List.mem_append, List.mem_singleton] at hmem
  rcases hmem with hmem | heq
  · exact (List.pairwise_append.mp h).2.2 _ hmem _ List.mem_cons_self
  · cases heq
    exact le_rfl

/-- The entries were made in passes of the run, in the order of their times. -/
def Timed (actions : List (AggregAction ι)) (log : List (Executed ι)) : Prop :=
  (∀ e ∈ log, ∃ fp ok, .pass fp e.now ok ∈ actions) ∧
    log.Pairwise fun e e' => e.now ≤ e'.now

theorem Timed.concat_entry {e : Executed ι} (h : Timed actions log) (hpass : InPass actions e.now) :
    Timed actions (log ++ [e]) := by
  refine ⟨?_, ?_⟩
  · intro e' he'
    rw [List.mem_append, List.mem_singleton] at he'
    rcases he' with hold | rfl
    · exact h.1 e' hold
    · exact hpass.1
  · refine List.pairwise_append.mpr ⟨h.2, List.pairwise_singleton _ _, ?_⟩
    intro e' he' last hlast
    obtain rfl := List.mem_singleton.mp hlast
    obtain ⟨fp, ok, hmem⟩ := h.1 e' he'
    exact hpass.2 fp e'.now ok hmem

theorem Timed.concat_action (h : Timed actions log) (x : AggregAction ι) :
    Timed (actions ++ [x]) log := by
  refine ⟨fun e he => ?_, h.2⟩
  obtain ⟨fp, ok, hmem⟩ := h.1 e he
  exact ⟨fp, ok, List.mem_append_left _ hmem⟩

theorem timed_run (h : actions.Pairwise Forward) : Timed actions (run cfg actions).log := by
  induction actions using List.reverseRecOn with
  | nil => exact ⟨by simp [run, initial], by simp [run, initial]⟩
  | append_singleton actions x ih =>
      have hold := (ih (List.pairwise_append.mp h).1).concat_action x
      rw [run_concat]
      cases x with
      | sample row => exact hold
      | pass fp now ok =>
          have hpass := inPass_concat h
          let Q : AggregState ι → Prop := fun s =>
            Timed (actions ++ [AggregAction.pass fp now ok]) s.log
          refine pass_rule Q (fun s data hs => hs) ?_ ?_ hold
          · intro s stmt _ hs
            change Timed _ (s.send cfg ok now stmt).1.log
            rw [send_log]
            exact Timed.concat_entry hs hpass
          · exact fun s stmt _ _ hs => Timed.concat_entry hs hpass
      | restart => exact hold

/-! ### The rows of `ah$` -/

/-- What an entry of the log does to `ah$`. -/
def Executed.changeAh (cfg : AggregData) (e : Executed ι) : Change (AggregRow ι) :=
  if e.done = true ∧ e.stmt.insertsAh = true then .insert (e.stmt.selected cfg e.now e.before)
  else if e.done = true ∧ e.stmt = .purgeAh then
    .keep fun r => ¬ r.timestamp < cutoff e.now sec2day cfg.retentionAh * (sec2day * 1000 : ℕ)
  else .insert []

def changesAh (cfg : AggregData) (log : List (Executed ι)) : List (Change (AggregRow ι)) :=
  log.map (Executed.changeAh cfg)

/-- All rows that were ever inserted into `ah$`. -/
def insertedAh (cfg : AggregData) (log : List (Executed ι)) : List (AggregRow ι) :=
  inserted (changesAh cfg log)

@[simp] theorem changesAh_append (log more : List (Executed ι)) :
    changesAh cfg (log ++ more) = changesAh cfg log ++ changesAh cfg more :=
  List.map_append

@[simp] theorem changesAh_cons (e : Executed ι) (log : List (Executed ι)) :
    changesAh cfg (e :: log) = e.changeAh cfg :: changesAh cfg log := rfl

@[simp] theorem changesAh_nil : changesAh cfg ([] : List (Executed ι)) = [] := rfl

theorem mem_insertedAh {x : AggregRow ι} :
    x ∈ insertedAh cfg log ↔ ∃ e ∈ log, e.done = true ∧ e.stmt.insertsAh = true ∧
      x ∈ e.stmt.selected cfg e.now e.before := by
  rw [insertedAh, mem_inserted]
  constructor
  · rintro ⟨c, hc, hx⟩
    obtain ⟨e, he, rfl⟩ := List.mem_map.mp hc
    rw [Executed.changeAh] at hx
    split at hx
    · next h => exact ⟨e, he, h.1, h.2, hx⟩
    · split at hx <;> simp [Change.rows] at hx
  · rintro ⟨e, he, hdone, hins, hx⟩
    refine ⟨e.changeAh cfg, List.mem_map_of_mem he, ?_⟩
    rw [Executed.changeAh, if_pos ⟨hdone, hins⟩]
    exact hx

/-- The purge that takes a row. -/
theorem keep_mem_changesAh {p : AggregRow ι → Bool} (h : .keep p ∈ changesAh cfg log) :
    ∃ e ∈ log, e.stmt = .purgeAh ∧ e.done = true ∧
      p = fun r : AggregRow ι =>
        ¬ r.timestamp < cutoff e.now sec2day cfg.retentionAh * (sec2day * 1000 : ℕ) := by
  obtain ⟨e, he, hc⟩ := List.mem_map.mp h
  rw [Executed.changeAh] at hc
  split at hc
  · cases hc
  · split at hc
    · next hpurge =>
        cases hc
        exact ⟨e, he, hpurge.2, hpurge.1, rfl⟩
    · cases hc

/-- The log tells what is in `ah$` now, and what was in it when each entry was made. -/
def Explained (cfg : AggregData) (s : AggregState ι) : Prop :=
  s.tables.ahRows = replay (changesAh cfg s.log) ∧
    ∀ l₁ e l₂, s.log = l₁ ++ e :: l₂ → e.before.ahRows = replay (changesAh cfg l₁)

theorem Explained.concat {t : Tables ι} {e : Executed ι} (h : Explained cfg s)
    (hbefore : e.before = s.tables) (ht : t.ahRows = (e.changeAh cfg).apply s.tables.ahRows) :
    Explained cfg { s with tables := t, log := s.log ++ [e] } := by
  refine ⟨?_, ?_⟩
  · rw [changesAh_append, changesAh_cons, changesAh_nil, replay_concat, ← h.1]
    exact ht
  · apply forall_split_concat h.2
    rw [hbefore]
    exact h.1

theorem changeAh_of_not_done {e : Executed ι} (h : e.done = false) :
    e.changeAh cfg = .insert [] := by
  simp [Executed.changeAh, h]

/-- A statement that is done changes `ah$` as its entry says. -/
theorem exec_changeAh {t t' : Tables ι} (h : t.exec cfg now stmt = some t') :
    t'.ahRows = (Executed.changeAh cfg ⟨stmt, now, t, true⟩).apply t.ahRows := by
  rw [exec_ah h, Executed.changeAh]
  by_cases hins : stmt.insertsAh = true
  · simp [hins, Change.apply]
  · by_cases hpurge : stmt = .purgeAh
    · subst hpurge
      simp [AggregStmt.insertsAh, Change.apply, purge]
    · simp [hins, hpurge, Change.apply]

theorem explained_run (cfg : AggregData) (actions : List (AggregAction ι)) :
    Explained cfg (run cfg actions) := by
  have hskip : ∀ (s : AggregState ι) (now : ℕ) (stmt : AggregStmt), Explained cfg s →
      Explained cfg { s with log := s.log ++ [⟨stmt, now, s.tables, false⟩] } := by
    intro s now stmt hs
    refine hs.concat rfl ?_
    simp [changeAh_of_not_done, Change.apply]
  apply run_rule
  · exact ⟨rfl, by simp [initial]⟩
  · exact fun s row hs => hs
  · exact fun s data hs => hs
  · intro s ok now stmt _ hs
    rcases send_cases cfg ok now s stmt with ⟨t, ht, heq⟩ | heq
    · rw [heq]
      exact hs.concat rfl (exec_changeAh ht)
    · rw [heq]
      exact hskip s now stmt hs
  · exact fun s now stmt _ _ hs => hskip s now stmt hs

/-- The entry is a purge of `ah$` that takes the row. -/
def Executed.PurgesAh (cfg : AggregData) (e : Executed ι) (x : AggregRow ι) : Prop :=
  e.stmt = .purgeAh ∧ e.done = true ∧
    x.timestamp < cutoff e.now sec2day cfg.retentionAh * (sec2day * 1000 : ℕ)

instance (e : Executed ι) (x : AggregRow ι) : Decidable (e.PurgesAh cfg x) :=
  inferInstanceAs (Decidable (_ ∧ _ ∧ _))

/-- A row that is missing later has been purged since it was inserted. -/
theorem Explained.purged_between (h : Explained cfg s) {l₁ l₂ l₃ : List (Executed ι)}
    {e e' : Executed ι} (hlog : s.log = l₁ ++ e :: (l₂ ++ e' :: l₃)) (hdone : e.done = true)
    (hins : e.stmt.insertsAh = true) {x : AggregRow ι}
    (hx : x ∈ e.stmt.selected cfg e.now e.before) (hnot : x ∉ e'.before.ahRows) :
    ∃ e'' ∈ l₂, e''.PurgesAh cfg x := by
  have hinserted : x ∈ replay (changesAh cfg (l₁ ++ [e])) := by
    rw [changesAh_append, changesAh_cons, changesAh_nil, replay_concat, Executed.changeAh,
      if_pos ⟨hdone, hins⟩]
    exact List.mem_append_right _ hx
  have hbefore : e'.before.ahRows = replay (changesAh cfg (l₁ ++ [e]) ++ changesAh cfg l₂) := by
    rw [← changesAh_append]
    refine h.2 (l₁ ++ [e] ++ l₂) e' l₃ ?_
    rw [hlog]
    simp
  have hkept : x ∈ e'.before.ahRows ∨ ∃ p, .keep p ∈ changesAh cfg l₂ ∧ p x = false := by
    rw [hbefore]
    exact mem_replay_append hinserted
  rcases hkept with hmem | ⟨p, hp, hpx⟩
  · exact absurd hmem hnot
  · obtain ⟨e'', he'', hstmt, hdone', rfl⟩ := keep_mem_changesAh hp
    refine ⟨e'', he'', hstmt, hdone', ?_⟩
    simpa using hpx

/-- A purge of `ah$` is sent only for a limited retention. -/
theorem retention_of_purgeAh (cfg : AggregData) (actions : List (AggregAction ι)) :
    ∀ e ∈ (run cfg actions).log, e.stmt = .purgeAh → e.done = true → 0 < cfg.retentionAh := by
  apply run_rule (fun s => ∀ e ∈ s.log, e.stmt = .purgeAh → e.done = true → 0 < cfg.retentionAh)
  · simp [initial]
  · exact fun s row hs => hs
  · exact fun s data hs => hs
  · intro s ok now stmt hadm hs e he hstmt hdone
    rw [send_log, List.mem_append, List.mem_singleton] at he
    rcases he with hold | rfl
    · exact hs e hold hstmt hdone
    · subst hstmt
      exact hadm
  · intro s now stmt _ _ hs e he hstmt hdone
    rw [List.mem_append, List.mem_singleton] at he
    rcases he with hold | rfl
    · exact hs e hold hstmt hdone
    · cases hdone

end WatchedBack
