import WatchedBack.Library.Runs
import WatchedBack.Model.Backends

/-! # Failed backends

A row that marks a backend as failed is later than all rows that the backend has, by the five minutes
between the two limits. -/

namespace WatchedBack

open Runs

/-! ### One statement -/

namespace BackendHistory

variable {t : BackendHistory} {ts : Column} {r row : BackHistoryRow} {backId : ℕ}

theorem latest_eq_some {x : ℤ} : t.latest backId = some x ↔
    (∃ row ∈ t.rows, row.backId = backId ∧ row.timestamp.ticks = x) ∧
      ∀ row ∈ t.rows, row.backId = backId → row.timestamp.ticks ≤ x := by
  unfold latest
  rw [List.max?_eq_some_iff]
  simp only [List.mem_map, List.mem_filter, decide_eq_true_eq]
  constructor
  · rintro ⟨⟨row, ⟨hrow, hid⟩, hx⟩, hle⟩
    exact ⟨⟨row, hrow, hid, hx⟩, fun y hy hyid => hle _ ⟨y, ⟨hy, hyid⟩, rfl⟩⟩
  · rintro ⟨⟨row, hrow, hid, hx⟩, hle⟩
    refine ⟨⟨row, ⟨hrow, hid⟩, hx⟩, ?_⟩
    rintro _ ⟨y, ⟨hy, hyid⟩, rfl⟩
    exact hle y hy hyid

theorem latest_eq_none (h : t.latest backId = none) : ∀ row ∈ t.rows, row.backId ≠ backId := by
  intro row hrow hid
  have hnil := List.map_eq_nil_iff.mp (List.max?_eq_none_iff.mp h)
  exact List.filter_eq_nil_iff.mp hnil row hrow (decide_eq_true hid)

/-- A backend is marked exactly if all its rows are more than ten minutes old. -/
theorem mem_failedRows : r ∈ t.failedRows ts ↔
    r = ⟨r.backId, ⟨ts.ticks - ms 300000⟩, 1, 0⟩ ∧ (∃ row ∈ t.rows, row.backId = r.backId) ∧
      ∀ row ∈ t.rows, row.backId = r.backId → row.timestamp.ticks < ts.ticks - ms 600000 := by
  constructor
  · intro hr
    obtain ⟨backId, -, hsome⟩ := List.mem_filterMap.mp hr
    split at hsome
    · cases hsome
    · next x hmax =>
      split at hsome
      · next hlt =>
        cases hsome
        obtain ⟨⟨row, hrow, hid, -⟩, hle⟩ := latest_eq_some.mp hmax
        refine ⟨rfl, ⟨row, hrow, hid⟩, ?_⟩
        intro y hy hyid
        exact lt_of_le_of_lt (hle y hy hyid) hlt
      · cases hsome
  · rintro ⟨hr, ⟨row, hrow, hid⟩, hlt⟩
    apply List.mem_filterMap.mpr
    refine ⟨r.backId, List.mem_dedup.mpr (List.mem_map.mpr ⟨row, hrow, hid⟩), ?_⟩
    cases hmax : t.latest r.backId with
    | none => exact absurd hid (latest_eq_none hmax row hrow)
    | some x =>
        obtain ⟨⟨last, hlast, hlastId, rfl⟩, -⟩ := latest_eq_some.mp hmax
        dsimp only
        rw [if_pos (hlt last hlast hlastId), ← hr]

/-- A failed row is later than all rows of its backend, by more than five minutes. -/
theorem lt_of_mem_failedRows (hr : r ∈ t.failedRows ts) :
    ∀ row ∈ t.rows, row.backId = r.backId →
      row.timestamp.ticks + ms 300000 < r.timestamp.ticks := by
  obtain ⟨hfields, -, hold⟩ := mem_failedRows.mp hr
  intro row hrow hid
  have hlt := hold row hrow hid
  rw [hfields]
  simp only [ms] at hlt ⊢
  omega

theorem nodup_failedRows (t : BackendHistory) (ts : Column) :
    ((t.failedRows ts).map BackHistoryRow.backId).Nodup := by
  unfold failedRows
  apply Upserts.nodup_map_filterMap _ (List.nodup_dedup _)
  -- a group gives a row of its own
  intro backId r hr
  split at hr
  · cases hr
  · split at hr
    · cases hr
      rfl
    · cases hr

/-- The insert of failed rows meets no row. -/
theorem rows_mark (t : BackendHistory) (ts : Column) :
    (t.mark ts).rows = t.rows ++ t.failedRows ts := by
  have hunique : ((t.rows ++ t.failedRows ts).map BackHistoryRow.key).Nodup := by
    rw [List.map_append, List.nodup_append]
    refine ⟨t.unique, ?_, ?_⟩
    · have hids := nodup_failedRows t ts
      have hfst : (t.failedRows ts).map BackHistoryRow.backId =
          ((t.failedRows ts).map BackHistoryRow.key).map Prod.fst := by
        rw [List.map_map]
        rfl
      rw [hfst] at hids
      exact List.Nodup.of_map _ hids
    · intro a ha b hb heq
      obtain ⟨row, hrow, rfl⟩ := List.mem_map.mp ha
      obtain ⟨r, hr, rfl⟩ := List.mem_map.mp hb
      obtain ⟨hid, hts⟩ := Prod.mk.inj heq
      have hlt := lt_of_mem_failedRows hr row hrow hid
      rw [hts] at hlt
      simp only [ms] at hlt
      omega
  unfold mark Upserts.Table.insertAll
  rw [dif_pos hunique]
  rfl

end BackendHistory

/-! ### Rounds -/

namespace Backends

/-- What a move does to the table, with the rows that it writes. -/
inductive Effect (s s' : Backends) : Prop
  | quiet (hrows : s'.history = s.history) (hwritten : s'.written = s.written)
  | heartbeat (backId : ℕ) (ts : Column) (hrows : s'.history = s.history.heartbeat backId ts)
      (hwritten : s'.written = s.written ++ [BackHistoryRow.beat backId ts])
  | mark (ts : Column) (hrows : s'.history = s.history.mark ts)
      (hwritten : s'.written = s.written ++ s.history.failedRows ts)

theorem effect_move (s : Backends) (x : BackendMove) : s.Effect (s.move x) := by
  unfold move
  cases x with
  | clock backId ts =>
      dsimp only
      cases s.rounds backId <;> exact .quiet rfl rfl
  | statement backId ok =>
      dsimp only
      cases s.rounds backId with
      | idle => exact .quiet rfl rfl
      | heartbeat ts =>
          cases ok with
          | false => exact .quiet rfl rfl
          | true => exact .heartbeat backId ts rfl rfl
      | mark ts =>
          cases ok with
          | false => exact .quiet rfl rfl
          | true => exact .mark ts rfl rfl

/-- What holds in every state of a run. -/
structure Logged (s : Backends) : Prop where
  there : ∀ r ∈ s.written, s.history.has r.key
  apart : s.written.Pairwise fun r r' =>
    r'.failed = 1 → r.backId = r'.backId → r.timestamp.ticks + ms 300000 < r'.timestamp.ticks

theorem Logged.move {s : Backends} (h : s.Logged) (x : BackendMove) : (s.move x).Logged := by
  have heffect := s.effect_move x
  generalize s.move x = s' at heffect
  cases heffect with
  | quiet hrows hwritten =>
      constructor
      · rw [hrows, hwritten]
        exact h.there
      · rw [hwritten]
        exact h.apart
  | heartbeat backId ts hrows hwritten =>
      constructor
      · rw [hrows, hwritten]
        intro r hr
        apply Upserts.Table.has_upsert.mpr
        rcases List.mem_append.mp hr with hold | hnew
        · exact Or.inr (h.there r hold)
        · rw [List.mem_singleton.mp hnew]
          exact Or.inl rfl
      · rw [hwritten, List.pairwise_append]
        refine ⟨h.apart, List.pairwise_singleton _ _, ?_⟩
        intro r _ r' hr' hfailed
        rw [List.mem_singleton.mp hr'] at hfailed
        cases hfailed
  | mark ts hrows hwritten =>
      constructor
      · rw [hrows, hwritten]
        intro r hr
        unfold Upserts.Table.has
        rw [BackendHistory.rows_mark, List.map_append, List.mem_append]
        rcases List.mem_append.mp hr with hold | hnew
        · exact Or.inl (h.there r hold)
        · exact Or.inr (List.mem_map_of_mem hnew)
      · rw [hwritten, List.pairwise_append]
        refine ⟨h.apart, ?_, ?_⟩
        · -- the rows of one insert are of different backends
          have hids := BackendHistory.nodup_failedRows s.history ts
          apply (List.pairwise_map.mp hids).imp
          intro r r' hne _ hid
          exact absurd hid hne
        · intro r hr r' hr' _ hid
          obtain ⟨row, hrow, hkey⟩ := List.mem_map.mp (h.there r hr)
          obtain ⟨hrowId, hts⟩ := Prod.mk.inj hkey
          have hlt := BackendHistory.lt_of_mem_failedRows hr' row hrow (hrowId.trans hid)
          rw [hts] at hlt
          exact hlt

/-- A move inserts failed rows only behind all rows of their backends, and an insert of failed rows
alters no row. -/
structure Orderly (s : Backends) (x : BackendMove) : Prop where
  later : ∀ r ∈ (s.move x).history.rows, r.failed = 1 → r ∉ s.history.rows →
    ∀ row ∈ s.history.rows, row.backId = r.backId → row.timestamp.ticks < r.timestamp.ticks
  unaltered : ∀ backId ts, x = .statement backId true → s.rounds backId = .mark ts →
    (s.move x).history.rows = s.history.rows ++ s.history.failedRows ts

theorem orderly (s : Backends) (x : BackendMove) : s.Orderly x where
  later := by
    have heffect := s.effect_move x
    generalize s.move x = s' at heffect
    intro r hr hfailed hnew row hrow hid
    cases heffect with
    | quiet hrows hwritten =>
        rw [hrows] at hr
        exact absurd hr hnew
    | heartbeat backId ts hrows hwritten =>
        rw [hrows] at hr
        rcases Upserts.Table.mem_upsert.mp hr with rfl | ⟨hold, -⟩
        · cases hfailed
        · exact absurd hold hnew
    | mark ts hrows hwritten =>
        rw [hrows, BackendHistory.rows_mark, List.mem_append] at hr
        have hlt := BackendHistory.lt_of_mem_failedRows (hr.resolve_left hnew) row hrow hid
        simp only [ms] at hlt
        omega
  unaltered := by
    rintro backId ts rfl hround
    unfold move
    dsimp only
    rw [hround]
    exact BackendHistory.rows_mark s.history ts

/-- In every interleaving of rounds, failed rows are inserted behind all rows of their backends and
alter none, and two failed rows of one backend are more than five minutes apart, whatever is written
between them. -/
theorem marking_orderly (history : BackendHistory) (moves : List BackendMove) :
    EachStep move Orderly (.start history) moves ∧
      ∀ before r between r' after,
        (moves.foldl move (.start history)).written =
            before ++ r :: (between ++ r' :: after) →
          r.failed = 1 → r'.failed = 1 → r.backId = r'.backId →
            r.timestamp.ticks + ms 300000 < r'.timestamp.ticks := by
  have hlogged : (moves.foldl move (.start history)).Logged := by
    apply foldl_invariant
    · intro s x _ h
      exact h.move x
    · constructor
      · intro r hr
        cases hr
      · exact List.Pairwise.nil
  constructor
  · intro before x after _
    exact orderly _ x
  · intro before r between r' after heq _ hfailed hid
    have hapart := hlogged.apart
    rw [heq] at hapart
    have hrest := List.rel_of_pairwise_cons (List.pairwise_append.mp hapart).2.1
      (List.mem_append_right between List.mem_cons_self)
    exact hrest hfailed hid

end Backends

end WatchedBack
