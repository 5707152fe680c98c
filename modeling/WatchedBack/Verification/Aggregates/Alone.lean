import WatchedBack.Verification.Aggregates.Provenance

/-! # A pass is an uninterrupted round of one thread -/

namespace WatchedBack

open AggregState

namespace Aggregators

variable {ι : Type} {cfg : AggregData} {s : Aggregators ι} {σ : AggregState ι} {b now : ℕ}
  {ok : AggregStmt → Bool}

/-- The moves that send statements one after the other. -/
def sends (b now : ℕ) (ok : AggregStmt → Bool) (todo : List AggregStmt) : List (AggregMove ι) :=
  todo.map fun stmt => .send b now (ok stmt)

/-- The thread of backend `b` has entry and point, and the tables and the log are those of `σ`. -/
structure At (s : Aggregators ι) (b : ℕ) (entry : Option ThreadEntry) (point : AggregPoint)
    (σ : AggregState ι) : Prop where
  tables_eq : s.tables = σ.tables
  log_eq : s.log = σ.log
  thread_eq : s.threads b = ⟨entry, point⟩

/-- A statement that the thread sends is sent by the pass, too. -/
theorem At.exec {entry : Option ThreadEntry} {point : AggregPoint} (h : At s b entry point σ)
    (stmt : AggregStmt) (entry' : Option ThreadEntry) (point' : Bool → AggregPoint) :
    At ((s.exec cfg now (ok stmt) stmt).1.setThread b ⟨entry', point' (s.exec cfg now (ok stmt) stmt).2⟩)
      b entry' (point' (σ.send cfg ok now stmt).2) (σ.send cfg ok now stmt).1 := by
  have htables := h.tables_eq
  have hlog := h.log_eq
  cases hexec : if ok stmt = true then σ.tables.exec cfg now stmt else none with
  | none =>
      constructor <;>
        simp [Aggregators.exec, AggregState.send, htables, hlog, hexec, Aggregators.setThread]
  | some t =>
      constructor <;>
        simp [Aggregators.exec, AggregState.send, htables, hlog, hexec, Aggregators.setThread]

/-- The creates of a round. -/
theorem At.creates {e : ThreadEntry} (he : e.sent = cfg) {todo : List AggregStmt}
    (h : At s b (some e) (.creating todo) σ) (now : ℕ) (ok : AggregStmt → Bool) :
    At ((sends b now ok todo).foldl step s) b (some e) (.creating [])
      (todo.foldl (fun σ stmt => (σ.send cfg ok now stmt).1) σ) := by
  induction todo generalizing s σ with
  | nil => exact h
  | cons stmt todo ih =>
      have hsend : s.step (.send b now (ok stmt)) =
          (s.exec cfg now (ok stmt) stmt).1.setThread b ⟨some e, .creating todo⟩ := by
        change s.send b now (ok stmt) = _
        simp [Aggregators.send, h.thread_eq, he]
      rw [sends, List.map_cons, List.foldl_cons, List.foldl_cons, hsend]
      exact ih (h.exec stmt (some e) fun _ => .creating todo)

/-- The jobs of a round. -/
theorem At.jobs {e : ThreadEntry} (he : e.sent = cfg) {todo : List AggregStmt} {clean : Bool}
    (h : At s b (some e) (.working todo clean) σ) (now : ℕ) (ok : AggregStmt → Bool) :
    At ((sends b now ok todo).foldl step s) b (some e)
      (.working [] (todo.foldl (append cfg ok now) (σ, clean)).2)
      (todo.foldl (append cfg ok now) (σ, clean)).1 := by
  induction todo generalizing s σ clean with
  | nil => exact h
  | cons stmt todo ih =>
      have hsend : s.step (.send b now (ok stmt)) =
          (s.exec cfg now (clean && ok stmt) stmt).1.setThread b
            ⟨some e, .working todo (s.exec cfg now (clean && ok stmt) stmt).2⟩ := by
        change s.send b now (ok stmt) = _
        simp [Aggregators.send, h.thread_eq, he]
      rw [sends, List.map_cons, List.foldl_cons, List.foldl_cons, hsend]
      cases clean with
      | true => exact ih (h.exec stmt (some e) fun done => .working todo done)
      | false =>
          refine ih ⟨?_, ?_, ?_⟩
          · simpa [Aggregators.exec, append, Aggregators.setThread] using h.tables_eq
          · simp [Aggregators.exec, Aggregators.setThread, h.tables_eq, h.log_eq]
          · simp [Aggregators.exec, Aggregators.setThread]

/-- The objects that `haveTable` does not find. -/
def missing (t : Tables ι) : List AggregStmt :=
  [.createAm, .createAh, .createAd, .createAl].filter fun stmt => !t.have stmt

/-- The four queries of `haveTable`. -/
theorem At.looks {entry : Option ThreadEntry}
    (h : At s b entry (.looking [.createAm, .createAh, .createAd, .createAl] []) σ) :
    At ((List.replicate 4 (.look b true)).foldl step s) b entry (.creating (missing σ.tables)) σ := by
  have htables := h.tables_eq
  cases ham : σ.tables.am.isSome <;> cases hah : σ.tables.ah.isSome <;>
    cases had : σ.tables.ad.isSome <;> cases hal : σ.tables.al <;>
    constructor <;>
    simp [List.replicate, step, look, h.thread_eq, h.log_eq, Aggregators.setThread, htables,
      Tables.have, ham, hah, had, hal, missing]

/-- A data type that is first seen gets what is missing. -/
theorem load_eq_creates (hdata : σ.data = none) :
    (σ.load cfg ok now) =
      { (missing σ.tables).foldl (fun σ stmt => (σ.send cfg ok now stmt).1) σ with
        data := some ⟨0, 0, 0⟩ } := by
  cases ham : σ.tables.am.isSome <;> cases hah : σ.tables.ah.isSome <;>
    cases had : σ.tables.ad.isSome <;> cases hal : σ.tables.al <;>
    simp [load, create, hdata, missing, Tables.have, ham, hah, had, hal]

/-- The entry of the only configuration there is. -/
def entryOf (cfg : AggregData) (next : Schedule) : ThreadEntry := ⟨cfg, cfg, next⟩

/-- Between two rounds. -/
def Rests (cfg : AggregData) (s : Aggregators ι) (b : ℕ) (σ : AggregState ι) : Prop :=
  ∃ clean, At s b (σ.data.map (entryOf cfg)) (.working [] clean) σ

/-- The moves of a round, as they depend on what is there. -/
def roundMoves (cfg : AggregData) (b : ℕ) (fp : ℚ) (now : ℕ) (ok : AggregStmt → Bool)
    (σ : AggregState ι) : List (AggregMove ι) :=
  let next := σ.data.getD ⟨0, 0, 0⟩
  .read b (some cfg) ::
    ((if σ.data.isSome then []
      else List.replicate 4 (.look b true) ++ sends b now ok (missing σ.tables)) ++
      .start b fp ::
        sends b now ok (lowJobs cfg fp next ++ medJobs cfg fp next ++ highJobs cfg fp next))

/-- From the read of the configuration to the clock: the data type is loaded. -/
theorem Rests.load (h : Rests cfg s b σ) (now : ℕ) (ok : AggregStmt → Bool) :
    ∃ next, (σ.load cfg ok now).data = some next ∧ next = σ.data.getD ⟨0, 0, 0⟩ ∧
      At ((if σ.data.isSome then []
          else List.replicate 4 (.look b true) ++ sends b now ok (missing σ.tables)).foldl step
          (s.read b (some cfg))) b (some (entryOf cfg next)) (.creating []) (σ.load cfg ok now) := by
  obtain ⟨clean, hat⟩ := h
  cases hdata : σ.data with
  | some next =>
      have hload : σ.load cfg ok now = σ := by simp [AggregState.load, hdata]
      refine ⟨next, by rw [hload, hdata], by simp, ?_⟩
      rw [hload]
      constructor <;>
        simp [Aggregators.read, hat.thread_eq, hdata, Aggregators.setThread, hat.tables_eq,
          hat.log_eq, entryOf]
  | none =>
      refine ⟨⟨0, 0, 0⟩, by rw [load_eq_creates hdata], by simp, ?_⟩
      have hread : At (s.read b (some cfg)) b (some (entryOf cfg ⟨0, 0, 0⟩))
          (.looking [.createAm, .createAh, .createAd, .createAl] []) σ := by
        constructor <;>
          simp [Aggregators.read, hat.thread_eq, hdata, Aggregators.setThread, hat.tables_eq,
            hat.log_eq, entryOf]
      have hcreates := hread.looks.creates rfl now ok
      rw [load_eq_creates hdata]
      simpa [List.foldl_append] using
        (⟨hcreates.tables_eq, hcreates.log_eq, hcreates.thread_eq⟩ : At _ b _ _
          { (missing σ.tables).foldl (fun σ stmt => (σ.send cfg ok now stmt).1) σ with
            data := some ⟨0, 0, 0⟩ })

/-- The clock is read, and the jobs that are due are sent. -/
theorem At.work {next : Schedule} (h : At s b (some (entryOf cfg next)) (.creating []) σ)
    (fp : ℚ) (now : ℕ) (ok : AggregStmt → Bool) :
    let jobs := lowJobs cfg fp next ++ medJobs cfg fp next ++ highJobs cfg fp next
    Rests cfg ((sends b now ok jobs).foldl step (s.step (.start b fp))) b
      { (jobs.foldl (append cfg ok now) (σ, true)).1 with
        data := some (reschedule cfg fp next) } := by
  intro jobs
  have hstart : At (s.step (.start b fp)) b (some (entryOf cfg (reschedule cfg fp next)))
      (.working jobs true) σ := by
    constructor <;>
      simp [step, Aggregators.start, h.thread_eq, h.tables_eq, h.log_eq, Aggregators.setThread,
        entryOf, jobs]
  have hdone := hstart.jobs rfl now ok
  exact ⟨_, hdone.tables_eq, hdone.log_eq, hdone.thread_eq⟩

/-- A round that nobody interrupts does what the pass does. -/
theorem Rests.pass (h : Rests cfg s b σ) (fp : ℚ) (now : ℕ) (ok : AggregStmt → Bool) :
    Rests cfg ((roundMoves cfg b fp now ok σ).foldl step s) b (σ.pass cfg ok fp now) := by
  obtain ⟨next, hdata, hnext, hat⟩ := h.load now ok
  have hwork := hat.work fp now ok
  rw [roundMoves, List.foldl_cons, List.foldl_append, List.foldl_cons, ← hnext]
  have hpass : σ.pass cfg ok fp now =
      { ((lowJobs cfg fp next ++ medJobs cfg fp next ++ highJobs cfg fp next).foldl
          (append cfg ok now) (σ.load cfg ok now, true)).1 with
        data := some (reschedule cfg fp next) } := by
    simp only [AggregState.pass, hdata]
  rw [hpass]
  exact hwork

/-- The moves of a backend and of the collectors. -/
def ownMoves (b : ℕ) : AggregMove ι → Bool
  | .sample _ => true
  | .read b' _ => b' = b
  | .look b' _ => b' = b
  | .start b' _ => b' = b
  | .send b' _ _ => b' = b
  | .restart b' => b' = b

theorem ownMoves_roundMoves (fp : ℚ) : (roundMoves cfg b fp now ok σ).all (ownMoves b) = true := by
  rw [roundMoves]
  split <;> simp [sends, ownMoves]

/-- Every run of one aggregator, pass by pass, is a run of a single backend, move by move. -/
theorem exists_run_alone (cfg : AggregData) (b : ℕ) (actions : List (AggregAction ι)) :
    ∃ moves : List (AggregMove ι), moves.all (ownMoves b) = true ∧
      Rests cfg (run moves) b (AggregState.run cfg actions) := by
  induction actions using List.reverseRecOn with
  | nil => exact ⟨[], rfl, true, rfl, rfl, rfl⟩
  | append_singleton actions x ih =>
      obtain ⟨moves, hown, hrests⟩ := ih
      have hrun : AggregState.run cfg (actions ++ [x]) = (AggregState.run cfg actions).step cfg x := by
        simp [AggregState.run]
      rw [hrun]
      cases x with
      | sample row =>
          obtain ⟨clean, htables, hlog, hthread⟩ := hrests
          refine ⟨moves ++ [.sample row], by simpa [ownMoves] using hown, clean, ?_, ?_, ?_⟩
          · simp [run_concat, step, AggregState.step, htables]
          · simpa [run_concat, step, AggregState.step] using hlog
          · simpa [run_concat, step, AggregState.step] using hthread
      | pass fp now ok =>
          refine ⟨moves ++ roundMoves cfg b fp now ok (AggregState.run cfg actions), ?_, ?_⟩
          · rw [List.all_append, hown, ownMoves_roundMoves, Bool.and_self]
          · rw [run, List.foldl_append]
            exact hrests.pass fp now ok
      | restart =>
          obtain ⟨clean, htables, hlog, hthread⟩ := hrests
          refine ⟨moves ++ [.restart b], by simpa [ownMoves] using hown, true, ?_, ?_, ?_⟩
          · simpa [run_concat, step, AggregState.step, Aggregators.setThread] using htables
          · simpa [run_concat, step, AggregState.step, Aggregators.setThread] using hlog
          · simp [run_concat, step, AggregState.step, Aggregators.setThread, AggregThread.started]

end Aggregators

end WatchedBack
