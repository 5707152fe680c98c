import WatchedBack.Verification.Aggregates.Minute
import WatchedBack.Verification.Aggregates.Provenance

/-! # Minutes are exact with any number of backends on one database

The statements of all backends together are looked at as those of one aggregator, whose invariant
does not ask who sent a statement, and a sample that is written again as if it had been written so
at first. Only the purge of `d$` needs to know what the same backend has done before in its round. -/

namespace WatchedBack

open NullAggregates Grouping

/-! ### A purge some time after the insert -/

section purge

variable {ι : Type} {cfg : AggregData} {actions : List (AggregAction ι)} {s : AggregState ι}
  {now : ℕ} {t : Tables ι} {a p : ℤ}

/-- A purge of days that have been aggregated, whoever aggregated them. -/
theorem Aggregated.purgeD_of_le (h : Aggregated cfg actions s a p)
    (ht : s.tables.exec cfg now .purgeD = some t)
    (hday : cutoff now sec2day cfg.retentionD * 1440 ≤ a) (e : Executed ι) (he : e.stmt = .purgeD) :
    Aggregated cfg actions { s with tables := t, log := s.log ++ [e] } a
      (max p (cutoff now sec2day cfg.retentionD)) := by
  have hd : t.d = purge now cfg.retentionD s.tables.d := (exec_d ht).trans (if_pos rfl)
  have ham : t.amRows = s.tables.amRows := by
    rw [exec_am ht, if_neg (by decide), if_neg (by decide)]
  have hle := h.purged_le
  refine ⟨?_, by omega, h.bound, h.cutoff_le_concat (by rw [he]; rfl), by simpa [ham] using h.am_nodup,
    by simpa [ham] using h.am_exact, by simpa [ham] using h.am_closed⟩
  rw [hd, purge, h.d_eq, List.filter_filter]
  refine List.filter_congr fun r _ => ?_
  rw [Bool.eq_iff_iff]
  simp only [Bool.and_eq_true, decide_eq_true_eq, purge_keeps_minute_iff]
  omega

/-- An entry that is not about `am$`. -/
theorem MinuteLog.concat_other {log : List (Executed ι)} (h : MinuteLog cfg actions log a)
    {e : Executed ι} (hsent : ∃ fp ok, .pass fp e.now ok ∈ actions)
    (he : e.stmt.insertsAm = false) : MinuteLog cfg actions (log ++ [e]) a := by
  have hno : e.stmt.insertsAm ≠ true := by simp [he]
  apply h.concat_entry hsent
  · exact fun hins => absurd hins hno
  · exact fun hins => absurd hins hno
  · exact fun res m hsample hlt => (h.given res m hsample hlt).append _
  · exact fun hins => absurd hins hno

/-- The days before the purge have been aggregated by an insert that is in the log. -/
theorem Recorded.purgeD (h : Recorded cfg actions s) (hpass : InPass actions now)
    (ht : s.tables.exec cfg now .purgeD = some t) {base : Executed ι} (hbase : base ∈ s.log)
    (hins : base.stmt.insertsAm = true) (hdone : base.done = true)
    (hday : cutoff now sec2day cfg.retentionD * 1440 ≤ cutoff base.now 60 cfg.delayAm) :
    Recorded cfg actions
      { s with tables := t, log := s.log ++ [⟨.purgeD, now, s.tables, true⟩] } := by
  obtain ⟨a, p, hA, hL⟩ := h
  have hcut := hA.cutoff_le base hbase hins hdone
  refine ⟨a, _, hA.purgeD_of_le ht (hday.trans hcut) _ rfl, ?_⟩
  exact hL.concat_other hpass.1 rfl

/-- The other statements that are done. -/
theorem Recorded.exec (h : Recorded cfg actions s) (hO : Orderly cfg actions)
    (hpass : InPass actions now) {stmt : AggregStmt} (hne : stmt ≠ .purgeD)
    (ht : s.tables.exec cfg now stmt = some t) :
    Recorded cfg actions { s with tables := t, log := s.log ++ [⟨stmt, now, s.tables, true⟩] } := by
  by_cases hins : stmt.insertsAm = true
  · have hsend : s.send cfg (fun _ => true) now stmt =
        ({ s with tables := t, log := s.log ++ [⟨stmt, now, s.tables, true⟩] }, true) := by
      simp [AggregState.send, ht]
    have hadm : AggregState.Admissible cfg now s stmt := by
      simp only [AggregStmt.insertsAm, decide_eq_true_eq] at hins
      rcases hins with rfl | rfl
      · simp only [Tables.exec, Option.ite_none_right_eq_some] at ht
        exact Option.isNone_iff_eq_none.mp ht.1
      · trivial
    have hkept := h.send hO hpass (fun _ => true) hadm
    rw [hsend] at hkept
    exact hkept
  · obtain ⟨a, p, hA, hL⟩ := h
    have hfalse : stmt.insertsAm = false := Bool.eq_false_iff.mpr hins
    refine ⟨a, p, ?_, ?_⟩
    · by_cases hpa : stmt = .purgeAm
      · subst hpa
        exact hA.purgeAm ht _ rfl
      · have hd : t.d = s.tables.d := (exec_d ht).trans (if_neg hne)
        have ham : t.amRows = s.tables.amRows :=
          (exec_am ht).trans ((if_neg hins).trans (if_neg hpa))
        apply hA.of_tables_eq hd ham
        intro e he hins' _
        rw [List.mem_append, List.mem_singleton] at he
        rcases he with hold | rfl
        · exact hold
        · exact absurd hins' hins
    · exact hL.concat_other hpass.1 hfalse

end purge

/-! ### A sample is written again, or a statement sent -/

section orderly

variable {ι : Type} {cfg : AggregData} {actions : List (AggregAction ι)} {now : ℕ}

theorem InOrder.renew {x y : AggregAction ι} (h : InOrder cfg x y) (row : Sample ι) :
    InOrder cfg (x.renew row) (y.renew row) := by
  have hkey (r : Sample ι) : (if r.key = row.key then row else r).key = r.key := by
    split
    · next heq => exact heq.symm
    · rfl
  cases x with
  | sample r =>
      cases y with
      | sample r' =>
          change (if r.key = row.key then row else r).key ≠ (if r'.key = row.key then row else r').key
          rw [hkey, hkey]
          exact h
      | pass => trivial
      | restart => trivial
  | pass fp now ok =>
      cases y with
      | sample r =>
          change cutoff now 60 cfg.delayAm ≤ (if r.key = row.key then row else r).bucket 60000
          rw [bucket_of_key (hkey r)]
          exact h
      | pass => exact h
      | restart => trivial
  | restart => cases y <;> trivial

theorem Orderly.renewed (h : Orderly cfg actions) {row : Sample ι} (hfirst : 60000 ≤ row.timestamp)
    (hlate : ∀ fp now ok, .pass fp now ok ∈ actions →
      cutoff now 60 cfg.delayAm ≤ row.bucket 60000) : Orderly cfg (renewed actions row) := by
  refine ⟨?_, ?_, h.retention⟩
  · rw [WatchedBack.renewed]
    split
    · exact List.pairwise_map.mpr (h.inOrder.imp fun hxy => hxy.renew row)
    · next hnew =>
      refine List.pairwise_append.mpr ⟨h.inOrder, List.pairwise_singleton _ _, ?_⟩
      intro x hx y hy
      obtain rfl := List.mem_singleton.mp hy
      cases x with
      | sample r =>
          intro hkey
          exact hnew ⟨r, mem_stored.mpr hx, hkey⟩
      | pass fp now ok => exact hlate fp now ok hx
      | restart => trivial
  · intro r hr
    rw [← mem_stored, stored_renewed] at hr
    rcases mem_insertSample hr with hold | rfl
    · exact h.firstMinute r (mem_stored.mp hold)
    · exact hfirst

theorem Orderly.concat_pass (h : Orderly cfg actions) {fp : ℚ} {ok : AggregStmt → Bool}
    (hnow : ∀ fp now' ok, .pass fp now' ok ∈ actions → now' ≤ now) :
    Orderly cfg (actions ++ [.pass fp now ok]) := by
  refine ⟨List.pairwise_append.mpr ⟨h.inOrder, List.pairwise_singleton _ _, ?_⟩, ?_, h.retention⟩
  · intro x hx y hy
    obtain rfl := List.mem_singleton.mp hy
    cases x with
    | sample r => trivial
    | pass fp' now' ok' => exact hnow fp' now' ok' hx
    | restart => trivial
  · intro r hr
    exact h.firstMinute r (by simpa using hr)

end orderly

/-! ### Rounds of several backends -/

section jobs

variable {cfg : AggregData} {fp : ℚ} {next : Schedule} {front rest : List AggregStmt}

/-- The jobs that are due, in their order. -/
def dueJobs (cfg : AggregData) (fp : ℚ) (next : Schedule) : List AggregStmt :=
  AggregState.lowJobs cfg fp next ++ AggregState.medJobs cfg fp next ++
    AggregState.highJobs cfg fp next

theorem purgeD_mem_dueJobs (h : .purgeD ∈ dueJobs cfg fp next) :
    next.nextLow < fp ∧ 0 < cfg.retentionD := by
  have hmed : .purgeD ∉ AggregState.medJobs cfg fp next := by
    rw [AggregState.medJobs]
    split_ifs <;> simp
  have hhigh : .purgeD ∉ AggregState.highJobs cfg fp next := by
    rw [AggregState.highJobs]
    split_ifs <;> simp
  have hlow : .purgeD ∈ AggregState.lowJobs cfg fp next := by
    simpa [dueJobs, hmed, hhigh] using h
  rw [AggregState.lowJobs] at hlow
  by_cases hdue : next.nextLow < fp
  · refine ⟨hdue, ?_⟩
    by_contra hret
    simp [hdue, hret] at hlow
  · simp [hdue] at hlow

/-- The purge of `d$` comes after `base_am`, and only for a limited retention. -/
theorem baseAm_before_purgeD (h : dueJobs cfg fp next = front ++ .purgeD :: rest) :
    .baseAm ∈ front ∧ 0 < cfg.retentionD := by
  obtain ⟨hdue, hret⟩ := purgeD_mem_dueJobs (h ▸ List.mem_append_right front List.mem_cons_self)
  have hhead : dueJobs cfg fp next = .baseAm :: (dueJobs cfg fp next).tail := by
    simp [dueJobs, AggregState.lowJobs, hdue]
  refine ⟨?_, hret⟩
  rw [h] at hhead
  cases front with
  | nil => exact absurd (List.cons.inj hhead).1 (by decide)
  | cons x front =>
      rw [(List.cons.inj hhead).1]
      exact List.mem_cons_self

end jobs

namespace Aggregators

variable {ι : Type} {cfg : AggregData} {span : ℕ} {moves : List (AggregMove ι)} {s : Aggregators ι}
  {m : AggregMove ι} {b now : ℕ} {ok : Bool} {stmt : AggregStmt}

/-- What an earlier move of a run says about a later one: the clock of the server does not go back,
and a sample is written, for the first time or again, before the cut-off has passed its minute. -/
def InTurn (cfg : AggregData) : AggregMove ι → AggregMove ι → Prop
  | .send _ now _, .sample row => cutoff now 60 cfg.delayAm ≤ row.bucket 60000
  | .send _ now _, .send _ now' _ => now ≤ now'
  | _, _ => True

/-- The assumptions on a run: those on the order, one configuration for all, and rounds that send
their statements within `span` seconds. -/
structure OrderlyRun (cfg : AggregData) (span : ℕ) (moves : List (AggregMove ι)) : Prop where
  inTurn : moves.Pairwise (InTurn cfg)
  firstMinute : ∀ row, .sample row ∈ moves → 60000 ≤ row.timestamp
  config_eq : ∀ b row, .read b (some row) ∈ moves → row = cfg
  /-- A thread looks through its jobs when it has nothing left to create. -/
  start_point : ∀ before b fp after, moves = before ++ .start b fp :: after →
    ((run before).threads b).point = .creating []
  span_le : ∀ before mid after b now now' ok ok',
    moves = before ++ .send b now ok :: (mid ++ .send b now' ok' :: after) →
    (∀ fp, .start b fp ∉ mid) → now' ≤ now + span
  retention : 0 < cfg.retentionD → 60 * cfg.delayAm + span < 86400 * cfg.retentionD

theorem OrderlyRun.of_concat (h : OrderlyRun cfg span (moves ++ [m])) : OrderlyRun cfg span moves := by
  refine ⟨(List.pairwise_append.mp h.inTurn).1, fun row hrow => h.firstMinute row (by simp [hrow]),
    fun b row hrow => h.config_eq b row (by simp [hrow]), ?_, ?_, h.retention⟩
  · intro before b fp after heq
    exact h.start_point before b fp (after ++ [m]) (by simp [heq])
  · intro before mid after b now now' ok ok' heq hmid
    exact h.span_le before mid (after ++ [m]) b now now' ok ok' (by simp [heq]) hmid

/-- What `d$` would hold if nothing were purged: of each key the row that was written last. -/
def keptSamples (moves : List (AggregMove ι)) : List (Sample ι) :=
  (stored moves).foldl insertSample []

/-- A sample takes the place of the one of its key, and a statement is a pass of its own. -/
def record (actions : List (AggregAction ι)) : AggregMove ι → List (AggregAction ι)
  | .sample row => renewed actions row
  | .send _ now ok => actions ++ [.pass 0 now fun _ => ok]
  | _ => actions

/-- The samples that are kept, as if each had been written once, and the statements as if one
aggregator sent them all. -/
def asActions (moves : List (AggregMove ι)) : List (AggregAction ι) :=
  moves.foldl record []

/-- The tables and the log without the creates that came too late. -/
def view (s : Aggregators ι) : AggregState ι :=
  ⟨s.tables, none, s.log.filter fun e => e.done || decide (e.stmt ≠ .createAm)⟩

theorem asActions_concat (moves : List (AggregMove ι)) (m : AggregMove ι) :
    asActions (moves ++ [m]) = record (asActions moves) m :=
  List.foldl_concat ..

theorem stored_asActions (moves : List (AggregMove ι)) :
    WatchedBack.stored (asActions moves) = keptSamples moves := by
  induction moves using List.reverseRecOn with
  | nil => rfl
  | append_singleton moves m ih =>
      have hkept : ∀ more, stored [m] = more →
          keptSamples (moves ++ [m]) = more.foldl insertSample (keptSamples moves) := by
        rintro more rfl
        rw [keptSamples, keptSamples, stored, List.filterMap_append, List.foldl_append]
        rfl
      rw [asActions_concat]
      cases m with
      | sample row => rw [record, stored_renewed, ih, hkept [row] rfl, List.foldl_cons, List.foldl_nil]
      | send b now ok => exact (stored_concat_pass 0 now _).trans (ih.trans (hkept [] rfl).symm)
      | read b row => exact ih.trans (hkept [] rfl).symm
      | look b ok => exact ih.trans (hkept [] rfl).symm
      | start b fp => exact ih.trans (hkept [] rfl).symm
      | restart b => exact ih.trans (hkept [] rfl).symm

theorem exists_send_of_pass {fp : ℚ} {ok : AggregStmt → Bool}
    (h : .pass fp now ok ∈ asActions moves) : ∃ b ok, .send b now ok ∈ moves := by
  induction moves using List.reverseRecOn with
  | nil => cases h
  | append_singleton moves m ih =>
      have hmore : .pass fp now ok ∈ asActions moves → ∃ b ok, .send b now ok ∈ moves ++ [m] := by
        intro hold
        obtain ⟨b, ok', hmem⟩ := ih hold
        exact ⟨b, ok', List.mem_append_left _ hmem⟩
      rw [asActions_concat] at h
      cases m with
      | sample row => exact hmore (pass_mem_renewed.mp h)
      | send b now' ok' =>
          rcases List.mem_append.mp h with hold | hnew
          · exact hmore hold
          · cases List.mem_singleton.mp hnew
            exact ⟨b, ok', by simp⟩
      | read b row => exact hmore h
      | look b ok' => exact hmore h
      | start b fp' => exact hmore h
      | restart b => exact hmore h

/-- The last move comes after the statements before it. -/
theorem OrderlyRun.last (h : OrderlyRun cfg span (moves ++ [m])) {fp : ℚ} {ok : AggregStmt → Bool}
    (hpass : .pass fp now ok ∈ Aggregators.asActions moves) :
    ∃ b ok, InTurn cfg (.send b now ok) m := by
  obtain ⟨b, ok', hmem⟩ := exists_send_of_pass hpass
  exact ⟨b, ok', (List.pairwise_append.mp h.inTurn).2.2 _ hmem m List.mem_cons_self⟩

theorem OrderlyRun.late {row : Sample ι} (h : OrderlyRun cfg span (moves ++ [.sample row])) :
    ∀ fp now ok, .pass fp now ok ∈ Aggregators.asActions moves →
      cutoff now 60 cfg.delayAm ≤ row.bucket 60000 := by
  intro fp now ok hpass
  obtain ⟨b, ok', hturn⟩ := h.last hpass
  exact hturn

theorem OrderlyRun.asActions (h : OrderlyRun cfg span moves) : Orderly cfg (asActions moves) := by
  have hretention : 0 < cfg.retentionD → cfg.delayAm < 1440 * cfg.retentionD := by
    intro hret
    have := h.retention hret
    omega
  induction moves using List.reverseRecOn with
  | nil => exact ⟨List.Pairwise.nil, by simp [Aggregators.asActions], hretention⟩
  | append_singleton moves m ih =>
      have hO := ih h.of_concat
      rw [asActions_concat]
      cases m with
      | sample row => exact hO.renewed (h.firstMinute row (by simp)) h.late
      | send b now ok =>
          refine hO.concat_pass fun fp now' ok' hpass => ?_
          obtain ⟨b', ok'', hturn⟩ := h.last hpass
          exact hturn
      | read b row => exact hO
      | look b ok => exact hO
      | start b fp => exact hO
      | restart b => exact hO

theorem OrderlyRun.inPass (h : OrderlyRun cfg span (moves ++ [.send b now ok])) :
    InPass (Aggregators.asActions (moves ++ [.send b now ok])) now := by
  have hO := h.asActions
  rw [asActions_concat] at hO ⊢
  exact hO.inPass

/-! ### A statement reaches the server -/

theorem exec_log (s : Aggregators ι) (cfg : AggregData) (now : ℕ) (ok : Bool) (stmt : AggregStmt) :
    (s.exec cfg now ok stmt).1.log =
      s.log ++ [⟨stmt, now, s.tables, (s.exec cfg now ok stmt).2⟩] := by
  rcases exec_cases s cfg now ok stmt with ⟨t, -, -, heq⟩ | heq <;> rw [heq]

theorem exec_threads (s : Aggregators ι) (cfg : AggregData) (now : ℕ) (ok : Bool)
    (stmt : AggregStmt) : (s.exec cfg now ok stmt).1.threads = s.threads := by
  rcases exec_cases s cfg now ok stmt with ⟨t, -, -, heq⟩ | heq <;> rw [heq]

/-- Whatever a backend sends, the minutes stay as they should, if its purges of `d$` follow an
insert that has aggregated what they delete. -/
theorem recorded_exec {actions : List (AggregAction ι)} (h : Recorded cfg actions s.view)
    (hO : Orderly cfg actions) (hpass : InPass actions now)
    (hpurge : stmt = .purgeD → ok = true → ∃ base ∈ s.log, base.stmt.insertsAm = true ∧
      base.done = true ∧
      cutoff now sec2day cfg.retentionD * 1440 ≤ cutoff base.now 60 cfg.delayAm) :
    Recorded cfg actions (s.exec cfg now ok stmt).1.view := by
  rcases exec_cases s cfg now ok stmt with ⟨t, hok, ht, heq⟩ | heq
  · have hview : (s.exec cfg now ok stmt).1.view =
        { s.view with tables := t, log := s.view.log ++ [⟨stmt, now, s.tables, true⟩] } := by
      simp [heq, view, List.filter_append]
    rw [hview]
    by_cases hpd : stmt = .purgeD
    · subst hpd
      obtain ⟨base, hbase, hins, hdone, hday⟩ := hpurge rfl hok
      have hmem : base ∈ s.view.log := by simp [view, hbase, hdone]
      exact h.purgeD hpass ht hmem hins hdone hday
    · exact h.exec hO hpass hpd ht
  · by_cases hcreate : stmt = .createAm
    · subst hcreate
      have hview : (s.exec cfg now ok .createAm).1.view = s.view := by
        simp [heq, view, List.filter_append]
      rw [hview]
      exact h
    · have hview : (s.exec cfg now ok stmt).1.view =
          { s.view with log := s.view.log ++ [⟨stmt, now, s.tables, false⟩] } := by
        simp [heq, view, List.filter_append, hcreate]
      rw [hview]
      by_cases hbase : stmt = .baseAm
      · subst hbase
        exact h.send hO hpass (fun _ => false) trivial
      · refine h.skip hpass ?_
        simp [AggregStmt.insertsAm, hcreate, hbase]

/-! ### The round of a backend -/

/-- The backend has had a `base_am` done in the round that it is in. -/
def BaseSent (moves : List (AggregMove ι)) (log : List (Executed ι)) (b : ℕ) : Prop :=
  ∃ before now ok after, moves = before ++ .send b now ok :: after ∧ (∀ fp, .start b fp ∉ after) ∧
    ∃ base ∈ log, base.stmt = .baseAm ∧ base.done = true ∧ base.now = now

/-- A thread has read the common configuration, and what it has still to send is the rest of its
jobs. -/
structure InRound (cfg : AggregData) (moves : List (AggregMove ι)) (log : List (Executed ι)) (b : ℕ)
    (th : AggregThread) : Prop where
  entry_eq : ∀ e, th.entry = some e → e.texts = cfg ∧ e.config = cfg
  looking : ∀ todo missing, th.point = .looking todo missing →
    ∀ stmt ∈ todo ++ missing, stmt.creates = true
  creating : ∀ todo, th.point = .creating todo → ∀ stmt ∈ todo, stmt.creates = true
  working : ∀ todo clean, th.point = .working todo clean → todo = [] ∨
    ∃ fp next front, dueJobs cfg fp next = front ++ todo ∧
      (clean = true → .baseAm ∈ front → BaseSent moves log b)

theorem BaseSent.concat {log more : List (Executed ι)} (h : BaseSent moves log b)
    (hm : ∀ fp, m ≠ .start b fp) : BaseSent (moves ++ [m]) (log ++ more) b := by
  obtain ⟨before, now, ok, after, rfl, hafter, base, hbase, hrest⟩ := h
  refine ⟨before, now, ok, after ++ [m], by simp, fun fp hmem => ?_, base,
    List.mem_append_left _ hbase, hrest⟩
  rcases List.mem_append.mp hmem with hold | hnew
  · exact hafter fp hold
  · exact hm fp (List.mem_singleton.mp hnew).symm

/-- A move of another backend, or of a collector, leaves a round as it is. -/
theorem InRound.concat {log more : List (Executed ι)} {th : AggregThread}
    (h : InRound cfg moves log b th) (hm : ∀ fp, m ≠ .start b fp) :
    InRound cfg (moves ++ [m]) (log ++ more) b th := by
  refine ⟨h.entry_eq, h.looking, h.creating, fun todo clean hpoint => ?_⟩
  rcases h.working todo clean hpoint with hnil | ⟨fp, next, front, hjobs, hbase⟩
  · exact Or.inl hnil
  · exact Or.inr ⟨fp, next, front, hjobs, fun hclean hmem => (hbase hclean hmem).concat hm⟩

/-- A thread that has just been started, or has nothing left to do. -/
theorem inRound_started (moves : List (AggregMove ι)) (log : List (Executed ι)) (b : ℕ) :
    InRound cfg moves log b .started := by
  refine ⟨?_, ?_, ?_, fun todo clean hpoint => ?_⟩
  · exact fun e he => by cases he
  · exact fun todo missing hpoint => by cases hpoint
  · exact fun todo hpoint => by cases hpoint
  · cases hpoint
    exact Or.inl rfl

/-- The invariant of runs. -/
structure Minutes (cfg : AggregData) (moves : List (AggregMove ι)) (s : Aggregators ι) : Prop where
  recorded : Recorded cfg (asActions moves) s.view
  rounds : ∀ b, InRound cfg moves s.log b (s.threads b)

/-- What a thread still has to send was written with the common configuration. -/
theorem InRound.sent_eq {log : List (Executed ι)} {th : AggregThread} {e : ThreadEntry}
    (h : InRound cfg moves log b th) (he : th.entry = some e) : e.sent = cfg := by
  obtain ⟨htexts, hconfig⟩ := h.entry_eq e he
  rw [ThreadEntry.sent, htexts, hconfig]

/-- A move that sends nothing changes one thread. -/
theorem Minutes.setThread (h : Minutes cfg moves s) {th : AggregThread}
    (hsilent : record (asActions moves) m = asActions moves) (hm : ∀ b' fp, b' ≠ b → m ≠ .start b' fp)
    (hth : InRound cfg (moves ++ [m]) s.log b th) :
    Minutes cfg (moves ++ [m]) (s.setThread b th) := by
  refine ⟨?_, fun b' => ?_⟩
  · rw [asActions_concat, hsilent]
    exact h.recorded
  · by_cases hb : b' = b
    · subst hb
      simpa [Aggregators.setThread] using hth
    · have hround : InRound cfg (moves ++ [m]) (s.log ++ []) b' (s.threads b') :=
        (h.rounds b').concat fun fp => hm b' fp hb
      simpa [Aggregators.setThread, hb] using hround

/-- A move that does nothing. -/
theorem Minutes.concat (h : Minutes cfg moves s)
    (hsilent : record (asActions moves) m = asActions moves) (hm : ∀ b fp, m ≠ .start b fp) :
    Minutes cfg (moves ++ [m]) s := by
  refine ⟨?_, fun b => ?_⟩
  · rw [asActions_concat, hsilent]
    exact h.recorded
  · have hround : InRound cfg (moves ++ [m]) (s.log ++ []) b (s.threads b) :=
      (h.rounds b).concat fun fp => hm b fp
    simpa using hround

/-- A thread that is to send creates. -/
theorem inRound_creating {log : List (Executed ι)} {entry : Option ThreadEntry}
    {todo : List AggregStmt} (hentry : ∀ e, entry = some e → e.texts = cfg ∧ e.config = cfg)
    (htodo : ∀ stmt ∈ todo, stmt.creates = true) : InRound cfg moves log b ⟨entry, .creating todo⟩ := by
  refine ⟨hentry, ?_, ?_, ?_⟩
  · exact fun todo missing hpoint => by cases hpoint
  · intro todo' hpoint
    cases hpoint
    exact htodo
  · exact fun todo clean hpoint => by cases hpoint

theorem inRound_looking {log : List (Executed ι)} {entry : Option ThreadEntry}
    {todo missing : List AggregStmt} (hentry : ∀ e, entry = some e → e.texts = cfg ∧ e.config = cfg)
    (htodo : ∀ stmt ∈ todo ++ missing, stmt.creates = true) :
    InRound cfg moves log b ⟨entry, .looking todo missing⟩ := by
  refine ⟨hentry, ?_, ?_, ?_⟩
  · intro todo' missing' hpoint
    cases hpoint
    exact htodo
  · exact fun todo hpoint => by cases hpoint
  · exact fun todo clean hpoint => by cases hpoint

theorem Minutes.read (h : Minutes cfg moves s) {row : Option AggregData}
    (hrow : ∀ cfg', row = some cfg' → cfg' = cfg) :
    Minutes cfg (moves ++ [.read b row]) (s.read b row) := by
  have hentry := (h.rounds b).entry_eq
  unfold Aggregators.read
  split
  · exact h.setThread rfl (fun _ _ _ => by simp) (inRound_creating hentry (by simp))
  · next cfg' e _ heq =>
    obtain rfl := hrow cfg' rfl
    refine h.setThread rfl (fun _ _ _ => by simp) (inRound_creating (fun e' he' => ?_) (by simp))
    cases he'
    exact ⟨(hentry e heq).1, rfl⟩
  · next cfg' _ _ =>
    obtain rfl := hrow cfg' rfl
    refine h.setThread rfl (fun _ _ _ => by simp) (inRound_looking (fun e' he' => ?_) ?_)
    · cases he'
      exact ⟨rfl, rfl⟩
    · decide
  · exact h.concat rfl (by simp)

theorem Minutes.look (h : Minutes cfg moves s) :
    Minutes cfg (moves ++ [.look b ok]) (s.look b ok) := by
  have hround := h.rounds b
  unfold Aggregators.look
  split
  · next stmt rest missing hpoint =>
    have hall := hround.looking _ _ hpoint
    have hmissing : ∀ x ∈ if (ok && s.tables.have stmt) = true then missing else missing ++ [stmt],
        x.creates = true := by
      intro x hx
      apply hall
      split at hx
      · simp [hx]
      · rcases List.mem_append.mp hx with hold | hnew
        · simp [hold]
        · simp [List.mem_singleton.mp hnew]
    refine h.setThread rfl (fun _ _ _ => by simp) ?_
    split
    · exact inRound_creating hround.entry_eq hmissing
    · refine inRound_looking hround.entry_eq fun x hx => ?_
      rcases List.mem_append.mp hx with hold | hnew
      · exact hall x (by simp [hold])
      · exact hmissing x hnew
  · exact h.concat rfl (by simp)

theorem Minutes.start {fp : ℚ} (h : Minutes cfg moves s) (hpoint : (s.threads b).point = .creating []) :
    Minutes cfg (moves ++ [.start b fp]) (s.start b fp) := by
  have hother : ∀ b' fp', b' ≠ b → AggregMove.start b fp ≠ (.start b' fp' : AggregMove ι) := by
    intro b' fp' hb heq
    cases heq
    exact hb rfl
  unfold Aggregators.start
  rw [hpoint]
  cases hentry : (s.threads b).entry with
  | none => exact h.setThread rfl hother (inRound_started _ _ _)
  | some e =>
      obtain ⟨htexts, hconfig⟩ := (h.rounds b).entry_eq e hentry
      refine h.setThread rfl hother ⟨?_, ?_, ?_, ?_⟩
      · intro e' he'
        cases he'
        exact ⟨htexts, hconfig⟩
      · exact fun todo missing hp => by cases hp
      · exact fun todo hp => by cases hp
      · intro todo clean hp
        cases hp
        rw [hconfig]
        exact Or.inr ⟨fp, e.next, [], rfl, fun _ hmem => by cases hmem⟩

theorem Minutes.recorded_send (h : Minutes cfg moves s) (b now : ℕ) (ok : Bool) :
    Recorded cfg (asActions (moves ++ [.send b now ok])) s.view := by
  rw [asActions_concat]
  exact h.recorded.concat (stored_concat_pass 0 now fun _ => ok)

/-- A statement reaches the server, and its backend moves on. -/
theorem Minutes.exec (h : Minutes cfg moves s) (hO : OrderlyRun cfg span (moves ++ [.send b now ok]))
    {ok' : Bool} {th : AggregThread}
    (hpurge : stmt = .purgeD → ok' = true → 0 < cfg.retentionD ∧ BaseSent moves s.log b)
    (hth : InRound cfg (moves ++ [.send b now ok]) (s.exec cfg now ok' stmt).1.log b th) :
    Minutes cfg (moves ++ [.send b now ok]) ((s.exec cfg now ok' stmt).1.setThread b th) := by
  refine ⟨recorded_exec (h.recorded_send b now ok) hO.asActions hO.inPass fun hstmt hok => ?_,
    fun b' => ?_⟩
  · obtain ⟨hret, before, now₁, ok₁, after, heq, hafter, base, hbase, hbaseAm, hdone, hnow⟩ :=
      hpurge hstmt hok
    have hspan : now ≤ now₁ + span :=
      hO.span_le before after [] b now₁ now ok₁ ok (by simp [heq]) hafter
    have hretention := hO.retention hret
    refine ⟨base, hbase, by simp [AggregStmt.insertsAm, hbaseAm], hdone, ?_⟩
    rw [hnow]
    simp only [cutoff, sec2day]
    omega
  · by_cases hb : b' = b
    · subst hb
      simpa [Aggregators.setThread] using hth
    · have hround : InRound cfg (moves ++ [.send b now ok]) (s.exec cfg now ok' stmt).1.log b'
          (s.threads b') := by
        rw [exec_log]
        exact (h.rounds b').concat (by simp)
      simpa [Aggregators.setThread, exec_threads, hb] using hround

theorem Minutes.send (h : Minutes cfg moves s)
    (hO : OrderlyRun cfg span (moves ++ [.send b now ok])) :
    Minutes cfg (moves ++ [.send b now ok]) (s.send b now ok) := by
  have hround := h.rounds b
  unfold Aggregators.send
  split
  · next e stmt rest hentry hpoint =>
    rw [hround.sent_eq hentry]
    have hall := hround.creating _ hpoint
    refine h.exec hO (fun hstmt => ?_) (inRound_creating ?_ fun x hx => ?_)
    · have hcreates := hall stmt List.mem_cons_self
      rw [hstmt] at hcreates
      cases hcreates
    · exact fun e' he' => hround.entry_eq e' (hentry.trans he')
    · exact hall x (List.mem_cons_of_mem _ hx)
  · next e stmt rest clean hentry hpoint =>
    rw [hround.sent_eq hentry]
    obtain ⟨fp, next, front, hjobs, hbase⟩ :=
      (hround.working _ _ hpoint).resolve_left (List.cons_ne_nil _ _)
    refine h.exec hO (fun hstmt hok => ?_) ⟨?_, ?_, ?_, ?_⟩
    · subst hstmt
      obtain ⟨hmem, hret⟩ := baseAm_before_purgeD hjobs
      exact ⟨hret, hbase ((Bool.and_eq_true _ _).mp hok).1 hmem⟩
    · exact fun e' he' => hround.entry_eq e' (hentry.trans he')
    · exact fun todo missing hp => by cases hp
    · exact fun todo hp => by cases hp
    · intro todo clean' hp
      cases hp
      refine Or.inr ⟨fp, next, front ++ [stmt], by simpa using hjobs, fun hclean hmem => ?_⟩
      rw [exec_log, hclean]
      have hboth : clean = true := by
        rcases exec_cases s cfg now (clean && ok) stmt with ⟨t, hok, -, -⟩ | heq
        · exact ((Bool.and_eq_true _ _).mp hok).1
        · rw [heq] at hclean
          cases hclean
      rcases List.mem_append.mp hmem with hold | hnew
      · exact (hbase hboth hold).concat (by simp)
      · obtain rfl := (List.mem_singleton.mp hnew).symm
        exact ⟨moves, now, ok, [], rfl, by simp, ⟨.baseAm, now, s.tables, true⟩, by simp, rfl, rfl,
          rfl⟩
  · refine ⟨h.recorded_send b now ok, fun b' => ?_⟩
    · have hkept : InRound cfg (moves ++ [.send b now ok]) (s.log ++ []) b' (s.threads b') :=
        (h.rounds b').concat (by simp)
      simpa using hkept

theorem Minutes.sample {row : Sample ι} (h : Minutes cfg moves s)
    (hO : OrderlyRun cfg span (moves ++ [.sample row])) :
    Minutes cfg (moves ++ [.sample row]) (s.step (.sample row)) := by
  obtain ⟨a, p, hA, hL⟩ := h.recorded
  have hrow : a ≤ row.bucket 60000 :=
    hA.bound _ (one_le_bucket (hO.firstMinute row (by simp))) hO.late
  refine ⟨?_, fun b => ?_⟩
  · rw [asActions_concat]
    exact ⟨a, p, hA.renewed hrow, hL.renewed hrow hO.late⟩
  · have hround : InRound cfg (moves ++ [.sample row]) (s.log ++ []) b (s.threads b) :=
      (h.rounds b).concat (by simp)
    simpa [step] using hround

theorem minutes_run (hO : OrderlyRun cfg span moves) : Minutes cfg moves (run moves) := by
  induction moves using List.reverseRecOn with
  | nil => exact ⟨recorded_initial, inRound_started [] []⟩
  | append_singleton moves m ih =>
      have h := ih hO.of_concat
      rw [run_concat]
      cases m with
      | sample row => exact h.sample hO
      | read b row => exact h.read fun cfg' hrow => hO.config_eq b cfg' (by simp [hrow])
      | look b ok => exact h.look
      | start b fp => exact h.start (hO.start_point moves b fp [] rfl)
      | send b now ok => exact h.send hO
      | restart b => exact h.setThread rfl (fun _ _ _ => by simp) (inRound_started _ _ _)

/-! ### The minutes of all -/

/-- The row that a minute of a resource deserves. -/
def minuteRow (moves : List (AggregMove ι)) (res : ℕ × ℕ) (minute : ℤ) : AggregRow ι :=
  bucketRow 60000 colm (keptSamples moves) res minute

/-- What the backends make of the minutes together. -/
structure MinutesShared (cfg : AggregData) (moves : List (AggregMove ι)) (s : Aggregators ι) :
    Prop where
  /-- No insert meets a row that it selects, whoever wrote that row. -/
  fresh : ∀ e ∈ s.log, e.stmt = .baseAm →
    ((e.before.amRows ++ e.stmt.selected cfg e.now e.before).map Row.key).Nodup
  nodup : (s.tables.amRows.map Row.key).Nodup
  /-- Every row is made of all samples of its minute, as they were written last. -/
  exact : ∀ x ∈ s.tables.amRows, ∃ row ∈ keptSamples moves,
    x = minuteRow moves row.res (row.bucket 60000)
  /-- After a statement that is done, each minute before its cut-off has been given its row, by this
  statement or by an earlier one of any backend. -/
  complete : ∀ l₁ e l₂, s.log = l₁ ++ e :: l₂ → e.stmt.insertsAm = true → e.done = true →
    ∀ row ∈ keptSamples moves, row.bucket 60000 < cutoff e.now 60 cfg.delayAm →
      ∃ e' ∈ l₁ ++ [e], e'.stmt.insertsAm = true ∧ e'.done = true ∧
        minuteRow moves row.res (row.bucket 60000) ∈ e'.stmt.selected cfg e'.now e'.before

/-- Two backends store one sample, find `am$` missing at the same time, and both create and
fill it. -/
def twoBackends : List (AggregMove Unit) :=
  [.sample (sampleAt 864060000 3), .sample (sampleAt 864060000 3), .read 0 (some unitDelays),
    .read 1 (some unitDelays), .look 0 true, .look 1 true, .look 0 true, .look 0 true, .look 0 true,
    .look 1 true, .look 1 true, .look 1 true, .send 0 875000 true, .send 1 875000 true,
    .send 1 875000 true, .send 0 875000 true]

end Aggregators

end WatchedBack
