import WatchedBack.Model.Query

/-! # The texts of a pass

A text that failed stays in front of the next one, so every statement but the last has to be
carried out for all texts to be the intended ones. -/

namespace WatchedBack

/-! ### No text is empty -/

theorem append_ne_empty {s t : String} (h : s ≠ "") : s ++ t ≠ "" := by
  simp [h]

theorem append_eq_right_iff {s t : String} : s ++ t = t ↔ s = "" := by
  constructor
  · intro heq
    have hlength := congrArg String.length heq
    rw [String.length_append] at hlength
    exact String.length_eq_zero_iff.mp (by omega)
  · intro h
    rw [h, String.empty_append]

theorem BaseText.text_ne_empty (b : BaseText) (tbl idName : String) (columns : Option (List String)) :
    b.text tbl idName columns ≠ "" := by
  unfold text
  exact append_ne_empty (by simp)

theorem TableTexts.purge_ne_empty (t : TableTexts) (kind : String) (retention : ℕ) :
    t.purge kind retention ≠ "" := by
  unfold purge
  exact append_ne_empty (by simp)

section pass

variable {t : TableTexts} {cfg : AggregData} {fp : ℚ} {next : Schedule} {done : AggregStmt → Bool}
  {q : Query} {stmt : AggregStmt × String} {jobs : List (AggregStmt × String)}

theorem forall_mem_ite {α : Type} {c : Prop} [Decidable c] {xs : List α} {P : α → Prop}
    (h : ∀ x ∈ xs, P x) : ∀ x ∈ (if c then xs else []), P x := by
  split
  · exact h
  · simp

theorem intendedTexts_ne_empty : ∀ stmt ∈ intendedTexts t cfg fp next, stmt.2 ≠ "" := by
  have hbase (b : BaseText) : b.text t.tbl t.idName t.columns ≠ "" := b.text_ne_empty _ _ _
  have hpurge {c : Prop} [Decidable c] (stmt : AggregStmt) (kind : String) (retention : ℕ) :
      ∀ s ∈ (if c then [(stmt, t.purge kind retention)] else []), s.2 ≠ "" := by
    apply forall_mem_ite
    intro s hs
    rw [List.mem_singleton.mp hs]
    exact t.purge_ne_empty _ _
  have hlow : ∀ stmt ∈ lowTexts t cfg fp next, stmt.2 ≠ "" :=
    forall_mem_ite (List.forall_mem_cons.mpr ⟨hbase _, hpurge _ _ _⟩)
  have hmed : ∀ stmt ∈ medTexts t cfg fp next, stmt.2 ≠ "" :=
    forall_mem_ite (List.forall_mem_cons.mpr ⟨hbase _, hpurge _ _ _⟩)
  have hhigh : ∀ stmt ∈ highTexts t cfg fp next, stmt.2 ≠ "" :=
    forall_mem_ite (List.forall_mem_cons.mpr
      ⟨hbase _, List.forall_mem_append.mpr ⟨hpurge _ _ _, hpurge _ _ _⟩⟩)
  exact List.forall_mem_append.mpr ⟨List.forall_mem_append.mpr ⟨hlow, hmed⟩, hhigh⟩

/-- The statements are those of the pass over the tables. -/
theorem intendedTexts_stmts : (intendedTexts t cfg fp next).map Prod.fst =
    AggregState.lowJobs cfg fp next ++ AggregState.medJobs cfg fp next ++
      AggregState.highJobs cfg fp next := by
  have hlow : (lowTexts t cfg fp next).map Prod.fst = AggregState.lowJobs cfg fp next := by
    unfold lowTexts AggregState.lowJobs
    split_ifs <;> rfl
  have hmed : (medTexts t cfg fp next).map Prod.fst = AggregState.medJobs cfg fp next := by
    unfold medTexts AggregState.medJobs
    split_ifs <;> rfl
  have hhigh : (highTexts t cfg fp next).map Prod.fst = AggregState.highJobs cfg fp next := by
    unfold highTexts AggregState.highJobs
    split_ifs <;> rfl
  rw [intendedTexts, List.map_append, List.map_append, hlow, hmed, hhigh]

theorem nodup_intendedTexts : ((intendedTexts t cfg fp next).map Prod.fst).Nodup := by
  have hlow : (AggregState.lowJobs cfg fp next).Sublist [.baseAm, .purgeD] := by
    unfold AggregState.lowJobs
    split_ifs <;> simp
  have hmed : (AggregState.medJobs cfg fp next).Sublist [.baseAh, .purgeAm] := by
    unfold AggregState.medJobs
    split_ifs <;> simp
  have hhigh : (AggregState.highJobs cfg fp next).Sublist [.baseAd, .purgeAh, .purgeAd] := by
    unfold AggregState.highJobs
    split_ifs <;> simp
  rw [intendedTexts_stmts]
  refine List.Nodup.sublist ((hlow.append hmed).append hhigh) ?_
  decide

/-! ### Which texts are sent -/

/-- What was sent stays sent. -/
theorem sent_foldl (q : Query) (jobs : List (AggregStmt × String)) :
    (jobs.foldl (Query.exec done) q).sent =
      q.sent ++ (jobs.foldl (Query.exec done) ⟨q.text, []⟩).sent := by
  induction jobs generalizing q with
  | nil => simp
  | cons stmt jobs ih =>
      rw [List.foldl_cons, ih, List.foldl_cons, ih (Query.exec done ⟨q.text, []⟩ stmt)]
      simp [Query.exec]

theorem sent_cons (text : String) (stmt : AggregStmt × String) (jobs : List (AggregStmt × String)) :
    ((stmt :: jobs).foldl (Query.exec done) ⟨text, []⟩).sent = (stmt.1, text ++ stmt.2) ::
      (jobs.foldl (Query.exec done) ⟨if done stmt.1 then "" else text ++ stmt.2, []⟩).sent := by
  rw [List.foldl_cons, sent_foldl]
  rfl

theorem sent_stmts (done : AggregStmt → Bool) (text : String)
    (jobs : List (AggregStmt × String)) :
    (jobs.foldl (Query.exec done) ⟨text, []⟩).sent.map Prod.fst = jobs.map Prod.fst := by
  induction jobs generalizing text with
  | nil => rfl
  | cons stmt jobs ih => rw [sent_cons, List.map_cons, ih, List.map_cons]

/-- With a text left over, the first text that is sent is not the intended one. -/
theorem sent_ne_of_text {text : String} (h : text ≠ "") (stmt : AggregStmt × String)
    (jobs : List (AggregStmt × String)) :
    ((stmt :: jobs).foldl (Query.exec done) ⟨text, []⟩).sent ≠ stmt :: jobs := by
  rw [sent_cons]
  intro heq
  have hfirst : text ++ stmt.2 = stmt.2 := congrArg Prod.snd (List.cons.inj heq).1
  exact h (append_eq_right_iff.mp hfirst)

/-- From an empty query the texts are the intended ones exactly if no statement but the last
fails. -/
theorem sent_eq_iff (hjobs : ∀ stmt ∈ jobs, stmt.2 ≠ "") :
    (jobs.foldl (Query.exec done) ⟨"", []⟩).sent = jobs ↔
      ∀ stmt ∈ (jobs.map Prod.fst).dropLast, done stmt = true := by
  induction jobs with
  | nil => simp
  | cons stmt jobs ih =>
      obtain ⟨hstmt, hrest⟩ := List.forall_mem_cons.mp hjobs
      rw [sent_cons, String.empty_append, List.cons_inj_right]
      cases jobs with
      | nil => simp
      | cons second jobs =>
          rw [List.map_cons, List.map_cons, List.dropLast_cons_cons, List.forall_mem_cons]
          cases hdone : done stmt.1 with
          | true =>
              simp only [if_true, true_and]
              exact ih hrest
          | false =>
              simp only [Bool.false_eq_true, if_false, false_and, iff_false]
              exact sent_ne_of_text hstmt second jobs

/-! ### The pass over the tables -/

section tables

variable {ι : Type} {ok : AggregStmt → Bool} {now : ℕ} {p : AggregState ι × Bool}

theorem append_log (p : AggregState ι × Bool) (stmt : AggregStmt) :
    (AggregState.append cfg ok now p stmt).1.log = p.1.log ++
      [⟨stmt, now, p.1.tables, (AggregState.append cfg ok now p stmt).2⟩] := by
  unfold AggregState.append AggregState.send
  split
  · split <;> rfl
  · rfl

/-- The flag of a pass over the tables says whether the query is empty. -/
theorem append_query (q : Query) (hstmt : stmt.2 ≠ "")
    (hdone : done stmt.1 = (AggregState.append cfg ok now p stmt.1).2) :
    (AggregState.append cfg ok now p stmt.1).2 = true ↔ (q.exec done stmt).text = "" := by
  rw [← hdone, Query.exec]
  cases done stmt.1 with
  | true => simp
  | false => simp [hstmt]

/-- A statement that is carried out has its own text. -/
theorem text_of_append (hp : p.2 = true ↔ q.text = "")
    (happend : (AggregState.append cfg ok now p stmt.1).2 = true) : q.text ++ stmt.2 = stmt.2 := by
  have hflag : p.2 = true := by
    by_contra hflag
    rw [AggregState.append, if_neg hflag] at happend
    cases happend
  rw [hp.mp hflag, String.empty_append]

theorem foldl_exec_congr {done' : AggregStmt → Bool} (q : Query)
    (h : ∀ stmt ∈ jobs.map Prod.fst, done stmt = done' stmt) :
    jobs.foldl (Query.exec done) q = jobs.foldl (Query.exec done') q := by
  apply List.foldl_ext
  intro q stmt hstmt
  rw [Query.exec, Query.exec, h stmt.1 (List.mem_map_of_mem hstmt)]

/-- What the server did with the texts of some jobs, which were meant to be sent as they are:
the outcome of each is that of its statement, and only what is meant is carried out. -/
structure Sends (jobs : List (AggregStmt × String)) (done : AggregStmt → Bool)
    (entries : List (Executed ι)) (sent : List (AggregStmt × String)) : Prop where
  outcomes : entries.map (fun e => (e.stmt, e.done)) = sent.map fun x => (x.1, done x.1)
  meant : ∀ x ∈ sent, done x.1 = true → x ∈ jobs

theorem foldl_append_sends (hdistinct : (jobs.map Prod.fst).Nodup)
    (hjobs : ∀ stmt ∈ jobs, stmt.2 ≠ "") (hp : p.2 = true ↔ q.text = "") :
    ∃ done entries,
      ((jobs.map Prod.fst).foldl (AggregState.append cfg ok now) p).1.log = p.1.log ++ entries ∧
      Sends jobs done entries (jobs.foldl (Query.exec done) ⟨q.text, []⟩).sent := by
  induction jobs generalizing p q with
  | nil => exact ⟨fun _ => true, [], by simp, rfl, by simp⟩
  | cons stmt jobs ih =>
      obtain ⟨hnew, hdistinct⟩ := List.nodup_cons.mp hdistinct
      obtain ⟨hstmt, hrest⟩ := List.forall_mem_cons.mp hjobs
      let p' := AggregState.append cfg ok now p stmt.1
      have hquery : p'.2 = true ↔ (q.exec (fun _ => p'.2) stmt).text = "" := append_query q hstmt rfl
      obtain ⟨done, entries, hlog, hsends⟩ := ih hdistinct hrest hquery
      -- the answers of the other statements, and what became of this one
      let done' := Function.update done stmt.1 p'.2
      have hself : done' stmt.1 = p'.2 := Function.update_self ..
      have hsame : ∀ other ∈ jobs.map Prod.fst, done' other = done other := by
        intro other hother
        exact Function.update_of_ne (ne_of_mem_of_not_mem hother hnew) ..
      have htext : (if done' stmt.1 then "" else q.text ++ stmt.2) =
          (q.exec (fun _ => p'.2) stmt).text := by rw [hself]; rfl
      have hsent : ((stmt :: jobs).foldl (Query.exec done') ⟨q.text, []⟩).sent =
          (stmt.1, q.text ++ stmt.2) ::
            (jobs.foldl (Query.exec done) ⟨(q.exec (fun _ => p'.2) stmt).text, []⟩).sent := by
        rw [sent_cons, foldl_exec_congr _ hsame, htext]
      have hagree : ∀ x ∈ (jobs.foldl (Query.exec done)
          ⟨(q.exec (fun _ => p'.2) stmt).text, []⟩).sent, done' x.1 = done x.1 := by
        intro x hx
        apply hsame
        rw [← sent_stmts done]
        exact List.mem_map_of_mem hx
      refine ⟨done', ⟨stmt.1, now, p.1.tables, p'.2⟩ :: entries, ?_, ?_, ?_⟩
      · rw [List.map_cons, List.foldl_cons, hlog, append_log, List.append_assoc]
        rfl
      · rw [hsent, List.map_cons, List.map_cons, hself, hsends.outcomes]
        congr 1
        apply List.map_congr_left
        intro x hx
        rw [hagree x hx]
      · rw [hsent]
        intro x hx hcarried
        rcases List.mem_cons.mp hx with rfl | hx
        · rw [hself] at hcarried
          rw [text_of_append hp hcarried]
          exact List.mem_cons_self
        · rw [hagree x hx] at hcarried
          exact List.mem_cons_of_mem _ (hsends.meant x hx hcarried)

/-- Every pass over the tables is one of the texts: the outcomes are those of the statements that
were sent, and what is carried out was sent as it is meant. -/
theorem pass_sends {s : AggregState ι} (hdata : s.data = some next) (t : TableTexts)
    (cfg : AggregData) (ok : AggregStmt → Bool) (fp : ℚ) (now : ℕ) :
    ∃ done entries, (s.pass cfg ok fp now).log = s.log ++ entries ∧
      Sends (intendedTexts t cfg fp next) done entries (passQuery t cfg fp next done).sent := by
  have hload : s.load cfg ok now = s := by rw [AggregState.load, hdata]; rfl
  have hlog : (s.pass cfg ok fp now).log = (((intendedTexts t cfg fp next).map Prod.fst).foldl
      (AggregState.append cfg ok now) (s, true)).1.log := by
    rw [AggregState.pass, hload, intendedTexts_stmts]
    simp only [hdata]
  rw [hlog]
  have hempty : true = true ↔ (⟨"", []⟩ : Query).text = "" := by simp
  exact foldl_append_sends (p := (s, true)) nodup_intendedTexts intendedTexts_ne_empty hempty

end tables

end pass

/-- In a pass over a table, the texts that are sent are the intended ones if and only if no
statement fails that another one follows. Whatever fails, the jobs are rescheduled. -/
theorem texts_exact_iff (t : TableTexts) (cfg : AggregData) (fp : ℚ) (next : Schedule)
    (done : AggregStmt → Bool) :
    ((passQuery t cfg fp next done).sent = intendedTexts t cfg fp next ↔
      ∀ stmt ∈ ((intendedTexts t cfg fp next).map Prod.fst).dropLast, done stmt = true) ∧
    ∀ (ι : Type) (tables : Tables ι) (log : List (Executed ι)) (ok : AggregStmt → Bool) (now : ℕ),
      ((⟨tables, some next, log⟩ : AggregState ι).pass cfg ok fp now).data =
        some (AggregState.reschedule cfg fp next) := by
  constructor
  · exact sent_eq_iff intendedTexts_ne_empty
  · intro ι tables log ok now
    rfl

/-- All jobs are due, and nothing is purged. -/
theorem intendedTexts_due (t : TableTexts) : intendedTexts t ⟨30, 2, 1, 0, 0, 0, 0⟩ 1 ⟨0, 0, 0⟩ =
    [(.baseAm, t.baseAm), (.baseAh, t.baseAh), (.baseAd, t.baseAd)] := by
  unfold intendedTexts lowTexts medTexts highTexts
  simp only [zero_lt_one, lt_irrefl, if_true, if_false]
  generalize t.baseAm = am, t.baseAh = ah, t.baseAd = ad
  rfl

/-- After a minute insert that fails, the hour insert is not sent as it is meant. -/
theorem sent_ne_intendedTexts (t : TableTexts) :
    (passQuery t ⟨30, 2, 1, 0, 0, 0, 0⟩ 1 ⟨0, 0, 0⟩ fun stmt => stmt ≠ .baseAm).sent ≠
      intendedTexts t ⟨30, 2, 1, 0, 0, 0, 0⟩ 1 ⟨0, 0, 0⟩ := by
  rw [passQuery, intendedTexts_due, sent_cons, String.empty_append, Ne, List.cons_inj_right]
  exact sent_ne_of_text (BaseText.text_ne_empty _ _ _ _) _ _

def diskTexts : TableTexts := ⟨"disk", "host_id", some ["pctfree"], ⟨30, 2, 1, 14, 60, 730, 0⟩⟩

theorem hour_text_is_joined :
    (passQuery diskTexts ⟨30, 2, 1, 0, 0, 0, 0⟩ 1 ⟨0, 0, 0⟩ fun stmt => stmt ≠ .baseAm).sent ≠
      intendedTexts diskTexts ⟨30, 2, 1, 0, 0, 0, 0⟩ 1 ⟨0, 0, 0⟩ :=
  sent_ne_intendedTexts diskTexts

end WatchedBack
