import WatchedBack.Verification.Aggregates.Selection

/-! # What a statement of a pass can do, and rules for passes -/

namespace WatchedBack

open NullAggregates Grouping

/-- The statements that insert into `am$`, `ah$` or `ad$`. -/
def AggregStmt.insertsAm (stmt : AggregStmt) : Bool := stmt = createAm ∨ stmt = baseAm

def AggregStmt.insertsAh (stmt : AggregStmt) : Bool := stmt = createAh ∨ stmt = baseAh

def AggregStmt.insertsAd (stmt : AggregStmt) : Bool := stmt = createAd ∨ stmt = baseAd

/-- The statements that are sent when a data type is first seen. -/
def AggregStmt.creates (stmt : AggregStmt) : Bool :=
  stmt = createAm ∨ stmt = createAh ∨ stmt = createAd ∨ stmt = createAl

namespace Tables

variable {ι : Type}

/-- The rows of a table; there are none before it is created. -/
def amRows (t : Tables ι) : List (AggregRow ι) := t.am.getD []

def ahRows (t : Tables ι) : List (AggregRow ι) := t.ah.getD []

def adRows (t : Tables ι) : List (AggregRow ι) := t.ad.getD []

end Tables

theorem insertRows_eq_some {ι : Type} {table rows table' : List (AggregRow ι)} :
    insertRows table rows = some table' ↔
      ((table ++ rows).map Row.key).Nodup ∧ table ++ rows = table' := by
  simp [insertRows]

section exec

variable {ι : Type} {cfg : AggregData} {now : ℕ} {stmt : AggregStmt} {t t' : Tables ι}

theorem exec_d (h : t.exec cfg now stmt = some t') :
    t'.d = if stmt = .purgeD then purge now cfg.retentionD t.d else t.d := by
  cases stmt <;>
    simp [Tables.exec, Option.bind_eq_some_iff] at h ⊢ <;> grind

theorem exec_am (h : t.exec cfg now stmt = some t') :
    t'.amRows = if stmt.insertsAm then t.amRows ++ stmt.selected cfg now t
      else if stmt = .purgeAm then purge now cfg.retentionAm t.amRows else t.amRows := by
  cases stmt <;>
    simp [Tables.exec, Option.bind_eq_some_iff, insertRows_eq_some, AggregStmt.insertsAm,
      Tables.amRows] at h ⊢ <;> grind

theorem exec_ah (h : t.exec cfg now stmt = some t') :
    t'.ahRows = if stmt.insertsAh then t.ahRows ++ stmt.selected cfg now t
      else if stmt = .purgeAh then purge now cfg.retentionAh t.ahRows else t.ahRows := by
  cases stmt <;>
    simp [Tables.exec, Option.bind_eq_some_iff, insertRows_eq_some, AggregStmt.insertsAh,
      Tables.ahRows] at h ⊢ <;> grind

theorem exec_ad (h : t.exec cfg now stmt = some t') :
    t'.adRows = if stmt.insertsAd then t.adRows ++ stmt.selected cfg now t
      else if stmt = .purgeAd then purge now cfg.retentionAd t.adRows else t.adRows := by
  cases stmt <;>
    simp [Tables.exec, Option.bind_eq_some_iff, insertRows_eq_some, AggregStmt.insertsAd,
      Tables.adRows] at h ⊢ <;> grind

/-- A table that exists is never dropped. -/
theorem exec_isSome (h : t.exec cfg now stmt = some t') :
    (t.am.isSome → t'.am.isSome) ∧ (t.ah.isSome → t'.ah.isSome) ∧
      (t.ad.isSome → t'.ad.isSome) := by
  cases stmt <;>
    simp [Tables.exec, Option.bind_eq_some_iff, insertRows_eq_some] at h ⊢ <;> grind

/-- A statement touches one table, or the view. -/
theorem exec_untouched (h : t.exec cfg now stmt = some t') :
    (stmt.insertsAm = false → stmt ≠ .purgeAm → t'.am = t.am) ∧
      (stmt.insertsAh = false → stmt ≠ .purgeAh → t'.ah = t.ah) ∧
      (stmt.insertsAd = false → stmt ≠ .purgeAd → t'.ad = t.ad) ∧
      (stmt ≠ .createAl → t'.al = t.al) := by
  cases stmt <;>
    simp [Tables.exec, Option.bind_eq_some_iff, insertRows_eq_some, AggregStmt.insertsAm,
      AggregStmt.insertsAh, AggregStmt.insertsAd] at h ⊢ <;> grind

/-- What a statement selects for `am$` is what `base_am` selects, as soon as no sample is from
the first minute: a create starts from an empty table. -/
theorem selected_am (hstmt : stmt.insertsAm = true) (hd : ∀ r ∈ t.d, 1 ≤ r.bucket 60000)
    (hcreate : stmt = .createAm → t.am = none) (x : AggregRow ι) :
    x ∈ stmt.selected cfg now t ↔ x ∈ baseAm cfg now t.amRows t.d := by
  simp only [AggregStmt.insertsAm, decide_eq_true_eq] at hstmt
  rcases hstmt with rfl | rfl
  · have ham : t.amRows = [] := by simp [Tables.amRows, hcreate rfl]
    simp only [AggregStmt.selected, createAm, baseAm, mem_createSelect, mem_baseSelect, ham]
    refine exists_congr fun r => and_congr_right fun hr => and_congr_right fun _ => ?_
    have hnew : Newer 60000 ([] : List (AggregRow ι)) (t.d.map Row.res) r.res (r.bucket 60000) := by
      refine ⟨Or.inr (List.mem_map_of_mem hr), by simp, fun _ => ?_⟩
      have hpos : (1 : ℚ) ≤ r.bucket 60000 := by exact_mod_cast hd r hr
      positivity
    simp [hnew]
  · rfl

end exec

/-! ### Sending -/

namespace AggregState

variable {ι : Type} {cfg : AggregData} {ok : AggregStmt → Bool} {fp : ℚ} {now : ℕ}
  {s : AggregState ι}

/-- A statement is carried out, or leaves all tables alone. -/
theorem send_cases (cfg : AggregData) (ok : AggregStmt → Bool) (now : ℕ) (s : AggregState ι)
    (stmt : AggregStmt) :
    (∃ t, s.tables.exec cfg now stmt = some t ∧
      s.send cfg ok now stmt =
        ({ s with tables := t, log := s.log ++ [⟨stmt, now, s.tables, true⟩] }, true)) ∨
    s.send cfg ok now stmt =
      ({ s with log := s.log ++ [⟨stmt, now, s.tables, false⟩] }, false) := by
  cases h : if ok stmt then s.tables.exec cfg now stmt else none with
  | none => exact Or.inr (by simp [send, h])
  | some t =>
      refine Or.inl ⟨t, ?_, by simp [send, h]⟩
      split at h
      · exact h
      · cases h

theorem send_log (stmt : AggregStmt) :
    (s.send cfg ok now stmt).1.log =
      s.log ++ [⟨stmt, now, s.tables, (s.send cfg ok now stmt).2⟩] := by
  rcases send_cases cfg ok now s stmt with ⟨t, -, heq⟩ | heq <;> rw [heq]

/-! ### Rules for passes -/

/-- What holds when a pass sends a statement: a create is sent for a table that does not
exist, a purge only for a limited retention, and that of `d$` directly follows a `base_am` that
was done at the same time. -/
def Admissible (cfg : AggregData) (now : ℕ) (s : AggregState ι) (stmt : AggregStmt) : Prop :=
  match stmt with
  | .createAm => s.tables.am = none
  | .createAh => s.tables.ah = none
  | .createAd => s.tables.ad = none
  | .createAl => s.tables.al = false
  | .purgeD => 0 < cfg.retentionD ∧ ∃ log t, s.log = log ++ [⟨.baseAm, now, t, true⟩]
  | .purgeAm => 0 < cfg.retentionAm
  | .purgeAh => 0 < cfg.retentionAh
  | .purgeAd => 0 < cfg.retentionAd
  | _ => True

theorem send_untouched (cfg : AggregData) (ok : AggregStmt → Bool) (now : ℕ) (s : AggregState ι)
    (stmt : AggregStmt) :
    (stmt.insertsAm = false → stmt ≠ .purgeAm →
        (s.send cfg ok now stmt).1.tables.am = s.tables.am) ∧
      (stmt.insertsAh = false → stmt ≠ .purgeAh →
        (s.send cfg ok now stmt).1.tables.ah = s.tables.ah) ∧
      (stmt.insertsAd = false → stmt ≠ .purgeAd →
        (s.send cfg ok now stmt).1.tables.ad = s.tables.ad) ∧
      (stmt ≠ .createAl → (s.send cfg ok now stmt).1.tables.al = s.tables.al) := by
  rcases send_cases cfg ok now s stmt with ⟨t, ht, heq⟩ | heq
  · rw [heq]
    exact exec_untouched ht
  · simp [heq]

theorem create_rule (Q : AggregState ι → Prop) {haveIt : Bool} {stmt : AggregStmt}
    (hsend : haveIt = false → Q (s.send cfg ok now stmt).1) (hs : Q s) :
    Q (create cfg ok now haveIt stmt s) := by
  cases haveIt with
  | true => exact hs
  | false => exact hsend rfl

/-- The creates of a data type that is first seen. -/
theorem load_rule (Q : AggregState ι → Prop)
    (hdata : ∀ s data, Q s → Q { s with data := data })
    (hsend : ∀ s stmt, stmt.creates → Admissible cfg now s stmt → Q s → Q (s.send cfg ok now stmt).1)
    (hs : Q s) : Q (s.load cfg ok now) := by
  have hnone : ∀ {α : Type} {o : Option α}, o.isSome = false → o = none := by simp
  unfold load
  split
  · exact hs
  · refine hdata _ _ ?_
    let s₁ := create cfg ok now s.tables.am.isSome .createAm s
    let s₂ := create cfg ok now s.tables.ah.isSome .createAh s₁
    let s₃ := create cfg ok now s.tables.ad.isSome .createAd s₂
    have h₁ : Q s₁ ∧ s₁.tables.ah = s.tables.ah ∧ s₁.tables.ad = s.tables.ad ∧
        s₁.tables.al = s.tables.al := by
      obtain ⟨-, hah, had, hal⟩ := send_untouched cfg ok now s .createAm
      refine create_rule (fun t => Q t ∧ t.tables.ah = s.tables.ah ∧ t.tables.ad = s.tables.ad ∧
        t.tables.al = s.tables.al) (fun h => ?_) ⟨hs, rfl, rfl, rfl⟩
      exact ⟨hsend s _ rfl (hnone h) hs, hah rfl (by decide), had rfl (by decide), hal (by decide)⟩
    have h₂ : Q s₂ ∧ s₂.tables.ad = s.tables.ad ∧ s₂.tables.al = s.tables.al := by
      obtain ⟨-, -, had, hal⟩ := send_untouched cfg ok now s₁ .createAh
      refine create_rule (fun t => Q t ∧ t.tables.ad = s.tables.ad ∧ t.tables.al = s.tables.al)
        (fun h => ?_) ⟨h₁.1, h₁.2.2⟩
      exact ⟨hsend s₁ _ rfl (h₁.2.1.trans (hnone h)) h₁.1, (had rfl (by decide)).trans h₁.2.2.1,
        (hal (by decide)).trans h₁.2.2.2⟩
    have h₃ : Q s₃ ∧ s₃.tables.al = s.tables.al := by
      obtain ⟨-, -, -, hal⟩ := send_untouched cfg ok now s₂ .createAd
      refine create_rule (fun t => Q t ∧ t.tables.al = s.tables.al) (fun h => ?_) ⟨h₂.1, h₂.2.2⟩
      exact ⟨hsend s₂ _ rfl (h₂.2.1.trans (hnone h)) h₂.1, (hal (by decide)).trans h₂.2.2⟩
    exact create_rule Q (fun h => hsend s₃ _ rfl (h₃.2.trans h) h₃.1) h₃.1

/-- What every statement of a list keeps, the list keeps. -/
theorem foldl_append_rule {jobs : List AggregStmt} (Q : AggregState ι → Prop)
    (hsend : ∀ s, ∀ stmt ∈ jobs, Q s → Q (s.send cfg ok now stmt).1)
    (hskip : ∀ s, ∀ stmt ∈ jobs, Q s →
      Q { s with log := s.log ++ [⟨stmt, now, s.tables, false⟩] })
    {p : AggregState ι × Bool} (hp : Q p.1) : Q (jobs.foldl (append cfg ok now) p).1 := by
  induction jobs generalizing p with
  | nil => exact hp
  | cons stmt rest ih =>
      rw [List.foldl_cons]
      refine ih (fun s x hx => hsend s x (List.mem_cons_of_mem _ hx))
        (fun s x hx => hskip s x (List.mem_cons_of_mem _ hx)) ?_
      rw [append]
      split
      · exact hsend p.1 stmt List.mem_cons_self hp
      · exact hskip p.1 stmt List.mem_cons_self hp

/-- With what else holds when a pass sends the purge of `am$`: it directly follows a `base_ah`
that was done at the same time. -/
def Prepared (cfg : AggregData) (now : ℕ) (s : AggregState ι) (stmt : AggregStmt) : Prop :=
  Admissible cfg now s stmt ∧
    (stmt = .purgeAm → ∃ log t, s.log = log ++ [⟨.baseAh, now, t, true⟩])

/-- An insert and the purge of the table that it reads: the purge is sent only if the insert
was done. -/
theorem base_purge_rule (Q : AggregState ι → Prop) {base purge : AggregStmt} (retention : ℕ)
    {p : AggregState ι × Bool} (hbase : p.2 = true → Q (p.1.send cfg ok now base).1)
    (hleft : p.2 = false → Q { p.1 with log := p.1.log ++ [⟨base, now, p.1.tables, false⟩] })
    (hpurge : 0 < retention → ∀ s : AggregState ι,
      (∃ log t, s.log = log ++ [⟨base, now, t, true⟩]) → Q s → Q (s.send cfg ok now purge).1)
    (hskip : ∀ s : AggregState ι, Q s →
      Q { s with log := s.log ++ [⟨purge, now, s.tables, false⟩] }) :
    Q ((base :: if 0 < retention then [purge] else []).foldl (append cfg ok now) p).1 := by
  rw [List.foldl_cons]
  have hfirst : Q (append cfg ok now p base).1 ∧ ((append cfg ok now p base).2 = true →
      ∃ log t, (append cfg ok now p base).1.log = log ++ [⟨base, now, t, true⟩]) := by
    rw [append]
    split
    · next hp =>
      refine ⟨hbase hp, fun hdone => ⟨p.1.log, p.1.tables, ?_⟩⟩
      rw [send_log, hdone]
    · next hp =>
      exact ⟨hleft (Bool.eq_false_iff.mpr hp), fun h => by cases h⟩
  split
  · next hret =>
    rw [List.foldl_cons, List.foldl_nil]
    generalize append cfg ok now p base = p' at hfirst ⊢
    rw [append]
    split
    · next hp => exact hpurge hret p'.1 (hfirst.2 hp) hfirst.1
    · exact hskip p'.1 hfirst.1
  · exact hfirst.1

/-- The jobs of the highest level are neither creates nor the purge of another level. -/
theorem mem_highJobs (now : ℕ) {next : Schedule} {stmt : AggregStmt}
    (h : stmt ∈ highJobs cfg fp next) :
    stmt.creates = false ∧ stmt ≠ .baseAm ∧ ∀ s : AggregState ι, Prepared cfg now s stmt := by
  have hcases : stmt = .baseAd ∨ (stmt = .purgeAh ∧ 0 < cfg.retentionAh) ∨
      (stmt = .purgeAd ∧ 0 < cfg.retentionAd) := by
    rw [highJobs] at h
    split at h <;> simp at h
    grind
  rcases hcases with rfl | ⟨rfl, hret⟩ | ⟨rfl, hret⟩
  · exact ⟨rfl, by decide, fun s => ⟨trivial, nofun⟩⟩
  · exact ⟨rfl, by decide, fun s => ⟨hret, nofun⟩⟩
  · exact ⟨rfl, by decide, fun s => ⟨hret, nofun⟩⟩

/-- The jobs that are due. -/
theorem prepared_jobs_rule (Q : AggregState ι → Prop) (next : Schedule)
    (hsend : ∀ s stmt, stmt.creates = false → Prepared cfg now s stmt → Q s →
      Q (s.send cfg ok now stmt).1)
    (hskip : ∀ s stmt, stmt.creates = false → stmt ≠ .baseAm → Q s →
      Q { s with log := s.log ++ [⟨stmt, now, s.tables, false⟩] }) (hs : Q s) :
    Q ((lowJobs cfg fp next ++ medJobs cfg fp next ++ highJobs cfg fp next).foldl
      (append cfg ok now) (s, true)).1 := by
  have hlow : Q ((lowJobs cfg fp next).foldl (append cfg ok now) (s, true)).1 := by
    unfold lowJobs
    split
    · apply base_purge_rule Q
      · exact fun _ => hsend s .baseAm rfl ⟨trivial, nofun⟩ hs
      · exact fun h => by cases h
      · exact fun hret s hlog => hsend s .purgeD rfl ⟨⟨hret, hlog⟩, nofun⟩
      · exact fun s => hskip s .purgeD rfl (by decide)
    · exact hs
  have hmed : Q ((lowJobs cfg fp next ++ medJobs cfg fp next).foldl
      (append cfg ok now) (s, true)).1 := by
    rw [List.foldl_append]
    generalize (lowJobs cfg fp next).foldl (append cfg ok now) (s, true) = p at hlow ⊢
    unfold medJobs
    split
    · apply base_purge_rule Q
      · exact fun _ => hsend p.1 .baseAh rfl ⟨trivial, nofun⟩ hlow
      · exact fun _ => hskip p.1 .baseAh rfl (by decide) hlow
      · exact fun hret s hlog => hsend s .purgeAm rfl ⟨hret, fun _ => hlog⟩
      · exact fun s => hskip s .purgeAm rfl (by decide)
    · exact hlow
  rw [List.foldl_append]
  refine foldl_append_rule Q ?_ ?_ hmed
  · intro s stmt hmem
    obtain ⟨hjob, -, hprep⟩ := mem_highJobs now hmem
    exact hsend s stmt hjob (hprep s)
  · intro s stmt hmem
    obtain ⟨hjob, hne, -⟩ := mem_highJobs (ι := ι) now hmem
    exact hskip s stmt hjob hne

theorem jobs_rule (Q : AggregState ι → Prop) (next : Schedule)
    (hsend : ∀ s stmt, stmt.creates = false → Admissible cfg now s stmt → Q s →
      Q (s.send cfg ok now stmt).1)
    (hskip : ∀ s stmt, stmt.creates = false → stmt ≠ .baseAm → Q s →
      Q { s with log := s.log ++ [⟨stmt, now, s.tables, false⟩] }) (hs : Q s) :
    Q ((lowJobs cfg fp next ++ medJobs cfg fp next ++ highJobs cfg fp next).foldl
      (append cfg ok now) (s, true)).1 :=
  prepared_jobs_rule Q next (fun s stmt hjob hprep => hsend s stmt hjob hprep.1) hskip hs

/-- A pass keeps what every statement of it keeps. -/
theorem prepared_pass_rule (Q : AggregState ι → Prop)
    (hdata : ∀ s data, Q s → Q { s with data := data })
    (hsend : ∀ s stmt, Prepared cfg now s stmt → Q s → Q (s.send cfg ok now stmt).1)
    (hskip : ∀ s stmt, stmt.creates = false → stmt ≠ .baseAm → Q s →
      Q { s with log := s.log ++ [⟨stmt, now, s.tables, false⟩] }) (hs : Q s) :
    Q (s.pass cfg ok fp now) := by
  have hload : Q (s.load cfg ok now) := by
    refine load_rule Q hdata (fun s stmt hcreates hadm => hsend s stmt ⟨hadm, ?_⟩) hs
    rintro rfl
    cases hcreates
  unfold pass
  simp only
  split
  · exact hload
  · exact hdata _ _ (prepared_jobs_rule Q _ (fun s stmt _ => hsend s stmt) hskip hload)

theorem pass_rule (Q : AggregState ι → Prop)
    (hdata : ∀ s data, Q s → Q { s with data := data })
    (hsend : ∀ s stmt, Admissible cfg now s stmt → Q s → Q (s.send cfg ok now stmt).1)
    (hskip : ∀ s stmt, stmt.creates = false → stmt ≠ .baseAm → Q s →
      Q { s with log := s.log ++ [⟨stmt, now, s.tables, false⟩] }) (hs : Q s) :
    Q (s.pass cfg ok fp now) :=
  prepared_pass_rule Q hdata (fun s stmt hprep => hsend s stmt hprep.1) hskip hs

/-! ### `am$` exists once the data type is loaded -/

theorem send_am_isSome (cfg : AggregData) (ok : AggregStmt → Bool) (now : ℕ) (stmt : AggregStmt)
    (h : s.tables.am.isSome) : (s.send cfg ok now stmt).1.tables.am.isSome := by
  rcases send_cases cfg ok now s stmt with ⟨t, ht, heq⟩ | heq
  · rw [heq]
    exact (exec_isSome ht).1 h
  · rw [heq]
    exact h

theorem create_am_isSome (cfg : AggregData) (ok : AggregStmt → Bool) (now : ℕ) (haveIt : Bool)
    (stmt : AggregStmt) (h : s.tables.am.isSome) :
    (create cfg ok now haveIt stmt s).tables.am.isSome :=
  create_rule (fun t => t.tables.am.isSome) (fun _ => send_am_isSome cfg ok now stmt h) h

theorem load_am_isSome (hok : ∀ stmt, ok stmt = true) (h : s.data.isSome → s.tables.am.isSome) :
    (s.load cfg ok now).tables.am.isSome := by
  unfold load
  split
  · next hdata => exact h hdata
  · refine create_am_isSome cfg ok now _ _ (create_am_isSome cfg ok now _ _
      (create_am_isSome cfg ok now _ _ ?_))
    cases ham : s.tables.am with
    | some am => simp [create, ham]
    | none => simp [create, send, hok, Tables.exec, ham]

end AggregState

end WatchedBack
