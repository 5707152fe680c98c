import WatchedBack.Library.Runs
import WatchedBack.Verification.Aggregates.SetupSteps

/-! # Setting up a data type

A data type is set up once: by the pass that first sees it, and with what its statements find and
come to. What is wrong then stays wrong. -/

namespace WatchedBack

open Runs

variable {col : Collation}

/-! ### What is right stays right -/

section right

variable {cfg : AggregData} {tbl : String} {s s' : Setup col} {i : ℕ} {ok : Bool} {fp : ℚ}

theorem creates_stage {stmt : AggregStmt} {k : ℕ} (h : (stmt, k) ∈ Setup.creates) :
    8 ≤ k ∧ k ≤ 10 := by
  simp only [Setup.creates, List.mem_cons, Prod.mk.injEq, List.not_mem_nil, or_false] at h
  omega

theorem creates_unique {stmt stmt' : AggregStmt} {k k' : ℕ} (h : (stmt, k) ∈ Setup.creates)
    (h' : (stmt', k') ∈ Setup.creates) : stmt = stmt' ↔ k = k' := by
  simp only [Setup.creates, List.mem_cons, Prod.mk.injEq, List.not_mem_nil, or_false] at h h'
  rcases h with ⟨rfl, rfl⟩ | ⟨rfl, rfl⟩ | ⟨rfl, rfl⟩ <;>
    rcases h' with ⟨rfl, rfl⟩ | ⟨rfl, rfl⟩ | ⟨rfl, rfl⟩ <;> simp

/-- A step within a stage. -/
theorem Setup.Right.congr (h : s.Right) (hd : s'.d = s.d) (htexts : s'.texts = s.texts)
    (hmade : ∀ stmt k, (stmt, k) ∈ Setup.creates → s'.made stmt = s.made stmt)
    (hstage : ∀ k, k = 2 ∨ (7 ≤ k ∧ k ≤ 10) → k ≤ s'.point.stage → k ≤ s.point.stage) :
    s'.Right where
  idName := by
    rw [htexts, hd]
    exact fun texts d ht hd' hk => h.idName texts d ht hd' (hstage 2 (Or.inl rfl) hk)
  columns := by
    rw [htexts, hd]
    exact fun texts ht hk => h.columns texts ht (hstage 7 (by omega) hk)
  made := by
    intro stmt k hmem
    have hk := creates_stage hmem
    rw [htexts, hmade stmt k hmem]
    exact fun ht hks => h.made stmt k hmem ht (hstage k (by omega) hks)

theorem right_congr (hd : s'.d = s.d) (htexts : s'.texts = s.texts)
    (hmade : ∀ stmt k, (stmt, k) ∈ Setup.creates → s'.made stmt = s.made stmt)
    (hstage : ∀ k, k = 2 ∨ (7 ≤ k ∧ k ≤ 10) → (k ≤ s'.point.stage ↔ k ≤ s.point.stage)) :
    s'.Right ↔ s.Right := by
  constructor
  · intro h
    exact h.congr hd.symm htexts.symm (fun stmt k hmem => (hmade stmt k hmem).symm)
      fun k hk => (hstage k hk).mpr
  · intro h
    exact h.congr hd htexts hmade fun k hk => (hstage k hk).mp

/-- Before anything is read, nothing is wrong. -/
theorem right_of_stage (h : s.texts.isSome = true → s.point.stage < 2) : s.Right where
  idName texts d ht _ hk := by
    have hlt := h (by rw [ht]; rfl)
    omega
  columns texts ht hk := by
    have hlt := h (by rw [ht]; rfl)
    omega
  made stmt k hmem ht hk := by
    have hlt := h ht
    have hk' := creates_stage hmem
    omega

/-- A step keeps what is right exactly if it meets its condition, and makes nothing right. -/
structure Setup.Spoils (s s' : Setup col) (meets : Prop) : Prop where
  keeps : s.Right → (s'.Right ↔ meets)
  back : s'.Right → s.Right

theorem spoils_of_congr {meets : Prop} (h : s'.Right ↔ s.Right) (hmeets : meets) :
    s.Spoils s' meets where
  keeps hs := iff_of_true (h.mpr hs) hmeets
  back := h.mp

/-! ### Agents -/

theorem Setup.Kept.spoils_agent (h : s.Kept cfg tbl) :
    s.Spoils (s.agent i ok) (s.Meets (.agent i ok)) := by
  have hcases : s.AgentStep i ok (s.agent i ok) := h.agent_cases
  generalize s.agent i ok = s' at hcases ⊢
  cases hcases with
  | quiet recorded p hgrows hp hmeets =>
      apply spoils_of_congr _ hmeets
      exact right_congr rfl rfl (fun stmt _ _ => by cases stmt <;> rfl) fun _ _ => Iff.rfl
  | create d hnone hrecorded hmeets =>
      have hempty (texts : TableTexts) (ht : s.texts = some texts)
          (hsome : texts.columns.isSome = true) : texts.columns = some [] := by
        obtain ⟨columns, hcolumns⟩ := Option.isSome_iff_exists.mp hsome
        rw [hcolumns, (h.grown texts columns ht hcolumns).1 hnone]
      constructor
      · intro hright
        rw [hmeets]
        constructor
        · intro hnew texts ht
          refine ⟨fun hk => hnew.idName texts d ht rfl hk, fun hk => ?_⟩
          have hcolumns := (hnew.columns texts ht hk).2 d rfl
          rw [hempty texts ht (hright.columns texts ht hk).1] at hcolumns
          exact (Option.some.inj hcolumns).symm
        · intro hexpects
          constructor
          · intro texts d' ht hd' hk
            cases hd'
            exact (hexpects texts ht).1 hk
          · intro texts ht hk
            have hsome := (hright.columns texts ht hk).1
            refine ⟨hsome, fun d' hd' => ?_⟩
            cases hd'
            rw [(hexpects texts ht).2 hk, hempty texts ht hsome]
          · exact hright.made
      · intro hnew
        constructor
        · intro texts d' _ hd'
          rw [hnone] at hd'
          cases hd'
        · intro texts ht hk
          refine ⟨(hnew.columns texts ht hk).1, fun d' hd' => ?_⟩
          rw [hnone] at hd'
          cases hd'
        · exact hnew.made
  | add d p properties hd hadmits hrecorded hmeets =>
      -- columns that were read are not those of the longer table
      have hlonger (texts : TableTexts) (ht : s.texts = some texts) (hid : texts.idName = d.idName)
          (hcolumns : texts.columns = some (d.add p).numbers) : False := by
        have hprefix := (h.grown texts _ ht hcolumns).2 d hd hid
        have hle := hprefix.length_le
        rw [SampleTable.numbers_add hadmits, List.length_append] at hle
        simp at hle
      have hread (hnew : Setup.Right ({ s with d := some (d.add p) }.setAgent i
          (.haveColumn properties))) (texts : TableTexts) (ht : s.texts = some texts) :
          s.point.stage < 7 := by
        by_contra hnot
        have hk : 7 ≤ s.point.stage := not_lt.mp hnot
        have hid : texts.idName = (d.add p).idName := hnew.idName texts _ ht rfl (by
          have hk' : 2 ≤ s.point.stage := by omega
          exact hk')
        rw [SampleTable.idName_add] at hid
        exact hlonger texts ht hid ((hnew.columns texts ht hk).2 _ rfl)
      constructor
      · intro hright
        rw [hmeets]
        constructor
        · intro hnew hsome
          obtain ⟨texts, ht⟩ := Option.isSome_iff_exists.mp hsome
          exact hread hnew texts ht
        · intro hlt
          constructor
          · intro texts d' ht hd' hk
            cases hd'
            rw [SampleTable.idName_add]
            exact hright.idName texts d ht hd hk
          · intro texts ht hk
            have hstage : 7 ≤ s.point.stage := hk
            have ht' : s.texts = some texts := ht
            have hbefore := hlt (by rw [ht']; rfl)
            omega
          · exact hright.made
      · intro hnew
        constructor
        · intro texts d' ht hd' hk
          rw [hd] at hd'
          cases hd'
          have hid : texts.idName = (d.add p).idName := hnew.idName texts _ ht rfl hk
          rwa [SampleTable.idName_add] at hid
        · intro texts ht hk
          have hlt := hread hnew texts ht
          omega
        · exact hnew.made

/-! ### The thread -/

/-- A step of the thread that reads nothing of what is right. -/
theorem spoils_within {p : PassPoint} {am ah ad al started clean : Bool} {meets : Prop}
    (hmeets : meets)
    (hstage : ∀ k, k = 2 ∨ (7 ≤ k ∧ k ≤ 10) → (k ≤ p.stage ↔ k ≤ s.point.stage)) :
    s.Spoils
      { s with
        point := p
        haveAm := am
        haveAh := ah
        haveAd := ad
        haveAl := al
        started := started
        clean := clean } meets :=
  spoils_of_congr (right_congr rfl rfl (fun stmt _ _ => by cases stmt <;> rfl) hstage) hmeets

/-- A step within the first stages. -/
theorem spoils_early {meets : Prop} (hs : s.texts.isSome = true → s.point.stage < 2)
    (hs' : s'.texts.isSome = true → s'.point.stage < 2) (hmeets : meets) : s.Spoils s' meets where
  keeps _ := iff_of_true (right_of_stage hs') hmeets
  back _ := right_of_stage hs

/-- The name of the id is read. -/
theorem spoils_idName (f : TableTexts → TableTexts) {meets : SampleTable col → Prop}
    {texts : TableTexts} (hstage : s.point.stage < 2) (ht : s.texts = some texts)
    (htexts : s'.texts = s.texts.map f) (hd : s'.d = s.d) (hpoint : s'.point = .haveAm)
    (hread : ∀ d, s.d = some d → ((f texts).idName = d.idName ↔ meets d)) :
    s.Spoils s' (∀ d, s.d = some d → meets d) where
  keeps _ := by
    have hstage' : s'.point.stage = 2 := by rw [hpoint]; rfl
    rw [ht, Option.map_some] at htexts
    constructor
    · intro h d hd'
      exact (hread d hd').mp (h.idName (f texts) d htexts (by rw [hd, hd']) (by omega))
    · intro h
      constructor
      · intro texts' d ht' hd' _
        rw [htexts] at ht'
        cases ht'
        rw [hd] at hd'
        exact (hread d hd').mpr (h d hd')
      · intro texts _ hk
        omega
      · intro stmt k hmem _ hk
        have hk' := creates_stage hmem
        omega
  back _ := right_of_stage fun _ => hstage

theorem idNameOf_eq_iff (found : Bool) (d : SampleTable col) :
    Setup.idNameOf found = d.idName ↔ (d.isService = true ↔ found = true) := by
  unfold Setup.idNameOf SampleTable.idName
  cases found <;> cases d.isService <;> simp

/-- The columns are read. -/
theorem Setup.Kept.spoils_columns (h : s.Kept cfg tbl) (hpoint : s.point = .columns) :
    s.Spoils (s.pass cfg tbl ok fp) (ok = true) := by
  have hstage : s.point.stage = 6 := by rw [hpoint]; rfl
  have hsome := h.loaded (by omega)
  unfold Setup.pass
  rw [hpoint]
  dsimp only
  cases ok with
  | false =>
      -- the columns of the texts stay unread
      have hwrong (hnew : Setup.Right { s.query false with point := .schedule }) : False := by
        obtain ⟨texts, ht⟩ := Option.isSome_iff_exists.mp hsome
        have hcolumns := (hnew.columns texts ht (by simp [PassPoint.stage])).1
        rw [h.unread (by omega) texts ht] at hcolumns
        cases hcolumns
      exact ⟨fun _ => ⟨fun hnew => (hwrong hnew).elim, fun hok => by cases hok⟩,
        fun hnew => (hwrong hnew).elim⟩
  | true =>
      rw [if_pos rfl]
      let f : TableTexts → TableTexts := fun texts =>
        { texts with columns := some (s.queryColumns texts.idName) }
      have htexts : Setup.texts { s.setTexts f with point := .createAm } = s.texts.map f :=
        texts_setTexts s f
      constructor
      · intro hright
        refine iff_of_true ?_ rfl
        constructor
        · intro texts d ht hd _
          rw [htexts] at ht
          obtain ⟨old, hold, rfl⟩ := Option.map_eq_some_iff.mp ht
          exact hright.idName old d hold hd (by omega)
        · intro texts ht _
          rw [htexts] at ht
          obtain ⟨old, hold, rfl⟩ := Option.map_eq_some_iff.mp ht
          refine ⟨rfl, fun d hd => ?_⟩
          have hd' : s.d = some d := hd
          have hid := hright.idName old d hold hd' (by omega)
          change some (s.queryColumns old.idName) = some d.numbers
          rw [Setup.queryColumns, hd', hid]
          rfl
        · intro stmt k hmem _ hk
          have hk' := creates_stage hmem
          simp only [PassPoint.stage] at hk
          omega
      · intro hnew
        constructor
        · intro texts d ht hd _
          exact hnew.idName (f texts) d (by rw [htexts, ht]; rfl) hd (by simp [PassPoint.stage])
        · intro texts _ hk
          omega
        · intro stmt k hmem _ hk
          have hk' := creates_stage hmem
          omega

/-- A create is sent, or its table is there. -/
theorem Setup.Kept.spoils_create (h : s.Kept cfg tbl) {haveIt : Bool} {stmt : AggregStmt}
    {p : PassPoint} (hmem : (stmt, p.stage) ∈ Setup.creates) (hfrom : s.point.stage + 1 = p.stage)
    (hhave : haveIt = true → (s.made stmt).isSome = true) :
    s.Spoils { s.create haveIt ok stmt with point := p }
      ((s.made stmt).isSome = true ∨ s.carries ok stmt = true) := by
  have hstmt : stmt = .createAm ∨ stmt = .createAh ∨ stmt = .createAd := by
    simp only [Setup.creates, List.mem_cons, Prod.mk.injEq, List.not_mem_nil, or_false] at hmem
    exact hmem.imp And.left (Or.imp And.left And.left)
  have hk := creates_stage hmem
  have hsome : s.texts.isSome = true := h.loaded (by omega)
  let s' : Setup col := { s.create haveIt ok stmt with point := p }
  have hd : s'.d = s.d := by simp [s']
  have htexts : s'.texts = s.texts := by simp [s', Setup.texts]
  have hmade : (s'.made stmt).isSome = true ↔
      (s.made stmt).isSome = true ∨ s.carries ok stmt = true := made_create hstmt hhave
  -- the other tables are what they were
  have hothers (stmt' : AggregStmt) (k : ℕ) (hmem' : (stmt', k) ∈ Setup.creates)
      (hlt : k ≤ s.point.stage) : s'.made stmt' = s.made stmt' := by
    have hne : stmt ≠ stmt' := by
      intro heq
      have hstage := (creates_unique hmem hmem').mp heq
      omega
    exact made_create_of_ne hne
  constructor
  · intro hright
    rw [← hmade]
    constructor
    · intro hnew
      exact hnew.made stmt p.stage hmem (htexts ▸ hsome) le_rfl
    · intro hmake
      constructor
      · rw [htexts, hd]
        exact fun texts d ht hd' _ => hright.idName texts d ht hd' (by omega)
      · rw [htexts, hd]
        exact fun texts ht _ => hright.columns texts ht (by omega)
      · intro stmt' k hmem' _ hle
        have hle' : k ≤ p.stage := hle
        by_cases hlt : k ≤ s.point.stage
        · rw [hothers stmt' k hmem' hlt]
          exact hright.made stmt' k hmem' hsome hlt
        · have heq : stmt = stmt' := (creates_unique hmem hmem').mpr (by omega)
          subst heq
          exact hmake
  · intro hnew
    constructor
    · intro texts d ht hd' _
      exact hnew.idName texts d (htexts ▸ ht) (hd ▸ hd') (by
        have hk' : 2 ≤ p.stage := by omega
        exact hk')
    · rw [← htexts, ← hd]
      exact fun texts ht _ => hnew.columns texts ht (by
        have hk' : 7 ≤ p.stage := by omega
        exact hk')
    · intro stmt' k hmem' _ hlt
      rw [← hothers stmt' k hmem' hlt]
      exact hnew.made stmt' k hmem' (htexts ▸ hsome) (by
        have hk' : k ≤ p.stage := by omega
        exact hk')

/-- The entry of a data type is made once. -/
theorem texts_of_unloaded {load : Bool} (h : (load && s.data.isNone) = true) : s.texts = none := by
  have hnone : s.data = none := Option.isNone_iff_eq_none.mp ((Bool.and_eq_true _ _).mp h).2
  rw [Setup.texts, hnone]
  rfl

theorem Setup.Kept.spoils_configs (hpoint : s.point = .configs) :
    s.Spoils (s.pass cfg tbl ok fp) True := by
  unfold Setup.pass
  rw [hpoint]
  dsimp only
  split
  · next hload =>
    have hnone : s.texts = none := texts_of_unloaded hload
    refine spoils_early (fun hsome => ?_) (fun _ => by simp [PassPoint.stage]) trivial
    rw [hnone] at hsome
    cases hsome
  · exact spoils_within trivial fun k _ => by rw [hpoint]; rfl

theorem Setup.Kept.spoils_haveData (h : s.Kept cfg tbl) (hpoint : s.point = .haveData) :
    s.Spoils (s.pass cfg tbl ok fp) (∀ d, s.d = some d → d.isService = true → ok = true) := by
  have hstage : s.point.stage = 0 := by rw [hpoint]; rfl
  obtain ⟨texts, ht⟩ := Option.isSome_iff_exists.mp (h.loaded (by omega))
  have hname := h.unnamed (by omega) texts ht
  unfold Setup.pass
  rw [hpoint]
  dsimp only
  split
  · next hfound =>
    have hok := ((Bool.and_eq_true _ _).mp hfound).1
    exact spoils_early (fun _ => by omega) (fun _ => by simp [PassPoint.stage]) fun _ _ _ => hok
  · next hnot =>
    have hread (d : SampleTable col) (hd : s.d = some d) :
        texts.idName = d.idName ↔ (d.isService = true → ok = true) := by
      have hfailed : ok ≠ true := fun hok => hnot (by simp [hok, hd])
      have hfalse : Setup.idNameOf false = texts.idName := hname.symm
      rw [← hfalse, idNameOf_eq_iff]
      simp [hfailed]
    exact spoils_idName id (by omega) ht (by rw [Option.map_id]; rfl) rfl rfl hread

theorem Setup.Kept.spoils_haveServId (h : s.Kept cfg tbl) (hpoint : s.point = .haveServId) :
    s.Spoils (s.pass cfg tbl ok fp) (∀ d, s.d = some d →
      (d.isService = true ↔ ok = true ∧ d.hasColumn "serv_id" = true)) := by
  have hstage : s.point.stage = 1 := by rw [hpoint]; rfl
  obtain ⟨texts, ht⟩ := Option.isSome_iff_exists.mp (h.loaded (by omega))
  let f : TableTexts → TableTexts := fun texts =>
    { texts with idName := Setup.idNameOf (ok && s.d.any fun d => d.hasColumn "serv_id") }
  have hread (d : SampleTable col) (hd : s.d = some d) :
      (f texts).idName = d.idName ↔
        (d.isService = true ↔ ok = true ∧ d.hasColumn "serv_id" = true) := by
    dsimp only [f]
    rw [idNameOf_eq_iff, hd, Option.any_some, Bool.and_eq_true]
  unfold Setup.pass
  rw [hpoint]
  exact spoils_idName f (by omega) ht (texts_setTexts _ f) rfl rfl hread

/-- A job makes no table. -/
theorem made_send_job {job stmt : AggregStmt} {k : ℕ} (hjob : job.IsJob)
    (hmem : (stmt, k) ∈ Setup.creates) : (s.send ok job).made stmt = s.made stmt := by
  obtain ⟨ham, hah, had⟩ := hjob
  apply made_send_of_ne
  rintro rfl
  simp only [Setup.creates, List.mem_cons, Prod.mk.injEq, List.not_mem_nil, or_false] at hmem
  rcases hmem with ⟨heq, -⟩ | ⟨heq, -⟩ | ⟨heq, -⟩
  · exact ham heq
  · exact hah heq
  · exact had heq

/-- The create of `al$` makes none of the tables either. -/
theorem made_createAl {haveIt : Bool} {stmt : AggregStmt} {k : ℕ} (hmem : (stmt, k) ∈ Setup.creates) :
    (s.create haveIt ok .createAl).made stmt = s.made stmt := by
  apply made_create_of_ne
  rintro rfl
  simp [Setup.creates] at hmem

theorem Setup.Kept.spoils_jobs (h : s.Kept cfg tbl) {rest : List AggregStmt}
    (hpoint : s.point = .jobs rest) : s.Spoils (s.pass cfg tbl ok fp) True := by
  unfold Setup.pass
  rw [hpoint]
  cases rest with
  | nil => exact spoils_within trivial fun k _ => by rw [hpoint]; rfl
  | cons stmt rest =>
      apply spoils_of_congr _ trivial
      apply right_congr
      · simp
      · simp [Setup.texts]
      · intro stmt' k hmem
        exact made_send_job (h.jobs _ hpoint stmt List.mem_cons_self) hmem
      · intro k _
        rw [hpoint]
        rfl

/-- What the thread does for the set-up. -/
theorem Setup.Kept.spoils_pass (h : s.Kept cfg tbl) :
    s.Spoils (s.pass cfg tbl ok fp) (s.Meets (.pass ok fp)) := by
  unfold Setup.Meets
  cases hpoint : s.point with
  | configs => exact spoils_configs hpoint
  | haveData => exact h.spoils_haveData hpoint
  | haveServId => exact h.spoils_haveServId hpoint
  | columns => exact h.spoils_columns hpoint
  | jobs rest => exact h.spoils_jobs hpoint
  | idle =>
      unfold Setup.pass
      rw [hpoint]
      exact spoils_within trivial fun k _ => by rw [hpoint]; rfl
  | haveAm | haveAh | haveAd | haveAl =>
      unfold Setup.pass
      rw [hpoint]
      apply spoils_within trivial
      intro k hk
      simp only [hpoint, PassPoint.stage]
      omega
  | createAm =>
      unfold Setup.pass
      rw [hpoint]
      exact h.spoils_create (by decide) (by rw [hpoint]; rfl) h.haveAm
  | createAh =>
      unfold Setup.pass
      rw [hpoint]
      exact h.spoils_create (by decide) (by rw [hpoint]; rfl) h.haveAh
  | createAd =>
      unfold Setup.pass
      rw [hpoint]
      exact h.spoils_create (by decide) (by rw [hpoint]; rfl) h.haveAd
  | createAl =>
      unfold Setup.pass
      rw [hpoint]
      apply spoils_of_congr _ trivial
      apply right_congr
      · simp
      · simp [Setup.texts]
      · exact fun stmt k hmem => made_createAl hmem
      · intro k hk
        simp only [hpoint, PassPoint.stage]
        omega
  | schedule =>
      unfold Setup.pass
      rw [hpoint]
      dsimp only
      split
      · exact spoils_within trivial fun k _ => by rw [hpoint]; rfl
      · next data hdata =>
        apply spoils_of_congr _ trivial
        apply right_congr
        · rfl
        · rw [Setup.texts, Setup.texts, hdata]
          rfl
        · intro stmt k hmem
          cases stmt <;> rfl
        · intro k _
          rw [hpoint]
          rfl

end right

/-! ### Runs -/

section runs

variable {cfg : AggregData} {tbl : String} {s : Setup col} {x : SetupMove}

theorem kept_start (found : Found col) : (Setup.start found).Kept cfg tbl where
  announced := found.announced
  recorded i hi := hi.elim
  started h := by cases h
  loaded h := by simp [Setup.start, PassPoint.stage] at h
  found _ h := by cases h
  serv h := by cases h
  unnamed _ texts ht := by cases ht
  unread _ texts ht := by cases ht
  haveAm h := by cases h
  haveAh h := by cases h
  haveAd h := by cases h
  grown texts columns ht := by cases ht
  jobs rest h := by cases h
  texts texts ht := by cases ht

theorem Setup.Kept.move (h : s.Kept cfg tbl) : (s.move cfg tbl x).Kept cfg tbl := by
  cases x with
  | updateApi i definition =>
      unfold Setup.move
      dsimp only
      split
      · exact h.setAgent False.elim
      · exact h
  | agent i ok => exact h.agent
  | pass ok fp => exact h.pass

theorem Setup.Kept.spoils_move (h : s.Kept cfg tbl) : s.Spoils (s.move cfg tbl x) (s.Meets x) := by
  cases x with
  | updateApi i definition =>
      unfold Setup.move
      dsimp only
      apply spoils_of_congr _ trivial
      split
      · exact right_congr rfl rfl (fun stmt _ _ => by cases stmt <;> rfl) fun _ _ => Iff.rfl
      · exact Iff.rfl
  | agent i ok => exact h.spoils_agent
  | pass ok fp => exact h.spoils_pass

/-- At the end of a pass the data type is set up exactly if all is right. -/
theorem Setup.Kept.setUp_iff (h : s.Kept cfg tbl) (hfin : s.Finishes x) :
    (s.move cfg tbl x).SetUp cfg tbl ↔ s.Right := by
  cases x with
  | updateApi i definition => exact hfin.elim
  | agent i ok => exact hfin.elim
  | pass ok fp =>
      obtain ⟨hpoint, hstarted, hclean⟩ := hfin
      obtain ⟨d, hd⟩ := Option.isSome_iff_exists.mp (h.started hstarted)
      obtain ⟨texts, ht⟩ := Option.isSome_iff_exists.mp (h.found hclean hstarted (by simp [hpoint]))
      obtain ⟨htbl, hcfg⟩ := h.texts texts ht
      have hstage : s.point.stage = 11 := by rw [hpoint]; rfl
      have hmove : s.move cfg tbl (.pass ok fp) = { s with point := .idle } := by
        unfold Setup.move Setup.pass
        rw [hpoint]
      rw [hmove]
      constructor
      · intro hset
        obtain ⟨d', hd', ht'⟩ := hset.texts
        have hd'' : s.d = some d' := hd'
        have ht'' : s.texts = some ⟨tbl, d'.idName, some d'.numbers, cfg⟩ := ht'
        constructor
        · intro texts' d'' htexts hsome _
          rw [ht''] at htexts
          rw [hd''] at hsome
          cases htexts
          cases hsome
          rfl
        · intro texts' htexts _
          rw [ht''] at htexts
          cases htexts
          refine ⟨rfl, fun d'' hsome => ?_⟩
          rw [hd''] at hsome
          cases hsome
          rfl
        · intro stmt k hmem _ _
          simp only [Setup.creates, List.mem_cons, Prod.mk.injEq, List.not_mem_nil, or_false] at hmem
          rcases hmem with ⟨rfl, -⟩ | ⟨rfl, -⟩ | ⟨rfl, -⟩
          · exact hset.am
          · exact hset.ah
          · exact hset.ad
      · intro hright
        have hsome : s.texts.isSome = true := by rw [ht]; rfl
        constructor
        · exact hright.made .createAm 8 (by decide) hsome (by omega)
        · exact hright.made .createAh 9 (by decide) hsome (by omega)
        · exact hright.made .createAd 10 (by decide) hsome (by omega)
        · refine ⟨d, hd, ?_⟩
          have hid := hright.idName texts d ht hd (by omega)
          have hcolumns := (hright.columns texts ht (by omega)).2 d hd
          have htexts : texts = ⟨tbl, d.idName, some d.numbers, cfg⟩ := by
            rw [← hid, ← hcolumns, ← htbl, ← hcfg]
          rw [← htexts]
          exact ht

/-- The data type is set up whenever a pass ends that has begun once `d$` existed, and whose
statements have all succeeded, exactly if every step before the end of such a pass meets its
condition. -/
theorem set_up_iff (cfg : AggregData) (tbl : String) (found : Found col) (moves : List SetupMove) :
    EachStep (Setup.move cfg tbl) (fun s x => s.Finishes x → (s.move cfg tbl x).SetUp cfg tbl)
        (.start found) moves ↔
      ∀ before x after, moves = before ++ x :: after →
        (before.foldl (Setup.move cfg tbl) (.start found)).Finishes x →
          EachStep (Setup.move cfg tbl) Setup.Meets (.start found) before := by
  have hkept (before : List SetupMove) :
      (before.foldl (Setup.move cfg tbl) (.start found)).Kept cfg tbl :=
    foldl_invariant (fun _ _ _ h => Setup.Kept.move h) (kept_start found)
  have hright (before : List SetupMove) :
      (before.foldl (Setup.move cfg tbl) (.start found)).Right ↔
        EachStep (Setup.move cfg tbl) Setup.Meets (.start found) before :=
    foldl_iff_eachStep (Setup.Kept cfg tbl) (fun _ _ h => h.move)
      (fun _ _ h => h.spoils_move.keeps) (fun _ _ h => h.spoils_move.back) (kept_start found)
      (right_of_stage fun h => by cases h)
  constructor
  · intro h before x after heq hfin
    exact (hright before).mp (((hkept before).setUp_iff hfin).mp (h before x after heq hfin))
  · intro h before x after heq hfin
    exact ((hkept before).setUp_iff hfin).mpr ((hright before).mpr (h before x after heq hfin))

end runs

/-! ### A pass between the list and the table -/

/-- Nothing is known of the data type yet. -/
def unknownType : Found Collation.binary := ⟨false, none, none, none, none, false, by simp⟩

/-- The disk of a host. -/
def diskProperties : Definition := ⟨false, [⟨"pctfree", .number⟩]⟩

/-- Aggregates of ten minutes, two hours and two days, kept for ever. -/
def keptForEver : AggregData := ⟨10, 2, 2, 0, 0, 0, 0⟩

/-- The agent has recorded the data type, but not made its table, when a pass loads it. The next pass
begins once the table is there, and has nothing to do. -/
def earlyPass : List SetupMove :=
  [.updateApi 0 diskProperties, .agent 0 true] ++ List.replicate 17 (.pass true 1000) ++
    [.agent 0 true, .agent 0 true] ++ List.replicate 3 (.pass true 2000)

/-- All statements of that pass succeed, and the tables are still missing. -/
theorem early_pass_never_set_up :
    ¬ EachStep (Setup.move keptForEver "disk_usage") (fun s x => s.Finishes x →
        (s.move keptForEver "disk_usage" x).SetUp keptForEver "disk_usage")
      (.start unknownType) (earlyPass ++ [.pass true 2000]) := by
  intro h
  have hset := h earlyPass (.pass true 2000) [] rfl ⟨by decide +kernel, by decide +kernel,
    by decide +kernel⟩
  have hmissing : (Setup.move keptForEver "disk_usage" (earlyPass.foldl
      (Setup.move keptForEver "disk_usage") (.start unknownType)) (.pass true 2000)).am = none := by
    decide +kernel
  have ham := hset.am
  rw [hmissing] at ham
  cases ham

end WatchedBack
