import WatchedBack.Model.Setup

/-! # Steps of a set-up

What a statement of the thread and one of an agent can do, and what every run keeps. -/

namespace WatchedBack

variable {col : Collation}

/-! ### The data table -/

namespace SampleTable

variable {d : SampleTable col} {p : Property}

/-- No column of the table has the name of the property. -/
def Admits (d : SampleTable col) (p : Property) : Prop :=
  Distinct col (dataColumns d.isService (d.properties ++ [p]))

theorem add_of_not_admits (h : ¬ d.Admits p) : d.add p = d := dif_neg h

theorem columns_add (h : d.Admits p) : (d.add p).columns = d.columns ++ [p.column] := by
  have hadd : d.add p = ⟨d.isService, d.properties ++ [p], h⟩ := dif_pos h
  rw [hadd]
  simp [columns, dataColumns]

theorem idName_add (d : SampleTable col) (p : Property) : (d.add p).idName = d.idName := by
  unfold add
  split <;> rfl

/-- A new column is a number, and not an id or the timestamp. -/
theorem numbers_add (h : d.Admits p) : (d.add p).numbers = d.numbers ++ [p.name] := by
  have hnew : ∀ c ∈ d.columns, col.same c.name p.name = false := by
    have hpairwise : (d.columns ++ [p.column]).Pairwise fun a b => col.same a.name b.name = false := by
      rw [← columns_add h]
      exact (d.add p).distinct
    intro c hc
    exact (List.pairwise_append.mp hpairwise).2.2 c hc p.column (List.mem_singleton_self _)
  have hother (name : String) (hname : ∃ c ∈ d.columns, c.name = name) :
      col.same p.name name = false := by
    obtain ⟨c, hc, rfl⟩ := hname
    by_contra hsame
    rw [Bool.not_eq_false] at hsame
    have hnot := hnew c hc
    rw [col.symm hsame] at hnot
    cases hnot
  have hid : col.same p.name d.idName = false := by
    apply hother
    exact ⟨_, List.mem_cons_self, rfl⟩
  have hres : col.same p.name "res_id" = false := by
    apply hother
    exact ⟨_, List.mem_cons_of_mem _ List.mem_cons_self, rfl⟩
  have hts : col.same p.name "timestamp" = false := by
    apply hother
    exact ⟨_, List.mem_cons_of_mem _ (List.mem_cons_of_mem _ List.mem_cons_self), rfl⟩
  have hnumber : p.column.isNumber = true := by
    cases htype : p.type <;> simp [Property.column, DataColumn.isNumber, htype]
  unfold numbers selectColumns
  rw [columns_add h, idName_add, List.filter_append, List.map_append]
  congr 1
  have hname : p.column.name = p.name := rfl
  rw [List.filter_cons_of_pos]
  · rfl
  · simp [hnumber, hname, hid, hres, hts]

end SampleTable

/-! ### What a pass leads to -/

/-- How far the set-up has come; it is over outside of it. -/
def PassPoint.stage : PassPoint → ℕ
  | .haveData => 0
  | .haveServId => 1
  | .haveAm => 2
  | .haveAh => 3
  | .haveAd => 4
  | .haveAl => 5
  | .columns => 6
  | .createAm => 7
  | .createAh => 8
  | .createAd => 9
  | .createAl => 10
  | _ => 11

namespace Setup

variable (s : Setup col)

/-- The texts of the data type, once it was seen. -/
def texts : Option TableTexts := s.data.map LoadedData.texts

/-- The tables exist, and the texts are those of the id and the numbers of `d$`. -/
structure SetUp (cfg : AggregData) (tbl : String) : Prop where
  am : s.am.isSome = true
  ah : s.ah.isSome = true
  ad : s.ad.isSome = true
  texts : ∃ d, s.d = some d ∧ s.texts = some ⟨tbl, d.idName, some d.numbers, cfg⟩

/-- A pass ends that has begun once `d$` existed, and whose statements have all succeeded. -/
def Finishes (s : Setup col) : SetupMove → Prop
  | .pass _ _ => s.point = .jobs [] ∧ s.started = true ∧ s.clean = true
  | _ => False

/-- Whether a create is carried out. -/
def carries (ok : Bool) (stmt : AggregStmt) : Bool :=
  ok && s.texts.any fun texts => s.accepts texts stmt

/-- The thread has read the name of the id before `d$` was made, or the columns. -/
def Expects (d : SampleTable col) : Prop :=
  ∀ texts, s.texts = some texts → (2 ≤ s.point.stage → texts.idName = d.idName) ∧
    (7 ≤ s.point.stage → d.numbers = [])

/-- What each step must do for the set-up. -/
def Meets (s : Setup col) : SetupMove → Prop
  | .updateApi _ _ => True
  | .agent i ok =>
      match s.agents i with
      | .createTable definition => ok = true → s.d = none → ∀ d : SampleTable col,
          SampleTable.create definition = some d → s.Expects d
      | .addColumn p _ => ok = true → ∀ d, s.d = some d → d.Admits p → s.texts.isSome = true →
          s.point.stage < 7
      | _ => True
  | .pass ok _ =>
      match s.point with
      | .haveData => ∀ d, s.d = some d → d.isService = true → ok = true
      | .haveServId => ∀ d, s.d = some d →
          (d.isService = true ↔ ok = true ∧ d.hasColumn "serv_id" = true)
      | .columns => ok = true
      | .createAm => s.am.isSome = true ∨ s.carries ok .createAm = true
      | .createAh => s.ah.isSome = true ∨ s.carries ok .createAh = true
      | .createAd => s.ad.isSome = true ∨ s.carries ok .createAd = true
      | _ => True

/-- The table that a create makes. -/
def made (s : Setup col) : AggregStmt → Option AggregTable
  | .createAm => s.am
  | .createAh => s.ah
  | .createAd => s.ad
  | _ => none

/-- The creates of the tables, each with the stage behind it. -/
def creates : List (AggregStmt × ℕ) := [(.createAm, 8), (.createAh, 9), (.createAd, 10)]

/-- What was read and made so far is right. -/
structure Right : Prop where
  idName : ∀ texts d, s.texts = some texts → s.d = some d → 2 ≤ s.point.stage →
    texts.idName = d.idName
  columns : ∀ texts, s.texts = some texts → 7 ≤ s.point.stage →
    texts.columns.isSome = true ∧ ∀ d, s.d = some d → texts.columns = some d.numbers
  made : ∀ stmt k, (stmt, k) ∈ creates → s.texts.isSome = true → k ≤ s.point.stage →
    (s.made stmt).isSome = true

end Setup

/-- The data type was recorded in this update. -/
def UpdatePoint.Recorded : UpdatePoint → Prop
  | .idle => False
  | .record _ => False
  | _ => True

/-- Creates no table. -/
def AggregStmt.IsJob (stmt : AggregStmt) : Prop :=
  stmt ≠ .createAm ∧ stmt ≠ .createAh ∧ stmt ≠ .createAd

/-- What holds in every state of a run. -/
structure Setup.Kept (cfg : AggregData) (tbl : String) (s : Setup col) : Prop where
  announced : s.d.isSome = true → s.recorded = true
  recorded : ∀ i, (s.agents i).Recorded → s.recorded = true
  started : s.started = true → s.d.isSome = true
  loaded : s.point.stage < 11 → s.texts.isSome = true
  found : s.clean = true → s.started = true → s.point ≠ .configs → s.texts.isSome = true
  serv : s.point = .haveServId → s.d.isSome = true
  unnamed : s.point.stage < 2 → ∀ texts, s.texts = some texts → texts.idName = "host_id"
  unread : s.point.stage < 7 → ∀ texts, s.texts = some texts → texts.columns = none
  haveAm : s.haveAm = true → (s.made .createAm).isSome = true
  haveAh : s.haveAh = true → (s.made .createAh).isSome = true
  haveAd : s.haveAd = true → (s.made .createAd).isSome = true
  grown : ∀ texts columns, s.texts = some texts → texts.columns = some columns →
    (s.d = none → columns = []) ∧
      ∀ d, s.d = some d → texts.idName = d.idName → columns <+: d.numbers
  jobs : ∀ rest, s.point = .jobs rest → ∀ stmt ∈ rest, stmt.IsJob
  texts : ∀ texts, s.texts = some texts → texts.tbl = tbl ∧ texts.cfg = cfg

/-! ### Statements -/

section statements

variable {s : Setup col} {ok : Bool} {stmt : AggregStmt}

/-- A statement changes the aggregated tables only. -/
@[simp] theorem send_frame (s : Setup col) (ok : Bool) (stmt : AggregStmt) :
    (s.send ok stmt).recorded = s.recorded ∧ (s.send ok stmt).d = s.d ∧
      (s.send ok stmt).agents = s.agents ∧ (s.send ok stmt).data = s.data ∧
      (s.send ok stmt).point = s.point ∧ (s.send ok stmt).haveAm = s.haveAm ∧
      (s.send ok stmt).haveAh = s.haveAh ∧ (s.send ok stmt).haveAd = s.haveAd ∧
      (s.send ok stmt).haveAl = s.haveAl ∧ (s.send ok stmt).started = s.started := by
  unfold Setup.send
  cases hdata : s.data with
  | none => simp
  | some data =>
      dsimp only
      split
      · cases stmt <;> simp [Setup.exec, hdata]
      · simp

theorem clean_of_send (h : (s.send ok stmt).clean = true) : s.clean = true := by
  unfold Setup.send at h
  cases hdata : s.data with
  | none => simp [hdata] at h
  | some data =>
      rw [hdata] at h
      dsimp only at h
      split at h
      · cases stmt <;> exact h
      · cases h

theorem made_send_of_ne {stmt' : AggregStmt} (h : stmt' ≠ stmt) :
    (s.send ok stmt').made stmt = s.made stmt := by
  unfold Setup.send
  cases hdata : s.data with
  | none => cases stmt <;> rfl
  | some data =>
      dsimp only
      split
      · cases stmt <;> cases stmt' <;> first | rfl | exact absurd rfl h
      · cases stmt <;> rfl

/-- After a create the table exists, if it did before or the create is carried out. -/
theorem made_send (h : stmt = .createAm ∨ stmt = .createAh ∨ stmt = .createAd) :
    ((s.send ok stmt).made stmt).isSome = true ↔
      (s.made stmt).isSome = true ∨ s.carries ok stmt = true := by
  unfold Setup.send Setup.carries Setup.texts
  cases hdata : s.data with
  | none => rcases h with rfl | rfl | rfl <;> simp [Setup.made]
  | some data =>
      dsimp only [Option.any_some, Option.map_some]
      split
      · next hok => rcases h with rfl | rfl | rfl <;> simp [Setup.made, Setup.exec, hok]
      · next hok => rcases h with rfl | rfl | rfl <;> simp [Setup.made, hok]

theorem made_send_mono {stmt' : AggregStmt} (h : (s.made stmt).isSome = true) :
    ((s.send ok stmt').made stmt).isSome = true := by
  by_cases heq : stmt' = stmt
  · subst heq
    apply (made_send ?_).mpr (Or.inl h)
    cases stmt' <;> simp [Setup.made] at h ⊢
  · rw [made_send_of_ne heq]
    exact h

theorem made_create_mono {haveIt : Bool} {stmt' : AggregStmt} (h : (s.made stmt).isSome = true) :
    ((s.create haveIt ok stmt').made stmt).isSome = true := by
  unfold Setup.create
  split
  · exact h
  · exact made_send_mono h

theorem made_create_of_ne {haveIt : Bool} {stmt' : AggregStmt} (h : stmt' ≠ stmt) :
    (s.create haveIt ok stmt').made stmt = s.made stmt := by
  unfold Setup.create
  split
  · rfl
  · exact made_send_of_ne h

theorem made_create {haveIt : Bool} (h : stmt = .createAm ∨ stmt = .createAh ∨ stmt = .createAd)
    (hhave : haveIt = true → (s.made stmt).isSome = true) :
    ((s.create haveIt ok stmt).made stmt).isSome = true ↔
      (s.made stmt).isSome = true ∨ s.carries ok stmt = true := by
  unfold Setup.create
  split
  · next hit => simp [hhave hit]
  · exact made_send h

@[simp] theorem create_frame (s : Setup col) (haveIt ok : Bool) (stmt : AggregStmt) :
    (s.create haveIt ok stmt).recorded = s.recorded ∧ (s.create haveIt ok stmt).d = s.d ∧
      (s.create haveIt ok stmt).agents = s.agents ∧ (s.create haveIt ok stmt).data = s.data ∧
      (s.create haveIt ok stmt).point = s.point ∧ (s.create haveIt ok stmt).haveAm = s.haveAm ∧
      (s.create haveIt ok stmt).haveAh = s.haveAh ∧ (s.create haveIt ok stmt).haveAd = s.haveAd ∧
      (s.create haveIt ok stmt).haveAl = s.haveAl ∧
      (s.create haveIt ok stmt).started = s.started := by
  unfold Setup.create
  split
  · simp
  · exact send_frame s ok stmt

theorem clean_of_create {haveIt : Bool} (h : (s.create haveIt ok stmt).clean = true) :
    s.clean = true := by
  unfold Setup.create at h
  split at h
  · exact h
  · exact clean_of_send h

end statements

/-! ### Steps of the thread -/

section pass

variable {cfg : AggregData} {tbl : String} {s s' : Setup col} {ok : Bool} {fp : ℚ}

/-- The thread goes on to a point, and writes neither texts nor tables. -/
theorem Setup.Kept.next (h : s.Kept cfg tbl)
    (hframe : s'.recorded = s.recorded ∧ s'.d = s.d ∧ s'.agents = s.agents ∧ s'.texts = s.texts)
    (hstarted : s'.started = s.started) (hclean : s'.clean = true → s.clean = true)
    (hmade : (s'.haveAm = true → (s'.made .createAm).isSome = true) ∧
      (s'.haveAh = true → (s'.made .createAh).isSome = true) ∧
      (s'.haveAd = true → (s'.made .createAd).isSome = true))
    (hfrom : s.point ≠ .configs) (hloaded : s'.point.stage < 11 → s.point.stage < 11)
    (hunnamed : s'.point.stage < 2 → s.point.stage < 2)
    (hunread : s'.point.stage < 7 → s.point.stage < 7)
    (hserv : s'.point = .haveServId → s.d.isSome = true)
    (hjobs : ∀ rest, s'.point = .jobs rest → ∀ stmt ∈ rest, stmt.IsJob) : s'.Kept cfg tbl := by
  obtain ⟨hrecorded, hd, hagents, htexts⟩ := hframe
  constructor
  case announced => rw [hd, hrecorded]; exact h.announced
  case recorded => rw [hagents, hrecorded]; exact h.recorded
  case started => rw [hstarted, hd]; exact h.started
  case loaded => rw [htexts]; exact fun hs => h.loaded (hloaded hs)
  case found => rw [hstarted, htexts]; exact fun hc hst _ => h.found (hclean hc) hst hfrom
  case serv => rw [hd]; exact hserv
  case unnamed => rw [htexts]; exact fun hs => h.unnamed (hunnamed hs)
  case unread => rw [htexts]; exact fun hs => h.unread (hunread hs)
  case haveAm => exact hmade.1
  case haveAh => exact hmade.2.1
  case haveAd => exact hmade.2.2
  case grown => rw [htexts, hd]; exact h.grown
  case jobs => exact hjobs
  case texts => rw [htexts]; exact h.texts

/-- The jobs of a pass create no table. -/
theorem isJob_of_mem_jobs {next : Schedule} {stmt : AggregStmt}
    (h : stmt ∈ AggregState.lowJobs cfg fp next ++ AggregState.medJobs cfg fp next ++
      AggregState.highJobs cfg fp next) : stmt.IsJob := by
  have hmem : stmt ∈ [.baseAm, .purgeD, .baseAh, .purgeAm, .baseAd, .purgeAh, .purgeAd] := by
    unfold AggregState.lowJobs AggregState.medJobs AggregState.highJobs at h
    split at h <;> split at h <;> split at h <;> simp at h ⊢ <;> grind
  fin_cases hmem <;> simp [AggregStmt.IsJob]

theorem texts_setTexts (s : Setup col) (f : TableTexts → TableTexts) :
    (s.setTexts f).texts = s.texts.map f := by
  simp [Setup.texts, Setup.setTexts, Function.comp_def]

theorem clean_query (h : (s.query ok).clean = true) : s.clean = true ∧ ok = true :=
  (Bool.and_eq_true _ _).mp h

theorem Setup.Kept.configs (h : s.Kept cfg tbl) (hpoint : s.point = .configs) :
    (s.pass cfg tbl ok fp).Kept cfg tbl := by
  unfold Setup.pass
  rw [hpoint]
  dsimp only
  split
  · next hload =>
    exact { h with
      loaded := fun _ => rfl
      found := fun _ _ _ => rfl
      serv := fun hserv => by cases hserv
      unnamed := by
        intro _ texts ht
        cases ht
        rfl
      unread := by
        intro _ texts ht
        cases ht
        rfl
      grown := by
        intro texts columns ht hcolumns
        cases ht
        cases hcolumns
      jobs := fun rest hrest => by cases hrest
      texts := by
        intro texts ht
        cases ht
        exact ⟨rfl, rfl⟩ }
  · next hskip =>
    have hfound (hclean : (s.query ok).clean = true) (hstarted : s.started = true) :
        s.texts.isSome = true := by
      have hok := (clean_query hclean).2
      have hrecorded := h.announced (h.started hstarted)
      simpa [hok, hrecorded, Setup.query, Setup.texts, Option.ne_none_iff_isSome] using hskip
    exact { h with
      loaded := fun hstage => absurd hstage (by simp [PassPoint.stage])
      found := fun hclean hstarted _ => hfound hclean hstarted
      serv := fun hserv => by cases hserv
      unnamed := fun hlt => absurd hlt (by simp [PassPoint.stage])
      unread := fun hlt => absurd hlt (by simp [PassPoint.stage])
      jobs := fun rest hrest => by cases hrest }

theorem Setup.Kept.create (h : s.Kept cfg tbl) {haveIt : Bool} {stmt : AggregStmt} {p : PassPoint}
    (hfrom : 7 ≤ s.point.stage ∧ s.point.stage < 11) (hto : 7 ≤ p.stage)
    (hjobs : ∀ rest, p ≠ .jobs rest) :
    Setup.Kept cfg tbl { s.create haveIt ok stmt with point := p } := by
  apply h.next
  case hframe => simp [Setup.texts]
  case hstarted => simp
  case hclean => exact clean_of_create
  case hmade => exact ⟨fun hc => made_create_mono (h.haveAm (by simpa using hc)),
    fun hc => made_create_mono (h.haveAh (by simpa using hc)),
    fun hc => made_create_mono (h.haveAd (by simpa using hc))⟩
  case hfrom =>
    intro hconfigs
    rw [hconfigs] at hfrom
    simp [PassPoint.stage] at hfrom
  case hloaded => exact fun _ => hfrom.2
  case hunnamed =>
    intro hlt
    have hstage : p.stage < 2 := hlt
    omega
  case hunread =>
    intro hlt
    have hstage : p.stage < 7 := hlt
    omega
  case hserv =>
    intro hserv
    have hp : p = .haveServId := hserv
    rw [hp] at hto
    simp [PassPoint.stage] at hto
  case hjobs => exact fun rest hrest => absurd hrest (hjobs rest)

/-- The thread gets an answer of `haveTable`. -/
theorem Setup.Kept.have (h : s.Kept cfg tbl) {am ah ad al : Bool} {p : PassPoint}
    (hfrom : s.point.stage < 7) (hto : p.stage < 11) (hon : p.stage < 2 → s.point.stage < 2)
    (hserv : p = .haveServId → s.d.isSome = true)
    (hmade : (am = true → (s.made .createAm).isSome = true) ∧
      (ah = true → (s.made .createAh).isSome = true) ∧
      (ad = true → (s.made .createAd).isSome = true)) :
    Setup.Kept cfg tbl
      { s.query ok with haveAm := am, haveAh := ah, haveAd := ad, haveAl := al, point := p } := by
  apply h.next
  case hframe => exact ⟨rfl, rfl, rfl, rfl⟩
  case hstarted => rfl
  case hclean => exact fun hc => (clean_query hc).1
  case hmade => exact hmade
  case hfrom =>
    intro hconfigs
    rw [hconfigs] at hfrom
    simp [PassPoint.stage] at hfrom
  case hloaded => exact fun _ => by omega
  case hunnamed => exact hon
  case hunread => exact fun _ => hfrom
  case hserv => exact hserv
  case hjobs =>
    intro rest hrest
    have hp : p = .jobs rest := hrest
    rw [hp] at hto
    simp [PassPoint.stage] at hto

/-- The thread writes to the texts that it is making. -/
theorem Setup.Kept.setTexts (h : s.Kept cfg tbl) (f : TableTexts → TableTexts) {p : PassPoint}
    {clean : Bool} (hfrom : s.point.stage < 7) (hto : 2 ≤ p.stage ∧ p.stage < 11)
    (hf : ∀ texts, (f texts).tbl = texts.tbl ∧ (f texts).cfg = texts.cfg)
    (hunread : p.stage < 7 → ∀ texts, texts.columns = none → (f texts).columns = none)
    (hgrown : ∀ texts columns, s.texts = some texts → (f texts).columns = some columns →
      (s.d = none → columns = []) ∧
        ∀ d, s.d = some d → (f texts).idName = d.idName → columns <+: d.numbers) :
    Setup.Kept cfg tbl { s.setTexts f with point := p, clean := clean } := by
  have hwritten (texts : TableTexts) (ht : (s.setTexts f).texts = some texts) :
      ∃ old, s.texts = some old ∧ f old = texts := by
    rw [texts_setTexts] at ht
    exact Option.map_eq_some_iff.mp ht
  have hsome : (s.setTexts f).texts.isSome = true := by
    rw [texts_setTexts, Option.isSome_map]
    exact h.loaded (by omega)
  exact { h with
    loaded := fun _ => hsome
    found := fun _ _ _ => hsome
    serv := by
      intro hserv
      have hp : p = .haveServId := hserv
      rw [hp] at hto
      simp [PassPoint.stage] at hto
    unnamed := by
      intro hlt
      have hstage : p.stage < 2 := hlt
      omega
    unread := by
      intro hstage texts ht
      obtain ⟨old, hold, rfl⟩ := hwritten texts ht
      exact hunread hstage old (h.unread hfrom old hold)
    grown := by
      intro texts columns ht hcolumns
      obtain ⟨old, hold, rfl⟩ := hwritten texts ht
      exact hgrown old columns hold hcolumns
    jobs := by
      intro rest hrest
      have hp : p = .jobs rest := hrest
      rw [hp] at hto
      simp [PassPoint.stage] at hto
    texts := by
      intro texts ht
      obtain ⟨old, hold, rfl⟩ := hwritten texts ht
      rw [(hf old).1, (hf old).2]
      exact h.texts old hold }

theorem Setup.Kept.haveServId (h : s.Kept cfg tbl) (hpoint : s.point = .haveServId) :
    (s.pass cfg tbl ok fp).Kept cfg tbl := by
  have hstage : s.point.stage = 1 := by rw [hpoint]; rfl
  have hread (texts : TableTexts) (columns : List String) (ht : s.texts = some texts)
      (hcolumns : texts.columns = some columns) : False := by
    rw [h.unread (by omega) texts ht] at hcolumns
    cases hcolumns
  unfold Setup.pass
  rw [hpoint]
  exact h.setTexts
    (fun texts => { texts with
      idName := idNameOf (ok && s.d.any fun d => d.hasColumn "serv_id") })
    (by omega) (by simp [PassPoint.stage]) (fun _ => ⟨rfl, rfl⟩) (fun _ _ hnone => hnone)
    fun texts columns ht hcolumns => (hread texts columns ht hcolumns).elim

theorem Setup.Kept.columns (h : s.Kept cfg tbl) (hpoint : s.point = .columns) :
    (s.pass cfg tbl ok fp).Kept cfg tbl := by
  have hstage : s.point.stage = 6 := by rw [hpoint]; rfl
  unfold Setup.pass
  rw [hpoint]
  dsimp only
  split
  · have hread (texts : TableTexts) (columns : List String)
        (hcolumns : some (s.queryColumns texts.idName) = some columns) :
        (s.d = none → columns = []) ∧
          ∀ d, s.d = some d → texts.idName = d.idName → columns <+: d.numbers := by
      cases hcolumns
      constructor
      · intro hd
        rw [Setup.queryColumns, hd]
      · intro d hd hid
        rw [Setup.queryColumns, hd, hid]
        exact List.prefix_refl _
    exact h.setTexts (fun texts => { texts with columns := some (s.queryColumns texts.idName) })
      (by omega) (by simp [PassPoint.stage]) (fun _ => ⟨rfl, rfl⟩)
      (fun hlt => by simp [PassPoint.stage] at hlt)
      fun texts columns _ hcolumns => hread texts columns hcolumns
  · exact { h with
      loaded := fun hlt => absurd hlt (by simp [PassPoint.stage])
      found := fun _ _ _ => h.loaded (by omega)
      serv := fun hp => by cases hp
      unnamed := fun hlt => absurd hlt (by simp [PassPoint.stage])
      unread := fun hlt => absurd hlt (by simp [PassPoint.stage])
      jobs := fun rest hrest => by cases hrest }

theorem Setup.Kept.schedule (h : s.Kept cfg tbl) (hpoint : s.point = .schedule) :
    (s.pass cfg tbl ok fp).Kept cfg tbl := by
  unfold Setup.pass
  rw [hpoint]
  dsimp only
  split
  · exact { h with
      loaded := fun hlt => absurd hlt (by simp [PassPoint.stage])
      found := fun hc hs _ => h.found hc hs (by simp [hpoint])
      serv := fun hp => by cases hp
      unnamed := fun hlt => absurd hlt (by simp [PassPoint.stage])
      unread := fun hlt => absurd hlt (by simp [PassPoint.stage])
      jobs := by
        intro rest hrest
        cases hrest
        simp }
  · next data hdata =>
    have htexts : s.texts = some data.texts := by rw [Setup.texts, hdata]; rfl
    have hgrown := h.grown
    have hnames := h.texts
    rw [htexts] at hgrown hnames
    exact { h with
      loaded := fun _ => rfl
      found := fun _ _ _ => rfl
      serv := fun hp => by cases hp
      unnamed := fun hlt => absurd hlt (by simp [PassPoint.stage])
      unread := fun hlt => absurd hlt (by simp [PassPoint.stage])
      grown := hgrown
      jobs := by
        intro rest hrest stmt hmem
        cases hrest
        exact isJob_of_mem_jobs hmem
      texts := hnames }

theorem Setup.Kept.jobs_pass (h : s.Kept cfg tbl) {rest : List AggregStmt}
    (hpoint : s.point = .jobs rest) : (s.pass cfg tbl ok fp).Kept cfg tbl := by
  unfold Setup.pass
  rw [hpoint]
  cases rest with
  | nil =>
      exact { h with
        loaded := fun hlt => absurd hlt (by simp [PassPoint.stage])
        found := fun hc hs _ => h.found hc hs (by simp [hpoint])
        serv := fun hp => by cases hp
        unnamed := fun hlt => absurd hlt (by simp [PassPoint.stage])
        unread := fun hlt => absurd hlt (by simp [PassPoint.stage])
        jobs := fun rest hrest => by cases hrest }
  | cons stmt rest =>
      apply h.next
      case hframe => simp [Setup.texts]
      case hstarted => simp
      case hclean => exact clean_of_send
      case hmade => exact ⟨fun hc => made_send_mono (h.haveAm (by simpa using hc)),
        fun hc => made_send_mono (h.haveAh (by simpa using hc)),
        fun hc => made_send_mono (h.haveAd (by simpa using hc))⟩
      case hfrom => simp [hpoint]
      case hloaded => exact fun hlt => absurd hlt (by simp [PassPoint.stage])
      case hunnamed => exact fun hlt => absurd hlt (by simp [PassPoint.stage])
      case hunread => exact fun hlt => absurd hlt (by simp [PassPoint.stage])
      case hserv => exact fun hp => by cases hp
      case hjobs =>
        intro left hleft stmt' hmem
        cases hleft
        exact h.jobs _ hpoint stmt' (List.mem_cons_of_mem _ hmem)

/-- What the thread does keeps the invariant. -/
theorem Setup.Kept.pass (h : s.Kept cfg tbl) : (s.pass cfg tbl ok fp).Kept cfg tbl := by
  have hmade := And.intro h.haveAm (And.intro h.haveAh h.haveAd)
  cases hpoint : s.point with
  | configs => exact h.configs hpoint
  | haveServId => exact h.haveServId hpoint
  | columns => exact h.columns hpoint
  | schedule => exact h.schedule hpoint
  | idle =>
      unfold Setup.pass
      rw [hpoint]
      exact { h with
        started := id
        loaded := fun hlt => absurd hlt (by simp [PassPoint.stage])
        found := fun _ _ hne => absurd rfl hne
        serv := fun hp => by cases hp
        unnamed := fun hlt => absurd hlt (by simp [PassPoint.stage])
        unread := fun hlt => absurd hlt (by simp [PassPoint.stage])
        jobs := fun rest hrest => by cases hrest }
  | haveData =>
      unfold Setup.pass
      rw [hpoint]
      dsimp only
      split
      · next hfound =>
        exact h.have (by simp [hpoint, PassPoint.stage]) (by simp [PassPoint.stage])
          (by simp [hpoint, PassPoint.stage]) (fun _ => ((Bool.and_eq_true _ _).mp hfound).2) hmade
      · exact h.have (by simp [hpoint, PassPoint.stage]) (by simp [PassPoint.stage])
          (by simp [PassPoint.stage]) (by simp) hmade
  | haveAm =>
      unfold Setup.pass
      rw [hpoint]
      exact h.have (by simp [hpoint, PassPoint.stage]) (by simp [PassPoint.stage])
        (by simp [PassPoint.stage]) (by simp) ⟨fun hc => ((Bool.and_eq_true _ _).mp hc).2, hmade.2⟩
  | haveAh =>
      unfold Setup.pass
      rw [hpoint]
      exact h.have (by simp [hpoint, PassPoint.stage]) (by simp [PassPoint.stage])
        (by simp [PassPoint.stage]) (by simp)
        ⟨hmade.1, fun hc => ((Bool.and_eq_true _ _).mp hc).2, hmade.2.2⟩
  | haveAd =>
      unfold Setup.pass
      rw [hpoint]
      exact h.have (by simp [hpoint, PassPoint.stage]) (by simp [PassPoint.stage])
        (by simp [PassPoint.stage]) (by simp)
        ⟨hmade.1, hmade.2.1, fun hc => ((Bool.and_eq_true _ _).mp hc).2⟩
  | haveAl =>
      unfold Setup.pass
      rw [hpoint]
      exact h.have (by simp [hpoint, PassPoint.stage]) (by simp [PassPoint.stage])
        (by simp [PassPoint.stage]) (by simp) hmade
  | createAm | createAh | createAd | createAl =>
      unfold Setup.pass
      rw [hpoint]
      exact h.create (by simp [hpoint, PassPoint.stage]) (by simp [PassPoint.stage]) (by simp)
  | jobs rest => exact h.jobs_pass hpoint

end pass

/-! ### Steps of an agent -/

section agent

variable {cfg : AggregData} {tbl : String} {s : Setup col} {i : ℕ} {ok : Bool}

/-- What a step of an agent does to the tables, and what it must do for the set-up. -/
inductive Setup.AgentStep (s : Setup col) (i : ℕ) (ok : Bool) : Setup col → Prop
  | quiet (recorded : Bool) (p : UpdatePoint) (hgrows : s.recorded = true → recorded = true)
      (hp : p.Recorded → recorded = true) (hmeets : s.Meets (.agent i ok)) :
      AgentStep s i ok ({ s with recorded := recorded }.setAgent i p)
  | create (d : SampleTable col) (hnone : s.d = none) (hrecorded : s.recorded = true)
      (hmeets : s.Meets (.agent i ok) ↔ s.Expects d) :
      AgentStep s i ok ({ s with d := some d }.setAgent i .idle)
  | add (d : SampleTable col) (p : Property) (properties : List Property) (hd : s.d = some d)
      (hadmits : d.Admits p) (hrecorded : s.recorded = true)
      (hmeets : s.Meets (.agent i ok) ↔ (s.texts.isSome = true → s.point.stage < 7)) :
      AgentStep s i ok ({ s with d := some (d.add p) }.setAgent i (.haveColumn properties))

theorem setAgent_self (s : Setup col) (p : UpdatePoint) (h : s.agents i = p) : s.setAgent i p = s := by
  unfold Setup.setAgent
  rw [← h, Function.update_eq_self]

theorem Setup.Kept.agent_cases (h : s.Kept cfg tbl) : s.AgentStep i ok (s.agent i ok) := by
  have hrecorded := h.recorded i
  have hquiet (p : UpdatePoint) (hp : p.Recorded → s.recorded = true)
      (hmeets : s.Meets (.agent i ok)) : s.AgentStep i ok (s.setAgent i p) :=
    .quiet s.recorded p id hp hmeets
  unfold Setup.agent
  cases hagent : s.agents i with
  | idle =>
      have hstep := hquiet .idle False.elim (by simp [Setup.Meets, hagent])
      rwa [setAgent_self s _ hagent] at hstep
  | record definition =>
      dsimp only
      split
      · exact .quiet true _ (fun _ => rfl) (fun _ => rfl) (by simp [Setup.Meets, hagent])
      · exact hquiet .idle False.elim (by simp [Setup.Meets, hagent])
  | haveTable definition =>
      have hrec : s.recorded = true := hrecorded (by rw [hagent]; trivial)
      dsimp only
      split
      · exact hquiet _ (fun _ => hrec) (by simp [Setup.Meets, hagent])
      · exact hquiet _ (fun _ => hrec) (by simp [Setup.Meets, hagent])
  | createTable definition =>
      have hrec : s.recorded = true := hrecorded (by rw [hagent]; trivial)
      dsimp only
      split
      · next hok =>
        obtain ⟨hok, hnone⟩ := (Bool.and_eq_true _ _).mp hok
        have hd : s.d = none := Option.isNone_iff_eq_none.mp hnone
        cases hcreate : (SampleTable.create definition : Option (SampleTable col)) with
        | none =>
            have hsame : { s with d := none } = s := by rw [← hd]
            rw [hsame]
            exact hquiet .idle False.elim (by simp [Setup.Meets, hagent, hcreate])
        | some d => exact .create d hd hrec (by simp [Setup.Meets, hagent, hok, hd, hcreate])
      · next hnot =>
        refine hquiet .idle False.elim ?_
        rw [Setup.Meets, hagent]
        intro hok hd
        exact absurd (by simp [hok, hd]) hnot
  | haveColumn properties =>
      have hrec : s.recorded = true := hrecorded (by rw [hagent]; trivial)
      cases properties with
      | nil => exact hquiet .idle False.elim (by simp [Setup.Meets, hagent])
      | cons p properties =>
          dsimp only
          split
          · exact hquiet _ (fun _ => hrec) (by simp [Setup.Meets, hagent])
          · exact hquiet _ (fun _ => hrec) (by simp [Setup.Meets, hagent])
  | addColumn p properties =>
      have hrec : s.recorded = true := hrecorded (by rw [hagent]; trivial)
      dsimp only
      split
      · next hok =>
        cases hd : s.d with
        | none =>
            have hsame :
                { s with d := (none : Option (SampleTable col)).map (SampleTable.add p) } = s := by
              rw [Option.map_none, ← hd]
            rw [hsame]
            exact hquiet _ (fun _ => hrec) (by simp [Setup.Meets, hagent, hd])
        | some d =>
            by_cases hadmits : d.Admits p
            · exact .add d p properties hd hadmits hrec
                (by simp [Setup.Meets, hagent, hok, hd, hadmits])
            · have hsame : { s with d := (some d).map (SampleTable.add p) } = s := by
                rw [Option.map_some, SampleTable.add_of_not_admits hadmits, ← hd]
              rw [hsame]
              exact hquiet _ (fun _ => hrec) (by simp [Setup.Meets, hagent, hd, hadmits])
      · next hnot => exact hquiet _ (fun _ => hrec) (by simp [Setup.Meets, hagent, hnot])

theorem Setup.Kept.setAgent (h : s.Kept cfg tbl) {p : UpdatePoint}
    (hp : p.Recorded → s.recorded = true) : (s.setAgent i p).Kept cfg tbl :=
  { h with
    recorded := by
      intro j hj
      by_cases hji : j = i
      · subst hji
        exact hp (by simpa [Setup.setAgent] using hj)
      · exact h.recorded j (by simpa [Setup.setAgent, hji] using hj) }

/-- What an agent does keeps the invariant. -/
theorem Setup.Kept.agent (h : s.Kept cfg tbl) : (s.agent i ok).Kept cfg tbl := by
  have hcases : s.AgentStep i ok (s.agent i ok) := h.agent_cases
  generalize s.agent i ok = s' at hcases ⊢
  cases hcases with
  | quiet recorded p hgrows hp hmeets =>
      have hkept : Setup.Kept cfg tbl { s with recorded := recorded } :=
        { h with
          announced := fun hd => hgrows (h.announced hd)
          recorded := fun j hj => hgrows (h.recorded j hj) }
      exact hkept.setAgent hp
  | create d hnone hrecorded hmeets =>
      have hkept : Setup.Kept cfg tbl { s with d := some d } :=
        { h with
          announced := fun _ => hrecorded
          started := fun _ => rfl
          serv := fun _ => rfl
          grown := by
            intro texts columns ht hcolumns
            rw [(h.grown texts columns ht hcolumns).1 hnone]
            exact ⟨fun _ => rfl, fun _ _ _ => List.nil_prefix⟩ }
      exact hkept.setAgent False.elim
  | add d p properties hd hadmits hrecorded hmeets =>
      have hkept : Setup.Kept cfg tbl { s with d := some (d.add p) } :=
        { h with
          announced := fun _ => hrecorded
          started := fun _ => rfl
          serv := fun _ => rfl
          grown := by
            intro texts columns ht hcolumns
            constructor
            · intro hnone
              cases hnone
            · intro d' hd' hid
              cases hd'
              rw [SampleTable.idName_add] at hid
              rw [SampleTable.numbers_add hadmits]
              exact ((h.grown texts columns ht hcolumns).2 d hd hid).trans
                (List.prefix_append _ _) }
      exact hkept.setAgent fun _ => hrecorded

end agent

end WatchedBack
