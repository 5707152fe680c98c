import WatchedBack.Verification.Aggregates.Setup
import WatchedBack.Verification.Api.Tables

/-! # The columns of the inserts and of their tables

The inserts are made of the columns that `d$` has when the program starts; their tables keep the
columns of the day they were created. -/

namespace WatchedBack

open Runs

variable {col : Collation}

/-! ### The tables of `createTables` -/

section tables

open Fallible

/-- A column of a definition is that of a property of a known type. -/
theorem exists_property {v : Json} {type : String} (h : columnType v = .ok (some type))
    (name : String) : ∃ p : Property, p.name = name ∧ p.column = ⟨name, type⟩ := by
  obtain ⟨value, -, h⟩ := bind_eq_ok.mp h
  split at h
  · cases h
    exact ⟨⟨name, .number⟩, rfl, rfl⟩
  · cases h
    exact ⟨⟨name, .integer⟩, rfl, rfl⟩
  · obtain ⟨text, -, h⟩ := bind_eq_ok.mp h
    cases h

theorem exists_properties_foldlM {properties : List (String × Json)} {start columns : List DataColumn}
    (h : properties.foldlM (fun columns property => (columnType property.2).map fun type =>
      columns ++ type.toList.map (DataColumn.mk property.1)) start = .ok columns) :
    ∃ ps : List Property, columns = start ++ ps.map Property.column ∧
      ∀ p ∈ ps, p.name ∈ properties.map Prod.fst := by
  induction properties generalizing start with
  | nil =>
      cases h
      exact ⟨[], by simp⟩
  | cons property properties ih =>
      obtain ⟨m, hm, h⟩ := foldlM_cons_eq_ok.mp h
      obtain ⟨type, htype, rfl⟩ := map_eq_ok.mp hm
      obtain ⟨ps, rfl, hps⟩ := ih h
      cases type with
      | none => exact ⟨ps, by simp, fun p hp => List.mem_cons_of_mem _ (hps p hp)⟩
      | some type =>
          obtain ⟨p, hname, hcolumn⟩ := exists_property htype property.1
          refine ⟨p :: ps, by simp [hcolumn], ?_⟩
          rw [List.forall_mem_cons]
          exact ⟨by simp [hname], fun q hq => List.mem_cons_of_mem _ (hps q hq)⟩

/-- The columns that `createTables` gives to a new table are those of a create here. -/
theorem newColumns_create {v : Json} {columns : List DataColumn} (h : newColumns v = .ok columns) :
    ∃ definition : Definition, v.isMember "x-isService" = .ok definition.isService ∧
      (SampleTable.create definition : Option (SampleTable col)).map SampleTable.columns =
        if Distinct col columns then some columns else none := by
  obtain ⟨isService, hservice, h⟩ := bind_eq_ok.mp h
  obtain ⟨properties, -, h⟩ := bind_eq_ok.mp h
  obtain ⟨typed, htyped, h⟩ := bind_eq_ok.mp h
  cases h
  rw [propertyColumns_eq] at htyped
  obtain ⟨ps, rfl, hps⟩ := exists_properties_foldlM htyped
  refine ⟨⟨isService, ps⟩, hservice, ?_⟩
  have hnames : ps.filter (fun p => p.name ≠ "timestamp") = ps := by
    rw [List.filter_eq_self]
    intro p hp
    obtain ⟨property, hproperty, hname⟩ := List.mem_map.mp (hps p hp)
    rw [← hname]
    exact (List.mem_filter.mp hproperty).2
  have hcolumns : dataColumns isService ps = [⟨if isService then "serv_id" else "host_id",
      "int(32) unsigned"⟩, ⟨"res_id", "int(32) unsigned"⟩,
      ⟨"timestamp", "double(20,4) unsigned"⟩] ++ ps.map Property.column := rfl
  unfold SampleTable.create
  simp only [hnames, List.nil_append]
  rw [← hcolumns]
  by_cases hdistinct : Distinct col (dataColumns isService ps)
  · rw [dif_pos hdistinct, if_pos hdistinct]
    rfl
  · rw [dif_neg hdistinct, if_neg hdistinct]
    rfl

end tables

/-! ### What an insert needs of its tables -/

/-- Of a table that is written, all columns in their order; of one that is read, those that are
selected. -/
inductive Demand
  | exact
  | columns
  | id
  deriving DecidableEq

/-- Whether a table is what the texts need. -/
def Demand.Met (col : Collation) : Demand → TableTexts → AggregTable → Prop
  | .exact, texts, t => t = ⟨texts.idName, texts.columns.getD []⟩
  | .columns, texts, t => t.has col texts.idName (texts.columns.getD []) = true
  | .id, texts, t => t.has col texts.idName [] = true

/-- The tables of an insert, each by its create. -/
def demands : AggregStmt → List (AggregStmt × Demand)
  | .baseAm => [(.createAm, .exact)]
  | .baseAh => [(.createAh, .exact), (.createAm, .columns)]
  | .baseAd => [(.createAd, .exact), (.createAh, .columns), (.createAm, .id)]
  | _ => []

namespace Setup

variable (s : Setup col) (stmt : AggregStmt)

/-- The text of the insert has the columns of its tables. -/
def Fits : Prop :=
  ∀ texts, s.texts = some texts → ∀ p ∈ demands stmt, ∃ t, s.made p.1 = some t ∧ p.2.Met col texts t

/-- The thread sends the statement as a job. -/
def Executes : SetupMove → Prop
  | .pass _ _ => ∃ rest, s.point = .jobs (stmt :: rest)
  | _ => False

/-- What a step of the thread must find for the insert. -/
def Suits : SetupMove → Prop
  | .pass ok _ =>
      match s.point with
      | .columns => ∀ texts, s.texts = some texts → ∀ p ∈ demands stmt,
          if ok = true then
            ∀ t, s.made p.1 = some t →
              p.2.Met col { texts with columns := some (s.queryColumns texts.idName) } t
          else ∃ t, s.made p.1 = some t ∧ p.2.Met col texts t
      | .createAm => .createAm ∈ (demands stmt).map Prod.fst → s.am = none →
          s.carries ok .createAm = true
      | .createAh => .createAh ∈ (demands stmt).map Prod.fst → s.ah = none →
          s.carries ok .createAh = true
      | .createAd => .createAd ∈ (demands stmt).map Prod.fst → s.ad = none →
          s.carries ok .createAd = true
      | _ => True
  | _ => True

/-- Once the texts are made, the tables that exist are what they need, and the others are still to
be created. -/
def Fitting : Prop :=
  ∀ texts, s.texts = some texts → 7 ≤ s.point.stage → ∀ p ∈ demands stmt, ∀ k,
    (p.1, k) ∈ creates →
      (∀ t, s.made p.1 = some t → p.2.Met col texts t) ∧ (s.made p.1 = none → s.point.stage < k)

end Setup

section steps

variable {cfg : AggregData} {tbl : String} {s s' : Setup col} {stmt : AggregStmt} {i k : ℕ}
  {ok : Bool} {fp : ℚ}

/-- A table that was made of the texts is what they need. -/
theorem Demand.met_made (d : Demand) (texts : TableTexts) :
    d.Met col texts ⟨texts.idName, texts.columns.getD []⟩ := by
  cases d with
  | exact => rfl
  | columns =>
      simp only [Met, AggregTable.has, decide_eq_true_eq, List.any_eq_true]
      exact ⟨col.refl _, fun c hc => ⟨c, hc, col.refl c⟩⟩
  | id =>
      simp only [Met, AggregTable.has, decide_eq_true_eq]
      exact ⟨col.refl _, by simp⟩

theorem creates_of_mem_demands {p : AggregStmt × Demand} (h : p ∈ demands stmt) :
    ∃ k, (p.1, k) ∈ Setup.creates := by
  cases stmt <;> simp only [demands, List.mem_cons, List.not_mem_nil, or_false] at h
  · rw [h]
    exact ⟨8, by decide⟩
  · rcases h with rfl | rfl
    · exact ⟨9, by decide⟩
    · exact ⟨8, by decide⟩
  · rcases h with rfl | rfl | rfl
    · exact ⟨10, by decide⟩
    · exact ⟨9, by decide⟩
    · exact ⟨8, by decide⟩

theorem fitting_of_stage (h : s.texts.isSome = true → s.point.stage < 7) : s.Fitting stmt := by
  intro texts ht hstage
  have hlt := h (by rw [ht]; rfl)
  omega

theorem fitting_congr (htexts : s'.texts = s.texts)
    (hmade : ∀ c k, (c, k) ∈ Setup.creates → s'.made c = s.made c)
    (hstage : ∀ k, 7 ≤ k ∧ k ≤ 10 → (k ≤ s'.point.stage ↔ k ≤ s.point.stage)) :
    s'.Fitting stmt ↔ s.Fitting stmt := by
  have hseven := hstage 7 (by omega)
  unfold Setup.Fitting
  rw [htexts, hseven]
  apply forall₅_congr
  intro texts _ _ p _
  apply forall₂_congr
  intro k hk
  have hat := hstage k (by have := creates_stage hk; omega)
  rw [hmade p.1 k hk, ← not_le, ← not_le, hat]

/-- At the end of the load, what fits so far fits. -/
theorem fits_iff_fitting (hstage : s.point.stage = 11) : s.Fits stmt ↔ s.Fitting stmt := by
  constructor
  · intro h texts ht _ p hp k hk
    obtain ⟨t, hmade, hmet⟩ := h texts ht p hp
    rw [hmade]
    constructor
    · intro t' ht'
      cases ht'
      exact hmet
    · intro hnone
      cases hnone
  · intro h texts ht p hp
    obtain ⟨k, hk⟩ := creates_of_mem_demands hp
    obtain ⟨hsome, hnone⟩ := h texts ht (by omega) p hp k hk
    cases hmade : s.made p.1 with
    | none =>
        have hlt := hnone hmade
        have hle := creates_stage hk
        omega
    | some t => exact ⟨t, rfl, hsome t hmade⟩

/-- A step keeps what fits exactly if it suits, and makes nothing fit. -/
structure Setup.Upsets (s s' : Setup col) (stmt : AggregStmt) (suits : Prop) : Prop where
  keeps : s.Fitting stmt → (s'.Fitting stmt ↔ suits)
  back : s'.Fitting stmt → s.Fitting stmt

theorem upsets_of_congr {suits : Prop} (h : s'.Fitting stmt ↔ s.Fitting stmt) (hsuits : suits) :
    s.Upsets s' stmt suits where
  keeps hs := iff_of_true (h.mpr hs) hsuits
  back := h.mp

/-- A step before the columns are known. -/
theorem upsets_early {suits : Prop} (hs : s.texts.isSome = true → s.point.stage < 7)
    (hs' : s'.texts.isSome = true → s'.point.stage < 7) (hsuits : suits) :
    s.Upsets s' stmt suits where
  keeps _ := iff_of_true (fitting_of_stage hs') hsuits
  back _ := fitting_of_stage hs

/-- A step of the thread that reads nothing of what fits. -/
theorem upsets_within {p : PassPoint} {am ah ad al started clean : Bool} {suits : Prop}
    (hsuits : suits)
    (hstage : ∀ k, 7 ≤ k ∧ k ≤ 10 → (k ≤ p.stage ↔ k ≤ s.point.stage)) :
    s.Upsets
      { s with
        point := p
        haveAm := am
        haveAh := ah
        haveAd := ad
        haveAl := al
        started := started
        clean := clean } stmt suits := by
  apply upsets_of_congr _ hsuits
  apply fitting_congr
  · rfl
  · intro c k _
    cases c <;> rfl
  · exact hstage

/-- The columns are asked for. -/
theorem upsets_columns (hpoint : s.point = .columns) :
    s.Upsets (s.pass cfg tbl ok fp) stmt (s.Suits stmt (.pass ok fp)) where
  keeps _ := by
    unfold Setup.Suits Setup.pass
    rw [hpoint]
    dsimp only
    cases ok with
    | false =>
        simp only [Bool.false_eq_true, if_false]
        exact (fits_iff_fitting (s := { s.query false with point := .schedule }) rfl).symm
    | true =>
        simp only [if_true]
        let f : TableTexts → TableTexts := fun texts =>
          { texts with columns := some (s.queryColumns texts.idName) }
        have htexts : Setup.texts { s.setTexts f with point := .createAm } = s.texts.map f :=
          texts_setTexts s f
        constructor
        · intro h texts ht p hp t hmade
          obtain ⟨k, hk⟩ := creates_of_mem_demands hp
          have hmade' : Setup.made { s.setTexts f with point := .createAm } p.1 = some t := by
            rw [← hmade]
            cases p.1 <;> rfl
          exact (h (f texts) (by rw [htexts, ht]; rfl) le_rfl p hp k hk).1 t hmade'
        · intro h texts ht _ p hp k hk
          rw [htexts] at ht
          obtain ⟨old, hold, rfl⟩ := Option.map_eq_some_iff.mp ht
          have hmade : Setup.made { s.setTexts f with point := .createAm } p.1 = s.made p.1 := by
            cases p.1 <;> rfl
          rw [hmade]
          constructor
          · exact h old hold p hp
          · intro _
            have hle := creates_stage hk
            simp only [PassPoint.stage]
            omega
  back _ := by
    apply fitting_of_stage
    intro _
    rw [hpoint]
    decide

/-- The server creates no table that is there. -/
theorem made_of_carries (hk : (stmt, k) ∈ Setup.creates) (h : s.carries ok stmt = true) :
    s.made stmt = none := by
  unfold Setup.carries Setup.texts at h
  cases hdata : s.data with
  | none => simp [hdata] at h
  | some data =>
      simp only [Setup.creates, List.mem_cons, Prod.mk.injEq, List.not_mem_nil, or_false] at hk
      rcases hk with ⟨rfl, -⟩ | ⟨rfl, -⟩ | ⟨rfl, -⟩ <;>
        simp_all [Setup.accepts, Setup.made]

/-- What a create makes has the columns of the texts. -/
theorem made_send_self (hk : (stmt, k) ∈ Setup.creates) :
    (s.send ok stmt).made stmt =
      if s.carries ok stmt = true then
        s.texts.map fun texts => ⟨texts.idName, texts.columns.getD []⟩
      else s.made stmt := by
  unfold Setup.send Setup.carries Setup.texts
  simp only [Setup.creates, List.mem_cons, Prod.mk.injEq, List.not_mem_nil, or_false] at hk
  cases hdata : s.data with
  | none => rcases hk with ⟨rfl, -⟩ | ⟨rfl, -⟩ | ⟨rfl, -⟩ <;> simp [Setup.made]
  | some data =>
      dsimp only [Option.any_some, Option.map_some]
      split
      · rcases hk with ⟨rfl, -⟩ | ⟨rfl, -⟩ | ⟨rfl, -⟩ <;> rfl
      · rcases hk with ⟨rfl, -⟩ | ⟨rfl, -⟩ | ⟨rfl, -⟩ <;> rfl

/-- A table is made once. -/
theorem made_create_of_isSome {haveIt : Bool} {c : AggregStmt} (hk : (stmt, k) ∈ Setup.creates)
    (hmade : (s.made stmt).isSome = true) : (s.create haveIt ok c).made stmt = s.made stmt := by
  unfold Setup.create
  split
  · rfl
  · by_cases heq : c = stmt
    · subst heq
      rw [made_send_self hk, if_neg]
      intro hcarries
      rw [made_of_carries hk hcarries] at hmade
      cases hmade
    · exact made_send_of_ne heq

theorem made_create_self {haveIt : Bool} (hk : (stmt, k) ∈ Setup.creates)
    (hhave : haveIt = true → (s.made stmt).isSome = true) (hnone : s.made stmt = none) :
    (s.create haveIt ok stmt).made stmt =
      if s.carries ok stmt = true then
        s.texts.map fun texts => ⟨texts.idName, texts.columns.getD []⟩
      else none := by
  unfold Setup.create
  rw [if_neg, made_send_self hk, hnone]
  intro hit
  have hsome := hhave hit
  rw [hnone] at hsome
  cases hsome

/-- A create is sent, or its table is there. -/
theorem Setup.Kept.upsets_create (h : s.Kept cfg tbl) {haveIt : Bool} {c : AggregStmt}
    {p : PassPoint} (hmem : (c, p.stage) ∈ Setup.creates) (hfrom : s.point.stage + 1 = p.stage)
    (hhave : haveIt = true → (s.made c).isSome = true) :
    s.Upsets { s.create haveIt ok c with point := p } stmt
      (c ∈ (demands stmt).map Prod.fst → s.made c = none → s.carries ok c = true) := by
  have hk := creates_stage hmem
  let s' : Setup col := { s.create haveIt ok c with point := p }
  have htexts : s'.texts = s.texts := by simp [s', Setup.texts]
  have hother (c' : AggregStmt) (hne : c ≠ c') : s'.made c' = s.made c' := made_create_of_ne hne
  have hself (hnone : s.made c = none) : s'.made c = if s.carries ok c = true then
      s.texts.map fun texts => ⟨texts.idName, texts.columns.getD []⟩ else none :=
    made_create_self hmem hhave hnone
  have hsome (t : AggregTable) (ht : s.made c = some t) : s'.made c = some t := by
    rw [← ht]
    exact made_create_of_isSome hmem (by rw [ht]; rfl)
  constructor
  · intro hs
    constructor
    · intro hs' hneeds hnone
      obtain ⟨texts, ht⟩ := Option.isSome_iff_exists.mp (h.loaded (by omega))
      obtain ⟨q, hq, rfl⟩ := List.mem_map.mp hneeds
      by_contra hcarries
      have hlt := (hs' texts (htexts.trans ht) (by
        have hseven : 7 ≤ p.stage := by omega
        exact hseven) q hq p.stage hmem).2 (by rw [hself hnone, if_neg hcarries])
      exact lt_irrefl _ hlt
    · intro hcarries texts ht _ q hq k' hk'
      have ht' : s.texts = some texts := by rw [← htexts]; exact ht
      obtain ⟨hmet, hstill⟩ := hs texts ht' (by omega) q hq k' hk'
      by_cases heq : c = q.1
      · subst heq
        cases hmade : s.made q.1 with
        | some t =>
            rw [hsome t hmade]
            constructor
            · intro t' ht'
              cases ht'
              exact hmet t hmade
            · intro hnone
              cases hnone
        | none =>
            rw [hself hmade, if_pos (hcarries (List.mem_map_of_mem hq) hmade), ht']
            constructor
            · intro t' ht'
              cases ht'
              exact Demand.met_made q.2 texts
            · intro hnone
              cases hnone
      · rw [hother q.1 heq]
        apply And.intro hmet
        intro hnone
        have hlt := hstill hnone
        have hne : p.stage ≠ k' := mt (creates_unique hmem hk').mpr heq
        have hlt' : p.stage < k' := by omega
        exact hlt'
  · intro hs' texts ht _ q hq k' hk'
    obtain ⟨hmet, hstill⟩ := hs' texts (htexts.trans ht) (by
      have hseven : 7 ≤ p.stage := by omega
      exact hseven) q hq k' hk'
    by_cases heq : c = q.1
    · subst heq
      have hstage := (creates_unique hmem hk').mp rfl
      constructor
      · intro t hmade
        exact hmet t (hsome t hmade)
      · intro _
        omega
    · rw [← hother q.1 heq]
      apply And.intro hmet
      intro hnone
      have hlt : p.stage < k' := hstill hnone
      omega

theorem Setup.Kept.upsets_pass (h : s.Kept cfg tbl) :
    s.Upsets (s.pass cfg tbl ok fp) stmt (s.Suits stmt (.pass ok fp)) := by
  cases hpoint : s.point with
  | columns => exact upsets_columns hpoint
  | configs =>
      unfold Setup.Suits Setup.pass
      rw [hpoint]
      dsimp only
      split
      · next hload =>
        have hnone : s.texts = none := texts_of_unloaded hload
        refine upsets_early (fun hsome => ?_) (fun _ => by simp [PassPoint.stage]) trivial
        rw [hnone] at hsome
        cases hsome
      · exact upsets_within trivial fun k _ => by rw [hpoint]; rfl
  | haveData =>
      unfold Setup.Suits Setup.pass
      rw [hpoint]
      dsimp only
      split
      · exact upsets_within trivial fun k hk => by simp only [hpoint, PassPoint.stage]; omega
      · exact upsets_within trivial fun k hk => by simp only [hpoint, PassPoint.stage]; omega
  | haveServId =>
      unfold Setup.Suits Setup.pass
      rw [hpoint]
      exact upsets_early (fun _ => by simp [hpoint, PassPoint.stage])
        (fun _ => by simp [PassPoint.stage]) trivial
  | idle =>
      unfold Setup.Suits Setup.pass
      rw [hpoint]
      exact upsets_within trivial fun k _ => by rw [hpoint]; rfl
  | haveAm | haveAh | haveAd | haveAl =>
      unfold Setup.Suits Setup.pass
      rw [hpoint]
      exact upsets_within trivial fun k hk => by simp only [hpoint, PassPoint.stage]; omega
  | createAm =>
      unfold Setup.Suits Setup.pass
      rw [hpoint]
      exact h.upsets_create (by decide) (by rw [hpoint]; rfl) h.haveAm
  | createAh =>
      unfold Setup.Suits Setup.pass
      rw [hpoint]
      exact h.upsets_create (by decide) (by rw [hpoint]; rfl) h.haveAh
  | createAd =>
      unfold Setup.Suits Setup.pass
      rw [hpoint]
      exact h.upsets_create (by decide) (by rw [hpoint]; rfl) h.haveAd
  | createAl =>
      unfold Setup.Suits Setup.pass
      rw [hpoint]
      apply upsets_of_congr _ trivial
      apply fitting_congr
      · simp [Setup.texts]
      · exact fun c k hmem => made_createAl hmem
      · intro k hk
        simp only [hpoint, PassPoint.stage]
        omega
  | schedule =>
      unfold Setup.Suits Setup.pass
      rw [hpoint]
      dsimp only
      split
      · exact upsets_within trivial fun k _ => by rw [hpoint]; rfl
      · next data hdata =>
        apply upsets_of_congr _ trivial
        apply fitting_congr
        · rw [Setup.texts, Setup.texts, hdata]
          rfl
        · intro c k _
          cases c <;> rfl
        · intro k _
          rw [hpoint]
          rfl
  | jobs rest =>
      unfold Setup.Suits Setup.pass
      rw [hpoint]
      cases rest with
      | nil => exact upsets_within trivial fun k _ => by rw [hpoint]; rfl
      | cons job rest =>
          apply upsets_of_congr _ trivial
          apply fitting_congr
          · simp [Setup.texts]
          · intro c k hmem
            exact made_send_job (h.jobs _ hpoint job List.mem_cons_self) hmem
          · intro k _
            rw [hpoint]
            rfl

theorem Setup.Kept.upsets_agent (h : s.Kept cfg tbl) :
    s.Upsets (s.agent i ok) stmt (s.Suits stmt (.agent i ok)) := by
  have hcases : s.AgentStep i ok (s.agent i ok) := h.agent_cases
  generalize s.agent i ok = s' at hcases ⊢
  apply upsets_of_congr _ trivial
  cases hcases with
  | quiet | create | add =>
      apply fitting_congr
      · rfl
      · intro c k _
        cases c <;> rfl
      · intro k _
        exact Iff.rfl

/-- What a move does for the columns of an insert. -/
theorem Setup.Kept.upsets_move {x : SetupMove} (h : s.Kept cfg tbl) :
    s.Upsets (s.move cfg tbl x) stmt (s.Suits stmt x) := by
  cases x with
  | updateApi i definition =>
      unfold Setup.move
      dsimp only
      apply upsets_of_congr _ trivial
      split
      · apply fitting_congr
        · rfl
        · intro c k _
          cases c <;> rfl
        · intro k _
          exact Iff.rfl
      · exact Iff.rfl
  | agent i ok => exact h.upsets_agent
  | pass ok fp => exact h.upsets_pass

/-- A program that is started again finds the tables that it has left. -/
theorem Setup.Kept.restart (h : s.Kept cfg tbl) : s.restart.Kept cfg tbl :=
  kept_start ⟨s.recorded, s.d, s.am, s.ah, s.ad, s.al, h.announced⟩

end steps

/-! ### Lives of the program -/

section lives

variable (cfg : AggregData) (tbl : String) (found : Found col)

/-- What a program finds that is started after these lives. -/
def afterLives (lives : List (List SetupMove)) : Setup col :=
  lives.foldl (fun s life => (life.foldl (Setup.move cfg tbl) s).restart) (.start found)

theorem kept_afterLives (lives : List (List SetupMove)) :
    (afterLives cfg tbl found lives).Kept cfg tbl := by
  apply foldl_invariant
  · intro s life _ hs
    have hlife : (life.foldl (Setup.move cfg tbl) s).Kept cfg tbl :=
      foldl_invariant (fun _ _ _ h => Setup.Kept.move h) hs
    exact hlife.restart
  · exact kept_start found

theorem fitting_afterLives (lives : List (List SetupMove)) (stmt : AggregStmt) :
    (afterLives cfg tbl found lives).Fitting stmt := by
  apply fitting_of_stage
  intro hsome
  unfold afterLives at hsome
  rcases List.eq_nil_or_concat lives with rfl | ⟨before, life, rfl⟩
  · cases hsome
  · rw [List.concat_eq_append, List.foldl_append] at hsome
    cases hsome

/-- Whenever an insert is sent, its text has the columns of its tables, in every life of the program,
exactly if every step of that life before it suits the insert. -/
theorem inserts_fit_iff (lives : List (List SetupMove)) :
    (∀ before life after, lives = before ++ life :: after →
        EachStep (Setup.move cfg tbl) (fun s x => ∀ stmt, s.Executes stmt x → s.Fits stmt)
          (afterLives cfg tbl found before) life) ↔
      ∀ before life after, lives = before ++ life :: after →
        ∀ done x rest, life = done ++ x :: rest →
          ∀ stmt, (done.foldl (Setup.move cfg tbl) (afterLives cfg tbl found before)).Executes
              stmt x →
            EachStep (Setup.move cfg tbl) (fun s x => s.Suits stmt x)
              (afterLives cfg tbl found before) done := by
  apply forall₄_congr
  intro before life after _
  apply forall₄_congr
  intro done x rest _
  apply forall₂_congr
  intro stmt hexec
  have hstage : (done.foldl (Setup.move cfg tbl) (afterLives cfg tbl found before)).point.stage =
      11 := by
    cases x with
    | pass ok fp =>
        obtain ⟨jobs, hpoint⟩ := hexec
        rw [hpoint]
        rfl
    | updateApi i definition => exact hexec.elim
    | agent i ok => exact hexec.elim
  rw [fits_iff_fitting hstage]
  exact foldl_iff_eachStep (Setup.Kept cfg tbl) (fun _ _ h => h.move)
    (fun _ _ h => h.upsets_move.keeps) (fun _ _ h => h.upsets_move.back)
    (kept_afterLives cfg tbl found before) (fitting_afterLives cfg tbl found before stmt)

end lives

/-! ### Tables that fall behind -/

namespace Setup

variable (s : Setup col)

/-- A column is added to `d$`. -/
def Widens : SetupMove → Prop
  | .agent i ok => ok = true ∧ ∃ p properties d, s.agents i = .addColumn p properties ∧
      s.d = some d ∧ d.Admits p
  | _ => False

/-- The table has the columns that `d$` has now. -/
def Follows (c : AggregStmt) : Prop := ∃ d, s.d = some d ∧ s.made c = some ⟨d.idName, d.numbers⟩

/-- The table has the columns that `d$` had once. -/
def Followed (c : AggregStmt) : Prop :=
  ∃ d columns, s.d = some d ∧ s.made c = some ⟨d.idName, columns⟩ ∧ columns <+: d.numbers

end Setup

section widens

variable {cfg : AggregData} {tbl : String} {s : Setup col} {c : AggregStmt} {d : SampleTable col}
  {i k : ℕ} {ok : Bool} {fp : ℚ} {x : SetupMove}

theorem pass_d (s : Setup col) : (s.pass cfg tbl ok fp).d = s.d := by
  unfold Setup.pass
  split <;> first | rfl | simp [Setup.query, Setup.setTexts]
  all_goals split <;> rfl

theorem Setup.Kept.made_pass (h : s.Kept cfg tbl) (hk : (c, k) ∈ Setup.creates)
    (hmade : (s.made c).isSome = true) : (s.pass cfg tbl ok fp).made c = s.made c := by
  have hcreate (haveIt : Bool) (c' : AggregStmt) : (s.create haveIt ok c').made c = s.made c :=
    made_create_of_isSome hk hmade
  unfold Setup.pass
  cases hpoint : s.point with
  | createAm | createAh | createAd | createAl => exact hcreate _ _
  | idle | haveData | haveServId | haveAm | haveAh | haveAd | haveAl => rfl
  | configs =>
      dsimp only
      split <;> rfl
  | columns =>
      dsimp only
      split <;> rfl
  | schedule =>
      dsimp only
      split <;> rfl
  | jobs rest =>
      cases rest with
      | nil => rfl
      | cons job rest => exact made_send_job (h.jobs _ hpoint job List.mem_cons_self) hk

/-- A step of an agent leaves a table as it is, or adds a column to it. -/
theorem d_agent (hd : s.d = some d) :
    (s.agent i ok).d = some d ∧ ¬ s.Widens (.agent i ok) ∨
      s.Widens (.agent i ok) ∧ ∃ p, d.Admits p ∧ (s.agent i ok).d = some (d.add p) := by
  unfold Setup.Widens Setup.agent
  cases hagent : s.agents i with
  | idle => exact Or.inl ⟨hd, by simp [hagent]⟩
  | record definition =>
      apply Or.inl
      dsimp only
      split <;> exact ⟨hd, by simp [hagent]⟩
  | haveTable definition =>
      apply Or.inl
      dsimp only
      split <;> exact ⟨hd, by simp [hagent]⟩
  | createTable definition =>
      apply Or.inl
      dsimp only
      rw [if_neg (by simp [hd])]
      exact ⟨hd, by simp [hagent]⟩
  | haveColumn properties =>
      apply Or.inl
      cases properties with
      | nil => exact ⟨hd, by simp [hagent]⟩
      | cons p properties =>
          dsimp only
          split <;> exact ⟨hd, by simp [hagent]⟩
  | addColumn p properties =>
      dsimp only
      cases ok with
      | false => exact Or.inl ⟨hd, by simp [hagent]⟩
      | true =>
          by_cases hadmits : d.Admits p
          · apply Or.inr
            refine ⟨⟨rfl, p, properties, d, hagent, hd, hadmits⟩, p, hadmits, ?_⟩
            simp [Setup.setAgent, hd]
          · apply Or.inl
            simp [Setup.setAgent, hagent, hd, SampleTable.add_of_not_admits hadmits, hadmits]

theorem Setup.Kept.made_agent (h : s.Kept cfg tbl) : (s.agent i ok).made c = s.made c := by
  have hcases : s.AgentStep i ok (s.agent i ok) := h.agent_cases
  generalize s.agent i ok = s' at hcases ⊢
  cases hcases <;> cases c <;> rfl

/-- What a step does to the columns of a table and to those of its `d$`. -/
theorem Setup.Kept.followed_move (h : s.Kept cfg tbl) (hk : (c, k) ∈ Setup.creates) {t : AggregTable}
    (hd : s.d = some d) (hmade : s.made c = some t) :
    (s.move cfg tbl x).made c = some t ∧
      ((s.move cfg tbl x).d = some d ∧ ¬ s.Widens x ∨
        s.Widens x ∧ ∃ p, d.Admits p ∧ (s.move cfg tbl x).d = some (d.add p)) := by
  cases x with
  | updateApi i definition =>
      unfold Setup.move
      dsimp only
      split
      · refine ⟨?_, Or.inl ⟨hd, id⟩⟩
        rw [← hmade]
        rfl
      · exact ⟨hmade, Or.inl ⟨hd, id⟩⟩
  | agent i ok => exact ⟨h.made_agent.trans hmade, d_agent hd⟩
  | pass ok fp =>
      refine ⟨(h.made_pass hk (by rw [hmade]; rfl)).trans hmade, Or.inl ⟨?_, id⟩⟩
      rw [← hd]
      exact pass_d s

theorem Setup.Kept.followed_step (h : s.Kept cfg tbl) (hk : (c, k) ∈ Setup.creates)
    (hs : s.Followed c) (x : SetupMove) :
    (s.move cfg tbl x).Followed c ∧
      ((s.move cfg tbl x).Follows c ↔ s.Follows c ∧ ¬ s.Widens x) := by
  obtain ⟨d, columns, hd, hmade, hprefix⟩ := hs
  obtain ⟨hmade', ⟨hd', hnot⟩ | ⟨hwidens, p, hadmits, hd'⟩⟩ := h.followed_move (x := x) hk hd hmade
  · apply And.intro ⟨d, columns, hd', hmade', hprefix⟩
    unfold Setup.Follows
    rw [hd, hd', hmade, hmade']
    exact (and_iff_left hnot).symm
  · constructor
    · refine ⟨d.add p, columns, hd', ?_, ?_⟩
      · rw [SampleTable.idName_add]
        exact hmade'
      · rw [SampleTable.numbers_add hadmits]
        exact hprefix.trans (List.prefix_append _ _)
    · apply iff_of_false
      · rintro ⟨d', hsome, hmade''⟩
        rw [hd'] at hsome
        cases hsome
        rw [hmade', Option.some.injEq, AggregTable.mk.injEq, SampleTable.numbers_add hadmits]
          at hmade''
        -- the table was made of fewer columns
        have hle := hprefix.length_le
        rw [hmade''.2, List.length_append, List.length_singleton] at hle
        omega
      · intro hboth
        exact hboth.2 hwidens

/-- A table that has the columns of `d$` has them as long as `d$` gets no column, and never again. -/
theorem Setup.Kept.follows_iff (h : s.Kept cfg tbl) (hk : (c, k) ∈ Setup.creates) (hs : s.Followed c)
    (life : List SetupMove) :
    (life.foldl (Setup.move cfg tbl) s).Followed c ∧
      ((life.foldl (Setup.move cfg tbl) s).Follows c ↔
        s.Follows c ∧ EachStep (Setup.move cfg tbl) (fun s x => ¬ s.Widens x) s life) := by
  induction life generalizing s with
  | nil => exact ⟨hs, (and_iff_left eachStep_nil).symm⟩
  | cons x life ih =>
      obtain ⟨hstep, hiff⟩ := h.followed_step hk hs x
      obtain ⟨hrest, hlife⟩ := ih h.move hstep
      apply And.intro hrest
      rw [List.foldl_cons, hlife, hiff, eachStep_cons, and_assoc]

/-- Over all lives, the tables that are found are those that a life has left. -/
theorem Setup.Kept.follows_lives_iff (h : s.Kept cfg tbl) (hk : (c, k) ∈ Setup.creates)
    (hs : s.Followed c) (lives : List (List SetupMove)) :
    (lives.foldl (fun s life => (life.foldl (Setup.move cfg tbl) s).restart) s).Follows c ↔
      s.Follows c ∧ EachStep (fun s life => (life.foldl (Setup.move cfg tbl) s).restart)
        (fun s life => EachStep (Setup.move cfg tbl) (fun s x => ¬ s.Widens x) s life) s lives := by
  induction lives generalizing s with
  | nil => exact (and_iff_left eachStep_nil).symm
  | cons life lives ih =>
      obtain ⟨hleft, hlife⟩ := h.follows_iff hk hs life
      have hkept : (life.foldl (Setup.move cfg tbl) s).Kept cfg tbl :=
        foldl_invariant (fun _ _ _ h => Setup.Kept.move h) h
      have hmade (s : Setup col) : s.restart.made c = s.made c := by cases c <;> rfl
      have hfollows (s : Setup col) : s.restart.Follows c ↔ s.Follows c := by
        unfold Setup.Follows
        rw [hmade]
        rfl
      rw [List.foldl_cons, ih hkept.restart, hfollows, hlife, eachStep_cons, and_assoc]
      obtain ⟨d, columns, hd, hcolumns, hprefix⟩ := hleft
      exact ⟨d, columns, hd, (hmade _).trans hcolumns, hprefix⟩

end widens

/-! ### A property that comes later -/

/-- The disk of a host, once the agent also gives the free inodes. -/
def diskAndInodes : Definition := ⟨false, [⟨"pctfree", .number⟩, ⟨"inodes", .integer⟩]⟩

/-- The agent makes the table, and the program aggregates it. -/
def firstLife : List SetupMove :=
  [.updateApi 0 diskProperties, .agent 0 true, .agent 0 true, .agent 0 true] ++
    List.replicate 18 (.pass true 400000)

/-- The new property gets its column, and the aggregates are loaded again. -/
def secondLife : List SetupMove :=
  [.updateApi 0 diskAndInodes, .agent 0 true, .agent 0 true, .agent 0 true, .agent 0 true,
      .agent 0 true] ++
    List.replicate 14 (.pass true 400000)

/-- The insert gives two columns, and the table takes one. -/
theorem new_column_does_not_fit :
    ¬ ∀ before life after, [firstLife, secondLife ++ [.pass true 400000]] = before ++ life :: after →
        EachStep (Setup.move keptForEver "disk_usage")
          (fun s x => ∀ stmt, s.Executes stmt x → s.Fits stmt)
          (afterLives keptForEver "disk_usage" unknownType before) life := by
  intro h
  let s := secondLife.foldl (Setup.move keptForEver "disk_usage")
    (afterLives keptForEver "disk_usage" unknownType [firstLife])
  have hexec : s.Executes .baseAm (.pass true 400000) := ⟨[.baseAh, .baseAd], by decide +kernel⟩
  have hfits : s.Fits .baseAm := h [firstLife] _ [] rfl secondLife _ [] rfl .baseAm hexec
  have hcolumns : s.texts.map TableTexts.columns = some (some ["pctfree", "inodes"]) := by
    decide +kernel
  have ham : s.made .createAm = some ⟨"host_id", ["pctfree"]⟩ := by decide +kernel
  obtain ⟨texts, htexts, hread⟩ := Option.map_eq_some_iff.mp hcolumns
  obtain ⟨t, hmade, hmet⟩ := hfits texts htexts (.createAm, .exact) List.mem_cons_self
  rw [ham] at hmade
  cases hmade
  have hsame : ["pctfree"] = texts.columns.getD [] := congrArg AggregTable.columns hmet
  rw [hread] at hsame
  exact absurd hsame (by decide)

end WatchedBack
