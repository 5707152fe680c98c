import WatchedBack.Library.Runs
import WatchedBack.Model.Settings

/-! # Changes of the settings

The texts of a data type keep the settings that were read first; the schedule takes those that were
read last. -/

namespace WatchedBack

variable {col : Collation}

/-! ### Numbers in a text -/

/-- A text that a number is written into. -/
def Writes (f : ℕ → String) : Prop := ∃ before after, ∀ n, f n = before ++ toString n ++ after

namespace Writes

variable {f : ℕ → String}

theorem number (text : String) : Writes fun n => text ++ toString n := by
  refine ⟨text, "", fun n => ?_⟩
  rw [String.append_empty]

theorem append (h : Writes f) (text : String) : Writes fun n => f n ++ text := by
  obtain ⟨before, after, hf⟩ := h
  refine ⟨before, after ++ text, fun n => ?_⟩
  dsimp only
  rw [hf, String.append_assoc]

theorem prepend (h : Writes f) (text : String) : Writes fun n => text ++ f n := by
  obtain ⟨before, after, hf⟩ := h
  refine ⟨text ++ before, after, fun n => ?_⟩
  dsimp only
  rw [hf, String.append_assoc, String.append_assoc, String.append_assoc]

theorem eq_iff (h : Writes f) {n m : ℕ} : f n = f m ↔ n = m := by
  obtain ⟨before, after, hf⟩ := h
  rw [hf, hf, String.append_left_inj, String.append_right_inj]
  constructor
  · intro heq
    exact Nat.repr_injective heq
  · intro heq
    rw [heq]

end Writes

/-- The delay is written once. -/
theorem BaseText.writes_fromText (b : BaseText) (tbl idName : String) :
    Writes fun n => BaseText.fromText { b with delay := n } tbl idName := by
  unfold fromText
  dsimp only
  iterate 15 apply Writes.append
  exact Writes.number _

theorem BaseText.writes_text (b : BaseText) (tbl idName : String) (columns : List String) :
    Writes fun n => BaseText.text { b with delay := n } tbl idName (some columns) := by
  have h := (b.writes_fromText tbl idName).prepend (String.join (columns.map b.colText))
  unfold text
  dsimp only
  exact (h.prepend _).prepend _

/-- The three delays. -/
def AggregData.delays (data : AggregData) : ℕ × ℕ × ℕ := (data.delayAm, data.delayAh, data.delayAd)

/-- The texts of other delays are other texts, where they have columns. -/
theorem TableTexts.texts_eq_iff {t : TableTexts} {data : AggregData}
    (hcolumns : t.columns.isSome = true) :
    (t.baseAm = { t with cfg := data }.baseAm ∧ t.baseAh = { t with cfg := data }.baseAh ∧
        t.baseAd = { t with cfg := data }.baseAd) ↔ t.cfg.delays = data.delays := by
  obtain ⟨columns, hsome⟩ := Option.isSome_iff_exists.mp hcolumns
  have htext (b : BaseText) (n m : ℕ) :
      BaseText.text { b with delay := n } t.tbl t.idName t.columns =
        BaseText.text { b with delay := m } t.tbl t.idName t.columns ↔ n = m := by
    rw [hsome]
    exact (b.writes_text t.tbl t.idName columns).eq_iff
  have ham := htext ⟨"am$", "d$", "d$", 60000, 60, 0, colmText⟩ t.cfg.delayAm data.delayAm
  have hah := htext ⟨"ah$", "am$", "am$", 3600000, 3600, 0, colhText⟩ t.cfg.delayAh data.delayAh
  have had := htext ⟨"ad$", "ah$", "am$", 86400000, 3600, 0, colhText⟩ t.cfg.delayAd data.delayAd
  simp only [AggregData.delays, Prod.mk.injEq]
  exact and_congr ham (and_congr hah had)

/-- The settings read last have taken effect: in the three texts and in the frequency. -/
structure AggregSettings.Effective (a : AggregSettings) (e : AggregEntry) : Prop where
  columns : e.texts.columns.isSome = true
  baseAm : e.texts.baseAm = { e.texts with cfg := e.data }.baseAm
  baseAh : e.texts.baseAh = { e.texts with cfg := e.data }.baseAh
  baseAd : e.texts.baseAd = { e.texts with cfg := e.data }.baseAd
  frequency : a.threadFreq ≤ e.data.delayAm

/-! ### Rows of one reading -/

theorem Reading.eq_of_same (r : Reading col) {a b : AggregateConfig} (ha : a ∈ r.config)
    (hb : b ∈ r.config) (h : col.same a.name b.name = true) : a = b := by
  have hsymm : Std.Symm fun a b : AggregateConfig => col.same a.name b.name = false := by
    constructor
    intro a b hab
    by_contra hba
    rw [col.symm (Bool.eq_true_of_not_eq_false hba)] at hab
    cases hab
  by_contra hne
  rw [r.keyed.forall ha hb hne] at h
  cases h

/-- The rows of a reading agree on a data type: it has one configuration of its own, or the
default. -/
theorem Reading.data_eq (r : Reading col) {row row' : DataConfig} (h : row ∈ r.rows)
    (h' : row' ∈ r.rows) (htype : row.dataType = row'.dataType) : row.data = row'.data := by
  have hcases (row : DataConfig) (h : row ∈ r.rows) :
      ∃ a ∈ r.config, row.data = a.data ∧ (col.same row.dataType a.name = true ∨
        (col.same a.name "default" = true ∧
          ∀ b ∈ r.config, col.same row.dataType b.name = false)) := by
    unfold rows at h
    split at h
    · simp only [dataConfigs, List.mem_flatMap, List.mem_filter] at h
      obtain ⟨c, ⟨hc, hdefault⟩, dataType, -, hrow⟩ := h
      split at hrow
      · next hempty =>
        rw [List.mem_singleton.mp hrow]
        refine ⟨c, hc, rfl, Or.inr ⟨hdefault, ?_⟩⟩
        simpa [List.isEmpty_iff, List.filter_eq_nil_iff] using hempty
      · obtain ⟨a, ha, rfl⟩ := List.mem_map.mp hrow
        obtain ⟨hmem, hsame⟩ := List.mem_filter.mp ha
        exact ⟨a, hmem, rfl, Or.inl hsame⟩
    · cases h
  obtain ⟨a, ha, hdata, hown⟩ := hcases row h
  obtain ⟨a', ha', hdata', hown'⟩ := hcases row' h'
  rw [hdata, hdata']
  congr 1
  rw [← htype] at hown'
  rcases hown with hown | ⟨hdefault, hnone⟩
  · rcases hown' with hown' | ⟨-, hnone'⟩
    · exact r.eq_of_same ha ha' (col.trans (col.symm hown) hown')
    · rw [hnone' a ha] at hown
      cases hown
  · rcases hown' with hown' | ⟨hdefault', -⟩
    · rw [hnone a' ha'] at hown'
      cases hown'
    · exact r.eq_of_same ha ha' (col.trans hdefault (col.symm hdefault'))

/-! ### What is kept of the rows -/

namespace AggregSettings

variable {a : AggregSettings} {schema : String → String × Option (List String)}

/-- A row, and the columns that were there to be read. -/
abbrev SeenRow := DataConfig × Option (List String)

/-- The entries that the rows leave: the texts are made of the first row of a data type, the
settings are those of the last. -/
structure Keeps (a : AggregSettings) (rows : List SeenRow) : Prop where
  unknown : ∀ tbl, a.tables tbl = none → ∀ p ∈ rows, p.1.dataType ≠ tbl
  first : ∀ tbl e, a.tables tbl = some e → ∃ p, rows.find? (fun p => p.1.dataType = tbl) = some p ∧
    e.texts.cfg = p.1.data ∧ e.texts.columns = p.2
  last : ∀ tbl e, a.tables tbl = some e →
    ∃ p, rows.reverse.find? (fun p => p.1.dataType = tbl) = some p ∧ e.data = p.1.data
  frequency : ∀ tbl e, a.tables tbl = some e → a.threadFreq ≤ e.texts.cfg.delayAm

theorem keeps_init : Keeps init [] :=
  ⟨by simp, by simp [init], by simp [init], by simp [init]⟩

section readRow

variable {rows : List SeenRow} {row : DataConfig} {columns : Option (List String)} {tbl : String}

theorem first_concat_of_some {p : SeenRow}
    (h : rows.find? (fun p => p.1.dataType = tbl) = some p) :
    (rows ++ [(row, columns)]).find? (fun p => p.1.dataType = tbl) = some p := by
  rw [List.find?_append, h]
  rfl

theorem first_concat_of_forall (h : ∀ p ∈ rows, p.1.dataType ≠ row.dataType) :
    (rows ++ [(row, columns)]).find? (fun p => p.1.dataType = row.dataType) =
      some (row, columns) := by
  have hnone : rows.find? (fun p => p.1.dataType = row.dataType) = none := by
    simpa [List.find?_eq_none] using h
  rw [List.find?_append, hnone]
  simp

theorem last_concat_self : (rows ++ [(row, columns)]).reverse.find?
    (fun p => p.1.dataType = row.dataType) = some (row, columns) := by
  simp

theorem last_concat_of_ne (h : tbl ≠ row.dataType) : (rows ++ [(row, columns)]).reverse.find?
    (fun p => p.1.dataType = tbl) = rows.reverse.find? fun p => p.1.dataType = tbl := by
  simp [h.symm]

/-- A row writes one entry. -/
theorem Keeps.write {e : AggregEntry} {threadFreq : ℕ} (h : Keeps a rows)
    (hfirst : ∃ p, (rows ++ [(row, columns)]).find? (fun p => p.1.dataType = row.dataType) = some p ∧
      e.texts.cfg = p.1.data ∧ e.texts.columns = p.2)
    (hdata : e.data = row.data) (hle : threadFreq ≤ a.threadFreq)
    (hfrequency : threadFreq ≤ e.texts.cfg.delayAm) :
    Keeps ⟨Function.update a.tables row.dataType (some e), threadFreq⟩
      (rows ++ [(row, columns)]) := by
  constructor
  · intro tbl hnone p hp
    by_cases htbl : tbl = row.dataType
    · subst htbl
      simp at hnone
    · have hnone' : a.tables tbl = none := by simpa [Function.update_of_ne htbl] using hnone
      rcases List.mem_append.mp hp with hp | hp
      · exact h.unknown tbl hnone' p hp
      · rw [List.mem_singleton.mp hp]
        exact Ne.symm htbl
  · intro tbl e' he
    by_cases htbl : tbl = row.dataType
    · subst htbl
      obtain rfl : e = e' := by simpa using he
      exact hfirst
    · have he' : a.tables tbl = some e' := by simpa [Function.update_of_ne htbl] using he
      obtain ⟨p, hp, hcfg, hcolumns⟩ := h.first tbl e' he'
      exact ⟨p, first_concat_of_some hp, hcfg, hcolumns⟩
  · intro tbl e' he
    by_cases htbl : tbl = row.dataType
    · subst htbl
      obtain rfl : e = e' := by simpa using he
      exact ⟨_, last_concat_self, hdata⟩
    · have he' : a.tables tbl = some e' := by simpa [Function.update_of_ne htbl] using he
      rw [last_concat_of_ne htbl]
      exact h.last tbl e' he'
  · intro tbl e' he
    by_cases htbl : tbl = row.dataType
    · subst htbl
      obtain rfl : e = e' := by simpa using he
      exact hfrequency
    · have he' : a.tables tbl = some e' := by simpa [Function.update_of_ne htbl] using he
      exact hle.trans (h.frequency tbl e' he')

theorem Keeps.readRow (h : Keeps a rows) (row : DataConfig) :
    Keeps (readRow schema a row) (rows ++ [(row, (schema row.dataType).2)]) := by
  unfold AggregSettings.readRow
  cases he : a.tables row.dataType with
  | some e =>
      obtain ⟨p, hp, hcfg, hcolumns⟩ := h.first _ e he
      exact h.write ⟨p, first_concat_of_some hp, hcfg, hcolumns⟩ rfl le_rfl (h.frequency _ e he)
  | none =>
      apply h.write ⟨_, first_concat_of_forall (h.unknown _ he), rfl, rfl⟩ rfl
      · split
        · next hlt => exact hlt.le
        · exact le_rfl
      · dsimp only
        split
        · exact le_rfl
        · next hge => exact not_lt.mp hge

end readRow

theorem Keeps.reload {rows : List SeenRow} (h : Keeps a rows) (r : Reading col) :
    Keeps (a.reload r) (rows ++ r.rows.map fun row => (row, (r.schema row.dataType).2)) := by
  unfold AggregSettings.reload
  generalize r.rows = read
  induction read generalizing a rows with
  | nil => simpa using h
  | cons row read ih =>
      have hread : Keeps (AggregSettings.readRow r.schema a row)
          (rows ++ [(row, (r.schema row.dataType).2)]) := h.readRow row
      have hrest := ih hread
      rwa [List.append_assoc] at hrest

theorem Keeps.reschedule {rows : List SeenRow} (h : Keeps a rows) (fp : ℚ) :
    Keeps (a.reschedule fp) rows := by
  have hback (tbl : String) (e : AggregEntry) (he : (a.reschedule fp).tables tbl = some e) :
      ∃ e', a.tables tbl = some e' ∧ e.texts = e'.texts ∧ e.data = e'.data := by
    obtain ⟨e', he', rfl⟩ := Option.map_eq_some_iff.mp he
    exact ⟨e', he', rfl, rfl⟩
  constructor
  · intro tbl hnone
    exact h.unknown tbl (Option.map_eq_none_iff.mp hnone)
  · intro tbl e he
    obtain ⟨e', he', htexts, -⟩ := hback tbl e he
    rw [htexts]
    exact h.first tbl e' he'
  · intro tbl e he
    obtain ⟨e', he', -, hdata⟩ := hback tbl e he
    rw [hdata]
    exact h.last tbl e' he'
  · intro tbl e he
    obtain ⟨e', he', htexts, -⟩ := hback tbl e he
    rw [htexts]
    exact h.frequency tbl e' he'

/-- The rows of the readings. -/
def seenRows (readings : List (Reading col)) : List SeenRow :=
  readings.flatMap fun r => r.rows.map fun row => (row, (r.schema row.dataType).2)

theorem keeps_reload (before : List (Reading col)) (r : Reading col) :
    Keeps ((before.foldl pass init).reload r) (seenRows (before ++ [r])) := by
  have hrun : Keeps (before.foldl pass init) (seenRows before) := by
    induction before using List.reverseRecOn with
    | nil => exact keeps_init
    | append_singleton before q ih =>
        rw [List.foldl_append, seenRows, List.flatMap_append]
        simpa [seenRows, pass] using (ih.reload q).reschedule q.fp
  simpa [seenRows] using hrun.reload r

/-- An entry is what its first and its last row make of it. -/
theorem Keeps.effective_iff {rows : List SeenRow} (h : Keeps a rows) {tbl : String} {e : AggregEntry}
    {p q : SeenRow} (he : a.tables tbl = some e)
    (hfirst : rows.find? (fun p => p.1.dataType = tbl) = some p)
    (hlast : rows.reverse.find? (fun p => p.1.dataType = tbl) = some q) :
    a.Effective e ↔ p.2.isSome = true ∧ p.1.data.delays = q.1.data.delays := by
  obtain ⟨p', hp', hcfg, hcolumns⟩ := h.first tbl e he
  rw [hfirst] at hp'
  cases hp'
  obtain ⟨q', hq', hdata⟩ := h.last tbl e he
  rw [hlast] at hq'
  cases hq'
  rw [← hcolumns, ← hcfg, ← hdata]
  constructor
  · intro heff
    exact ⟨heff.columns,
      (TableTexts.texts_eq_iff heff.columns).mp ⟨heff.baseAm, heff.baseAh, heff.baseAd⟩⟩
  · rintro ⟨hsome, hdelays⟩
    obtain ⟨ham, hah, had⟩ := (TableTexts.texts_eq_iff hsome).mpr hdelays
    have hle := h.frequency tbl e he
    have hdelay : e.texts.cfg.delayAm = e.data.delayAm := congrArg Prod.fst hdelays
    exact ⟨hsome, ham, hah, had, hdelay ▸ hle⟩

theorem mem_seenRows {readings : List (Reading col)} {p : SeenRow} :
    p ∈ seenRows readings ↔
      ∃ r ∈ readings, ∃ row ∈ r.rows, (row, (r.schema row.dataType).2) = p := by
  simp [seenRows]

/-- The first row of a data type is one of the reading that sees it first. -/
theorem exists_of_first {readings : List (Reading col)} {tbl : String} {p : SeenRow}
    (h : (seenRows readings).find? (fun p => p.1.dataType = tbl) = some p) :
    ∃ before r after, readings = before ++ r :: after ∧ p.1 ∈ r.rows ∧
      p.2 = (r.schema p.1.dataType).2 ∧ ∀ q ∈ before, ∀ row ∈ q.rows, row.dataType ≠ tbl := by
  induction readings with
  | nil => simp [seenRows] at h
  | cons r readings ih =>
      rw [seenRows, List.flatMap_cons, List.find?_append] at h
      cases hr : (r.rows.map fun row => (row, (r.schema row.dataType).2)).find?
          fun p => p.1.dataType = tbl with
      | some p' =>
          rw [hr] at h
          cases h
          obtain ⟨row, hrow, rfl⟩ := List.mem_map.mp (List.mem_of_find?_eq_some hr)
          exact ⟨[], r, readings, rfl, hrow, rfl, by simp⟩
      | none =>
          rw [hr] at h
          obtain ⟨before, q, after, rfl, hmem, hcolumns, hnew⟩ := ih h
          refine ⟨r :: before, q, after, rfl, hmem, hcolumns, ?_⟩
          intro q' hq' row hrow
          rcases List.mem_cons.mp hq' with rfl | hq'
          · have hall := List.find?_eq_none.mp hr (row, (q'.schema row.dataType).2)
              (List.mem_map_of_mem hrow)
            simpa using hall
          · exact hnew q' hq' row hrow

/-- The last row of a data type, where the last reading has one. -/
theorem exists_of_last {before : List (Reading col)} {r : Reading col} {row : DataConfig}
    (hrow : row ∈ r.rows) : ∃ p, (seenRows (before ++ [r])).reverse.find?
      (fun p => p.1.dataType = row.dataType) = some p ∧ p.1.data = row.data := by
  have hsome : ((r.rows.map fun row => (row, (r.schema row.dataType).2)).reverse.find?
      fun p => p.1.dataType = row.dataType).isSome = true := by
    rw [List.find?_isSome]
    exact ⟨_, List.mem_reverse.mpr (List.mem_map_of_mem hrow), by simp⟩
  obtain ⟨p, hp⟩ := Option.isSome_iff_exists.mp hsome
  refine ⟨p, ?_, ?_⟩
  · rw [seenRows, List.flatMap_append, List.reverse_append, List.find?_append, List.flatMap_cons,
      List.flatMap_nil, List.append_nil, hp]
    rfl
  · obtain ⟨row', hrow', rfl⟩ := List.mem_map.mp (List.mem_reverse.mp (List.mem_of_find?_eq_some hp))
    have htype : row'.dataType = row.dataType := by simpa using List.find?_some hp
    exact r.data_eq hrow' hrow htype

/-- What a pass says about a row that it reads, where its settings take effect. -/
theorem first_of_effective {before : List (Reading col)} {r : Reading col}
    (heff : ∀ tbl e, ((before.foldl pass init).reload r).tables tbl = some e →
      ((before.foldl pass init).reload r).Effective e) {row : DataConfig} (hrow : row ∈ r.rows) :
    ∃ p, (seenRows (before ++ [r])).find? (fun p => p.1.dataType = row.dataType) = some p ∧
      p.2.isSome = true ∧ p.1.data.delays = row.data.delays := by
  have hkeeps := keeps_reload before r
  cases he : ((before.foldl pass init).reload r).tables row.dataType with
  | none =>
      have hmem : (row, (r.schema row.dataType).2) ∈ seenRows (before ++ [r]) :=
        mem_seenRows.mpr ⟨r, by simp, row, hrow, rfl⟩
      exact absurd rfl (hkeeps.unknown _ he _ hmem)
  | some e =>
      obtain ⟨p, hp, -, -⟩ := hkeeps.first _ e he
      obtain ⟨q, hq, hdata⟩ := exists_of_last hrow
      obtain ⟨hsome, hdelays⟩ := (hkeeps.effective_iff he hp hq).mp (heff _ e he)
      exact ⟨p, hp, hsome, by rw [hdelays, hdata]⟩

/-- The first row of a data type stays the first one. -/
theorem find?_seenRows_append {before after : List (Reading col)} {tbl : String}
    {p : DataConfig × Option (List String)}
    (hp : (seenRows before).find? (fun p => p.1.dataType = tbl) = some p) :
    (seenRows (before ++ after)).find? (fun p => p.1.dataType = tbl) = some p := by
  rw [seenRows] at hp
  rw [seenRows, List.flatMap_append, List.find?_append, hp]
  rfl

/-- A data type that is new has its first row in the last reading. -/
theorem columns_of_new {before : List (Reading col)} {r : Reading col} {tbl : String}
    {p : DataConfig × Option (List String)}
    (hp : (seenRows (before ++ [r])).find? (fun p => p.1.dataType = tbl) = some p)
    (hnew : ∀ q ∈ before, ∀ row ∈ q.rows, row.dataType ≠ tbl) : p.2 = (r.schema tbl).2 := by
  have hnone : (seenRows before).find? (fun p => p.1.dataType = tbl) = none := by
    rw [List.find?_eq_none]
    intro q hq
    obtain ⟨r', hr', row, hrow, rfl⟩ := mem_seenRows.mp hq
    simpa using hnew r' hr' row hrow
  rw [seenRows] at hp hnone
  rw [List.flatMap_append, List.find?_append, hnone, List.flatMap_cons, List.flatMap_nil,
    List.append_nil, Option.none_or] at hp
  obtain ⟨row, hrow, rfl⟩ := List.mem_map.mp (List.mem_of_find?_eq_some hp)
  have htype : row.dataType = tbl := by simpa using List.find?_some hp
  rw [← htype]

/-- The settings of every table take effect in every pass, exactly if no two rows that are ever read
for a data type have different delays, and its columns can be read when it is first seen. -/
theorem settings_effective_iff (readings : List (Reading col)) :
    (∀ before r after, readings = before ++ r :: after → ∀ tbl e,
      ((before.foldl pass init).reload r).tables tbl = some e →
        ((before.foldl pass init).reload r).Effective e) ↔
    (∀ q ∈ readings, ∀ r ∈ readings, ∀ row ∈ q.rows, ∀ row' ∈ r.rows,
      row.dataType = row'.dataType → row.data.delays = row'.data.delays) ∧
    ∀ before r after, readings = before ++ r :: after → ∀ row ∈ r.rows,
      (∀ q ∈ before, ∀ row' ∈ q.rows, row'.dataType ≠ row.dataType) →
        (r.schema row.dataType).2.isSome = true := by
  constructor
  · intro heff
    constructor
    · have hfirst (q : Reading col) (hq : q ∈ readings) (row : DataConfig) (hrow : row ∈ q.rows) :
          ∃ p, (seenRows readings).find? (fun p => p.1.dataType = row.dataType) = some p ∧
            p.1.data.delays = row.data.delays := by
        obtain ⟨before, after, rfl⟩ := List.append_of_mem hq
        obtain ⟨p, hp, -, hdelays⟩ := first_of_effective (heff before q after rfl) hrow
        refine ⟨p, ?_, hdelays⟩
        rw [List.append_cons]
        exact find?_seenRows_append hp
      intro q hq r hr row hrow row' hrow' htype
      obtain ⟨p, hp, hdelays⟩ := hfirst q hq row hrow
      obtain ⟨p', hp', hdelays'⟩ := hfirst r hr row' hrow'
      rw [htype, hp'] at hp
      cases hp
      rw [← hdelays, ← hdelays']
    · intro before r after heq row hrow hnew
      obtain ⟨p, hp, hsome, -⟩ := first_of_effective (heff before r after heq) hrow
      rw [← columns_of_new hp hnew]
      exact hsome
  · rintro ⟨hsame, hread⟩ before r after rfl tbl e he
    have hkeeps := keeps_reload before r
    obtain ⟨p, hp, -, -⟩ := hkeeps.first tbl e he
    obtain ⟨q, hq, -⟩ := hkeeps.last tbl e he
    have hsub (x : Reading col) (hx : x ∈ before ++ [r]) : x ∈ before ++ r :: after := by
      simp only [List.mem_append, List.mem_cons, List.not_mem_nil, or_false] at hx ⊢
      tauto
    apply (hkeeps.effective_iff he hp hq).mpr
    obtain ⟨rp, hrp, row, hrow, rfl⟩ := mem_seenRows.mp (List.mem_of_find?_eq_some hp)
    obtain ⟨rq, hrq, row', hrow', rfl⟩ :=
      mem_seenRows.mp (List.mem_reverse.mp (List.mem_of_find?_eq_some hq))
    have htype : row.dataType = tbl := by simpa using List.find?_some hp
    have htype' : row'.dataType = tbl := by simpa using List.find?_some hq
    constructor
    · obtain ⟨before', r', after', heq, hmem, hcolumns, hnew⟩ := exists_of_first hp
      rw [hcolumns]
      apply hread before' r' (after' ++ after) _ row hmem
      · intro x hx y hy
        rw [htype]
        exact hnew x hx y hy
      · rw [List.append_cons, heq, List.append_assoc]
        rfl
    · exact hsame rp (hsub rp hrp) rq (hsub rq hrq) row hrow row' hrow' (htype.trans htype'.symm)

/-! ### A delay that is raised -/

/-- A pass over the disks of hosts, with one configuration for all data types. -/
def diskReading (data : AggregData) : Reading Collation.binary where
  config := [⟨"default", data⟩]
  keyed := List.pairwise_singleton _ _
  ressources := [⟨1, "disk", "host", "disk_usage"⟩]
  ok := true
  schema _ := ("host_id", some ["pctfree"])
  fp := 0

/-- Delays of half an hour, and then of an hour. -/
def halfHour : AggregData := ⟨30, 2, 1, 14, 60, 730, 0⟩

def fullHour : AggregData := { halfHour with delayAm := 60 }

/-- After the change the text of the minutes still has the old delay. -/
theorem raised_delay_not_in_text :
    ¬ ∀ before r after, [diskReading halfHour, diskReading fullHour] = before ++ r :: after →
      ∀ tbl e, ((before.foldl pass init).reload r).tables tbl = some e →
        ((before.foldl pass init).reload r).Effective e := by
  intro h
  have hdelays : ((([diskReading halfHour].foldl pass init).reload (diskReading fullHour)).tables
      "disk_usage").map (fun e => (e.texts.cfg.delays, e.data.delays)) =
        some ((30, 2, 1), (60, 2, 1)) := by
    decide +kernel
  obtain ⟨e, he, hpair⟩ := Option.map_eq_some_iff.mp hdelays
  have heff := h [diskReading halfHour] (diskReading fullHour) [] rfl "disk_usage" e he
  have hsame := (TableTexts.texts_eq_iff heff.columns).mp ⟨heff.baseAm, heff.baseAh, heff.baseAd⟩
  obtain ⟨hfirst, hlast⟩ := Prod.mk.inj hpair
  rw [hfirst, hlast] at hsame
  exact absurd hsame (by decide)

end AggregSettings

end WatchedBack
